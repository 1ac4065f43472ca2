import TenOs.Cpu.Syscall

/-!
# Which handler `process_cmd` calls

The comparisons of `process_cmd` look at as many bytes as the name of a command has, so a longer word
that starts with a name runs its handler too, and whatever the word is, the call returns 0.  The shell
takes a negative value for a failed or unknown command.
-/

namespace TenOs.Cpu

open TenOs.Base TenOs.Lib TenOs.Fs TenOs.Drivers

inductive Command
  | help
  | clear
  | echo
  | create
  | cat
  | ls

def Command.word : Command → List u8
  | help => wordHelp
  | clear => wordClear
  | echo => wordEcho
  | create => wordCreate
  | cat => wordCat
  | ls => wordLs

/-- The chain of comparisons: the command whose handler is called. -/
def commandOf (cmd : Bytes) : Option Command :=
  if cmdIs cmd wordHelp then some .help
  else if cmdIs cmd wordClear then some .clear
  else if cmdIs cmd wordEcho then some .echo
  else if cmdIs cmd wordCreate then some .create
  else if cmdIs cmd wordCat then some .cat
  else if cmdIs cmd wordLs then some .ls
  else none

/-- What `process_cmd` does with a line: the handler it calls, with its argument, and the value it
returns once the handler is done. -/
structure CmdCall where
  handler : Option (Command × List u8)
  ret : Int

/-- `process_cmd` up to the call of a handler, and its `return 0`. -/
def cmdCall (stack : Stack) (line : CString) : Except Fault CmdCall := do
  let (cmd, i, buff) ← copyCmd 20 (zeroed stack.cmd 20) 0 (skipSpaces (chars line))
  let buff := skipSpaces buff
  let cmd ← setChar 20 cmd i 0
  .ok { handler := (commandOf cmd).map fun c ↦ (c, buff), ret := 0 }

variable {D : Type} [SectorDevice D]

/-- The handler, or else the message about an unknown command. -/
def runHandler (s : FsState D) (stack : Stack) (page page' : Bool) :
    Option (Command × List u8) → Except Fault (FsState D × Stack)
  | some (.help, _) => .ok (s, stack)
  | some (.clear, _) => .ok (s, stack)
  | some (.echo, _) => .ok (s, stack)
  | some (.create, args) => cmdCreateFile s stack args page page'
  | some (.cat, args) => cmdCat s stack args page
  | some (.ls, _) => .ok ((fat12ListRoot s).1, stack)
  | none => do
      let _ ← asString 20 stack.cmd
      .ok (s, stack)

/-! ## The call -/

theorem cmdCall_of_short (stack : Stack) {line : CString} (hlen : (firstWord line).length < 20) :
    cmdCall stack line = .ok
      { handler := (commandOf (cmdArray stack line)).map fun c ↦ (c, argsOf line), ret := 0 } := by
  obtain ⟨htake, hdrop⟩ := takeWhile_cmd line
  have hok := copyWhile_ok ((copyFits_cmd line).mpr (Nat.le_of_lt hlen)) (zeroed stack.cmd 20)
  rw [htake, hdrop, Nat.zero_add] at hok
  unfold cmdCall
  rw [copyCmd, hok]
  simp only [bind, Except.bind, setChar, if_pos hlen]
  rfl

/-- `process_cmd` runs the handler that it calls. -/
theorem processCmd_eq_runHandler (s : FsState D) (stack : Stack) {line : CString}
    (hlen : (firstWord line).length < 20) (page page' : Bool) :
    processCmd s stack line page page' = (do
      let call ← cmdCall stack line
      runHandler s { stack with cmd := cmdArray stack line } page page' call.handler) := by
  rw [processCmd_of_short s stack hlen, cmdCall_of_short stack hlen, dispatch]
  simp only [bind, Except.bind, commandOf]
  split_ifs <;> rfl

/-! ## Which command it is -/

-- No name starts another, so at most one of them starts the word.
theorem Command.eq_of_starts {c c' : Command} {l : List u8} (h : c.word <+: l) (h' : c'.word <+: l) :
    c = c' := by
  by_contra hne
  refine not_starts_of_starts h c'.word ?_ h'
  cases c <;> cases c' <;> first | exact absurd rfl hne | decide

theorem commandOf_spec {cmd : Bytes} {l : List u8} (hcmd : ∀ i < 20, cmd i = l.getD i 0) :
    (∃ c, commandOf cmd = some c ∧ c.word <+: l) ∨
      (commandOf cmd = none ∧ ∀ c : Command, ¬ c.word <+: l) := by
  obtain ⟨hisHelp, hisClear, hisEcho, hisCreate, hisCat, hisLs⟩ := cmdIs_names hcmd
  unfold commandOf
  simp only [hisHelp, hisClear, hisEcho, hisCreate, hisCat, hisLs]
  split_ifs with hhelp hclear hecho hcreate hcat hls
  · exact Or.inl ⟨.help, rfl, hhelp⟩
  · exact Or.inl ⟨.clear, rfl, hclear⟩
  · exact Or.inl ⟨.echo, rfl, hecho⟩
  · exact Or.inl ⟨.create, rfl, hcreate⟩
  · exact Or.inl ⟨.cat, rfl, hcat⟩
  · exact Or.inl ⟨.ls, rfl, hls⟩
  · refine Or.inr ⟨rfl, fun c ↦ ?_⟩
    cases c <;> assumption

/-- The handler that is called is that of the name the word starts with. -/
theorem commandOf_eq_some_iff {cmd : Bytes} {l : List u8} (hcmd : ∀ i < 20, cmd i = l.getD i 0)
    (c : Command) : commandOf cmd = some c ↔ c.word <+: l := by
  rcases commandOf_spec hcmd with ⟨c', hsome, hstarts⟩ | ⟨hnone, hnot⟩
  · rw [hsome, Option.some.injEq]
    exact ⟨fun h ↦ h ▸ hstarts, fun h ↦ Command.eq_of_starts hstarts h⟩
  · rw [hnone]
    exact iff_of_false (fun h ↦ by cases h) (hnot c)

/-! ## Exactness -/

/-- A handler runs exactly for its own name, on the text behind the word; for any other word none runs,
and the value returned is negative. -/
def DispatchExact (stack : Stack) (line : CString) : Prop :=
  ∃ call, cmdCall stack line = .ok call ∧
    (∀ c args, call.handler = some (c, args) ↔ firstWord line = c.word ∧ args = argsOf line) ∧
    ((∀ c : Command, firstWord line ≠ c.word) → call.handler = none ∧ call.ret < 0)

/-- For words that fit, only the six names are dispatched exactly. -/
theorem dispatchExact_iff (stack : Stack) {line : CString} (hlen : (firstWord line).length < 20) :
    DispatchExact stack line ↔ ∃ c : Command, firstWord line = c.word := by
  have hcall := cmdCall_of_short stack hlen
  constructor
  · intro h
    obtain ⟨call, hok, -, hother⟩ := h
    by_contra hnone
    rw [hcall] at hok
    cases hok
    have hneg := (hother fun c hc ↦ hnone ⟨c, hc⟩).2
    exact absurd hneg (Int.lt_irrefl 0)
  · intro h
    obtain ⟨c, hc⟩ := h
    have hstarts : c.word <+: firstWord line := hc ▸ List.prefix_refl _
    have hsome := (commandOf_eq_some_iff (fun i hi ↦ cmdArray_inside stack line hi) c).mpr hstarts
    rw [hsome] at hcall
    refine ⟨_, hcall, fun c' args ↦ ?_, fun hno ↦ absurd hc (hno c)⟩
    simp only [Option.map_some, Option.some.injEq, Prod.mk.injEq]
    constructor
    · intro h
      exact ⟨h.1 ▸ hc, h.2.symm⟩
    · intro h
      have hstarts' : c'.word <+: firstWord line := h.1 ▸ List.prefix_refl _
      exact ⟨Command.eq_of_starts hstarts hstarts', h.2.symm⟩

theorem dispatchExact_catLine :
    DispatchExact zeroStack catLine ↔ ∃ c : Command, firstWord catLine = c.word :=
  dispatchExact_iff zeroStack (by decide)

/-- The line `helpme`. -/
def helpmeLine : CString := CString.ofList [0x68, 0x65, 0x6C, 0x70, 0x6D, 0x65] (by decide)

/-- The line `exec`. -/
def execLine : CString := CString.ofList [0x65, 0x78, 0x65, 0x63] (by decide)

/-- `helpme` runs the handler of `help`, and for `exec` no handler runs but 0 is returned. -/
theorem not_dispatchExact :
    (firstWord helpmeLine).length < 20 ∧ ¬ DispatchExact zeroStack helpmeLine ∧
    (firstWord execLine).length < 20 ∧ ¬ DispatchExact zeroStack execLine := by
  have hhelpme : cmdCall zeroStack helpmeLine = .ok ⟨some (.help, []), 0⟩ := rfl
  have hexec : cmdCall zeroStack execLine = .ok ⟨none, 0⟩ := rfl
  refine ⟨by decide, fun h ↦ ?_, by decide, fun h ↦ ?_⟩
  · obtain ⟨call, hok, hexact, -⟩ := h
    rw [hhelpme] at hok
    cases hok
    exact absurd ((hexact .help []).mp rfl).1 (by decide)
  · obtain ⟨call, hok, -, hother⟩ := h
    rw [hexec] at hok
    cases hok
    refine absurd (hother fun c ↦ ?_).2 (by decide)
    cases c <;> decide

end TenOs.Cpu
