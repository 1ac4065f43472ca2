import TenOs.Cpu.SavedFiles
import TenOs.Drivers.LineQueue

/-!
# `user/shell.c`: from the keyboard to the files

The shell in its loop, the kernel behind its system calls and the keyboard that interrupts both.  Key
presses come in any order with the steps of the shell.  `transcript` says what a list of typed lines
comes to; in every run the shell has carried out a first part of the lines typed so far, and the bytes
it has not read are the rest of them.
-/

namespace TenOs.User

open TenOs.Base TenOs.Lib TenOs.Fs TenOs.Drivers TenOs.Cpu

/-! ## System calls -/

def fmtTooLong : CString := literal "[KERNEL] String too long\n" (by decide +kernel)
def fmtExited : CString := literal "\n[KERNEL] Process exited with code: %d\n" (by decide +kernel)
def fmtHalted : CString := literal "[KERNEL] System halted.\n" (by decide +kernel)
def fmtRead : CString := literal "sys_read handler called\n" (by decide +kernel)
def moduleKernel : CString := literal "KERNEL" (by decide +kernel)

section Calls

variable (pr : Printer)

/-- `sys_print`. -/
def sysPrint (str : CString) (color : u8) : Console :=
  let color := if color = 0 then WHITE_ON_BLACK else color
  if 4096 ≤ str.len then pr.printk fmtTooLong []
  else pr.printkColor color fmtString [.str str]

/-- What `sys_exit` prints before it halts. -/
def sysExit (code : u32) : Console := pr.printk fmtExited [.int code] ++ pr.printk fmtHalted []

end Calls

/-! ## The shell -/

def bannerLines : List CString :=
  [literal "\n========================================\n" (by decide +kernel),
    literal "  TenOS Shell v0.2 (User Mode)\n" (by decide +kernel),
    literal "  Running in Ring 3!\n" (by decide +kernel),
    literal "  Type 'help' for commands\n" (by decide +kernel),
    literal "========================================\n\n" (by decide +kernel)]

def textPrompt : CString := literal "TenOS> " (by decide +kernel)
def textGoodbye : CString := literal "\nGoodbye!\n" (by decide +kernel)

/-- `strcmp_user` on the bytes before the NULs. -/
def strcmpUser : List u8 → List u8 → Int
  | [], [] => 0
  | [], d :: _ => -d.toNat
  | c :: _, [] => c.toNat
  | c :: s, d :: t => if c = d then strcmpUser s t else c.toNat - d.toNat

/-- `line[len] = '\0'`, and the newline at the end cut off. -/
def cutLine (buf : Bytes) (len : Nat) : Bytes :=
  let line := Function.update buf len 0
  if line (len - 1) = charNewline then Function.update line (len - 1) 0 else line

inductive Phase
  | prompting | reading | halted | faulted
  deriving DecidableEq

/-- The keyboard with the lines typed so far, the kernel's state, and what system calls have put on the
console. -/
structure System where
  session : LineSession
  fs : FsState Disk
  stack : Stack
  shown : Console
  phase : Phase

section Shell

variable (pr : Printer)

/-- The start of `shell_main`. -/
def banner : Console := bannerLines.flatMap fun l ↦ sysPrint pr l 0

/-- The prompt, and the start of `sys_read`. -/
def promptCalls : Console :=
  sysPrint pr textPrompt VGA_COLOR_GREEN ++ pr.printkCore .debug moduleKernel fmtRead []

/-- The rest of a turn of the loop once `read` has returned `len` bytes in `buf`.  `process_cmd` returns
0, so the branch for a negative result is never taken. -/
def runLine (s : System) (buf : Bytes) (len : Nat) : System :=
  if 0 < len then
    match asString 256 (cutLine buf len) with
    | .error _ => { s with phase := .faulted }
    | .ok line =>
        let p := skipSpaces (chars line)
        if p = [] then { s with phase := .prompting }
        else if strcmpUser p (ascii "exit") = 0 then
          { s with
            shown := s.shown ++ (sysPrint pr textGoodbye 0 ++ sysExit pr 0)
            phase := .halted }
        else
          match Commands.processCmd pr s.fs s.stack line true true with
          | .error _ => { s with phase := .faulted }
          | .ok r =>
              { s with
                fs := r.fs
                stack := r.stack
                shown := s.shown ++ r.console
                phase := .prompting }
  else { s with phase := .prompting }

/-- A key, the shell up to the wait in `keyboard_read`, and the shell from there to its next prompt;
`line` is the shell's array before the read. -/
inductive SystemEvent
  | key (data : u8)
  | prompt
  | line (buf : Bytes)

def System.step (s : System) : SystemEvent → System
  | .key data => { s with session := s.session.step (.key data) }
  | .prompt => { s with shown := s.shown ++ promptCalls pr, phase := .reading }
  | .line buf =>
      let r := s.session.kbd.keyboardRead buf 255
      runLine pr { s with session := s.session.step (.read buf 255) } r.2.1 r.2.2

/-- Enter comes when the line fits into the ring; the shell only goes on where it stands, and past its
wait when there is a complete line. -/
def SystemEvent.ok (s : System) : SystemEvent → Prop
  | .key data => data = 0x1C → s.session.kbd.Fits
  | .prompt => s.phase = .prompting
  | .line _ => s.phase = .reading ∧ s.session.kbd.hasCompleteLine = some true

def System.boot (fs : FsState Disk) (stack : Stack) : System :=
  { session := .boot, fs, stack, shown := banner pr, phase := .prompting }

end Shell

/-! ## What typed lines come to -/

structure Transcript where
  store : Store
  shown : Console
  halted : Bool

section Transcript

variable (pr : Printer)

def promptText : Console :=
  putAll VGA_COLOR_GREEN (ascii "TenOS> ") ++
    pr.logged .debug "KERNEL" "sys_read handler called\n"

def farewell : Console :=
  putAll WHITE_ON_BLACK (ascii "\nGoodbye!\n" ++ ascii "\n[KERNEL] Process exited with code: 0\n" ++
    ascii "[KERNEL] System halted.\n")

/-- A blank line does nothing, `exit` ends the session, and any other line is a command. -/
def answer (t : Transcript) (l : List u8) : Option Transcript :=
  if t.halted then some t
  else if skipSpaces l = [] then some { t with shown := t.shown ++ promptText pr }
  else if skipSpaces l = ascii "exit" then
    some { t with shown := t.shown ++ promptText pr ++ farewell, halted := true }
  else
    (Commands.storeCommand pr t.store (cstr l)).map fun r ↦
      { t with store := r.1, shown := t.shown ++ promptText pr ++ r.2 }

def transcript (st : Store) (lines : List (List u8)) : Option Transcript :=
  lines.foldlM (answer pr) ⟨st, [], false⟩

end Transcript

/-! ## What the shell prints -/

section Printed

variable (pr : Printer)

theorem sysPrint_literal {str : String} (h : 0 ∉ ascii str) (hlen : (ascii str).length < 4096)
    (color : u8) : sysPrint pr (literal str h) color =
      putAll (if color = 0 then WHITE_ON_BLACK else color) (ascii str) := by
  have hstr : (literal str h).len = (ascii str).length := rfl
  have htext (attr : u8) : pr.printkColor attr fmtString [.str (literal str h)] =
      putAll attr ([] ++ (literal str h).chars ++ []) :=
    pr.printkColor_string attr (chars_literal _ _) (by decide +kernel) (by decide +kernel) _
  rw [sysPrint, hstr, if_neg (Nat.not_le.mpr hlen), htext, chars_literal, List.nil_append,
    List.append_nil]

theorem promptCalls_eq : promptCalls pr = promptText pr := by
  rw [promptCalls, promptText, textPrompt, sysPrint_literal pr _ (by decide),
    if_neg (by decide : ¬ VGA_COLOR_GREEN = 0), moduleKernel, fmtRead,
    pr.printkCore_literal .debug (by decide) (by decide) (by decide) (by decide)]

theorem farewell_eq : sysPrint pr textGoodbye 0 ++ sysExit pr 0 = farewell := by
  have hexited : pr.printk fmtExited [.int 0] =
      putAll WHITE_ON_BLACK
        (ascii "\n[KERNEL] Process exited with code: " ++ shownInt 0 ++ ascii "\n") :=
    pr.printkColor_int WHITE_ON_BLACK (chars_literal _ _) (by decide +kernel) (by decide +kernel) 0
  have hhalted : pr.printk fmtHalted [] = putAll WHITE_ON_BLACK (ascii "[KERNEL] System halted.\n") :=
    Commands.printk_plain pr (by decide +kernel) (by decide +kernel)
  have hcode : ascii "\n[KERNEL] Process exited with code: " ++ shownInt 0 ++ ascii "\n" =
      ascii "\n[KERNEL] Process exited with code: 0\n" := by decide
  rw [sysExit, hexited, hhalted, hcode, farewell, textGoodbye, sysPrint_literal pr _ (by decide),
    if_pos rfl, ← putAll_append, ← putAll_append, List.append_assoc]

end Printed

/-! ## Comparing and cutting -/

theorem strcmpUser_eq_zero_iff {s t : List u8} (hs : ∀ c ∈ s, c ≠ 0) (ht : ∀ c ∈ t, c ≠ 0) :
    strcmpUser s t = 0 ↔ s = t := by
  have hpos {c : u8} (hc : c ≠ 0) : c.toNat ≠ 0 := fun hzero ↦ hc (BitVec.eq_of_toNat_eq hzero)
  induction s generalizing t with
  | nil =>
    cases t with
    | nil => exact iff_of_true rfl rfl
    | cons d t =>
      have hd := hpos (ht d List.mem_cons_self)
      rw [strcmpUser]
      exact iff_of_false (by omega) (by simp)
  | cons c s ih =>
    cases t with
    | nil =>
      have hc := hpos (hs c List.mem_cons_self)
      rw [strcmpUser]
      exact iff_of_false (by omega) (by simp)
    | cons d t =>
      rw [strcmpUser]
      split_ifs with heq
      · refine (ih (fun x hx ↦ hs x (List.mem_cons_of_mem c hx))
          (fun x hx ↦ ht x (List.mem_cons_of_mem d hx))).trans ?_
        rw [heq, List.cons.injEq, and_iff_right rfl]
      · have hne : c.toNat ≠ d.toNat := fun h ↦ heq (BitVec.eq_of_toNat_eq h)
        exact iff_of_false (by omega) (by simp [heq])

-- The bytes before the first zero are the string.
theorem asString_of_prefix {a : Bytes} {l : List u8} {size : Nat}
    (ha : ∀ i (h : i < l.length), a i = l[i]) (hzero : a l.length = 0) (hlen : l.length < size) (hne : ∀ c ∈ l, c ≠ 0) :
    ∃ str, asString size a = .ok str ∧ str.chars = l := by
  have hex : ∃ i, i < size ∧ a i = 0 := ⟨l.length, hlen, hzero⟩
  have hfind : Nat.find (⟨l.length, hzero⟩ : ∃ i, a i = 0) = l.length :=
    (Nat.find_eq_iff _).mpr ⟨hzero, fun i hi ↦ by
      rw [ha i hi]
      exact hne _ (List.getElem_mem hi)⟩
  refine ⟨_, dif_pos hex, ?_⟩
  refine List.ext_getElem (by simp [CString.chars, hfind]) fun i hi hi' ↦ ?_
  simp only [CString.chars, List.getElem_map, List.getElem_range]
  exact ha i hi'

-- A line that was read with its newline is cut back to the line that was typed.
theorem asString_cutLine {buf : Bytes} {l : List u8} (hlen : l.length ≤ 254) (hne : ∀ c ∈ l, c ≠ 0)
    (hbuf : (List.range (l.length + 1)).map buf = l ++ [charNewline]) :
    ∃ line, asString 256 (cutLine buf (l.length + 1)) = .ok line ∧ line.chars = l := by
  have hget (i : Nat) (hi : i < l.length + 1) : some (buf i) = (l ++ [charNewline])[i]? := by
    rw [← hbuf, List.getElem?_map, List.getElem?_range hi, Option.map_some]
  have hnewline : buf l.length = charNewline := by
    have hlast := hget l.length (Nat.lt_succ_self _)
    rwa [List.getElem?_append_right (Nat.le_refl _), Nat.sub_self, List.getElem?_cons_zero,
      Option.some.injEq] at hlast
  have hcut : cutLine buf (l.length + 1) =
      Function.update (Function.update buf (l.length + 1) 0) l.length 0 := by
    have hat : Function.update buf (l.length + 1) 0 l.length = charNewline := by
      rw [Function.update_of_ne (by omega), hnewline]
    rw [cutLine, Nat.add_sub_cancel]
    exact if_pos hat
  rw [hcut]
  refine asString_of_prefix (fun i hi ↦ ?_) (Function.update_self _ _ _) (by omega) hne
  have hi' := hget i (by omega)
  rw [List.getElem?_append_left hi, List.getElem?_eq_getElem hi, Option.some.injEq] at hi'
  rw [Function.update_of_ne (by omega), Function.update_of_ne (by omega), hi']

/-! ## The store sees the text of a line -/

theorem storeCommand_congr (pr : Printer) (st : Store) {line line' : CString}
    (h : line.chars = line'.chars) :
    Commands.storeCommand pr st line = Commands.storeCommand pr st line' := by
  have hchars : Cpu.chars line = Cpu.chars line' := h
  have hword : firstWord line = firstWord line' := by rw [firstWord, firstWord, hchars]
  have hargs : argsOf line = argsOf line' := by rw [argsOf, argsOf, hchars]
  rw [Commands.storeCommand, Commands.storeCommand, hword, hargs]

/-! ## Typed lines -/

theorem scancodeToAscii_ne_zero (scancode : u8) (shift capsLock : Bool) :
    scancodeToAscii scancode shift capsLock ≠ 0 := by
  revert scancode shift capsLock
  decide +kernel

theorem typeChar_no_zero {s : Keyboard} (h : 0 ∉ s.line) {c : u8} (hc : c ≠ 0) :
    0 ∉ (s.typeChar c).line := by
  have hempty (t : Keyboard) (ht : t.linePos = 0) : 0 ∉ t.line := by
    rw [Keyboard.line, ht]
    simp
  rw [Keyboard.typeChar]
  split_ifs
  · exact hempty _ rfl
  · have hline : Keyboard.line ({ s with linePos := s.linePos - 1 }.printk charBackspace) =
        s.line.dropLast := Keyboard.line_backspace rfl rfl
    rw [hline]
    exact fun hmem ↦ h ((List.dropLast_sublist _).subset hmem)
  · exact h
  · have hline : Keyboard.line ({ s with
        lineBuffer := Function.update s.lineBuffer s.linePos c
        linePos := s.linePos + 1 }.printk c) = s.line ++ [c] := Keyboard.line_append rfl rfl
    rw [hline, List.mem_append, List.mem_singleton]
    exact fun hmem ↦ hmem.elim h hc.symm
  · exact h
  · exact h

theorem keyboardCallback_no_zero {s : Keyboard} (h : 0 ∉ s.line) (data : u8) :
    0 ∉ (s.keyboardCallback data).line := by
  simp only [Keyboard.keyboardCallback]
  split_ifs
  · exact h
  · exact h
  · exact h
  · exact h
  · exact typeChar_no_zero h (scancodeToAscii_ne_zero _ _ _)
  · exact h

/-- The bytes of lines, each with its newline. -/
def lineBytes (lines : List (List u8)) : List u8 := (lines.map fun l ↦ l ++ [charNewline]).flatten

theorem lineBytes_append (lines lines' : List (List u8)) :
    lineBytes (lines ++ lines') = lineBytes lines ++ lineBytes lines' := by
  rw [lineBytes, lineBytes, lineBytes, List.map_append, List.flatten_append]

theorem lineBytes_cons (l : List u8) (lines : List (List u8)) :
    lineBytes (l :: lines) = l ++ charNewline :: lineBytes lines := by
  rw [lineBytes, lineBytes, List.map_cons, List.flatten_cons, List.append_assoc,
    List.singleton_append]

/-- A line that can be typed. -/
def Typed (l : List u8) : Prop := charNewline ∉ l ∧ (∀ c ∈ l, c ≠ 0) ∧ l.length ≤ 254

/-- What holds of the keyboard while every line fits into the ring. -/
structure Typing (s : LineSession) : Prop where
  valid : s.kbd.Valid
  bytes : s.returned ++ s.kbd.unread = lineBytes s.committed
  no_zero : 0 ∉ s.kbd.line
  committed : ∀ l ∈ s.committed, Typed l

theorem Typing.key {s : LineSession} (h : Typing s) {data : u8} (hfits : data = 0x1C → s.kbd.Fits) :
    Typing (s.step (.key data)) := by
  refine ⟨h.valid.keyboardCallback data, bytes_step h.valid h.bytes hfits,
    keyboardCallback_no_zero h.no_zero data, fun l hl ↦ ?_⟩
  by_cases hdata : data = 0x1C
  · -- Enter commits the line
    simp only [LineSession.step, if_pos hdata, List.mem_append, List.mem_singleton] at hl
    rcases hl with hold | rfl
    · exact h.committed l hold
    · have hroom := hfits hdata
      have hlen := s.kbd.line_length
      unfold Keyboard.Fits at hroom
      exact ⟨h.valid.no_newline, fun c hc hzero ↦ h.no_zero (hzero ▸ hc), by omega⟩
  · simp only [LineSession.step, if_neg hdata] at hl
    exact h.committed l hl

theorem Typing.read {s : LineSession} (h : Typing s) (hline : s.kbd.hasCompleteLine = some true)
    (buf : Bytes) : Typing (s.step (.read buf 255)) := by
  have hroomy : KeyEvent.roomy s (.read buf 255) := ⟨by decide, hline⟩
  refine ⟨valid_step h.valid hroomy.2, bytes_step h.valid h.bytes hroomy, ?_, h.committed⟩
  obtain ⟨chunk, htakes⟩ : ∃ chunk,
      Keyboard.Takes 255 0 s.kbd buf (s.kbd.keyboardRead buf 255) chunk :=
    Keyboard.readLoop_takes 255 h.valid.readPos_lt h.valid.writePos_lt
  obtain ⟨pos, -, hstate⟩ := htakes.state
  change 0 ∉ (s.kbd.keyboardRead buf 255).1.line
  rw [hstate]
  exact h.no_zero

-- A read stops at the first newline, and the first line is short enough to be read whole.
theorem chunk_eq_line {l rest chunk rest' : List u8} (h : l ++ charNewline :: rest = chunk ++ rest')
    (hl : charNewline ∉ l) (hlen : l.length ≤ 254)
    (hchunk : (∃ l', charNewline ∉ l' ∧ chunk = l' ++ [charNewline]) ∨
      charNewline ∉ chunk ∧ chunk.length = 255) : chunk = l ++ [charNewline] := by
  have hfront {x : List u8} (hx : charNewline ∉ x) (y : List u8) :
      (x ++ charNewline :: y).takeWhile (fun c ↦ decide (c ≠ charNewline)) = x := by
    have hall : ∀ c ∈ x, (decide (c ≠ charNewline)) = true := fun c hc ↦
      decide_eq_true fun heq ↦ hx (heq ▸ hc)
    rw [List.takeWhile_append_of_pos hall, List.takeWhile_cons_of_neg (by simp), List.append_nil]
  rcases hchunk with ⟨l', hl', rfl⟩ | ⟨hnone, hfull⟩
  · rw [List.append_assoc, List.singleton_append] at h
    rw [← hfront hl rest, h, hfront hl' rest']
  · have hat : (l ++ charNewline :: rest)[l.length]? = some charNewline := by
      rw [List.getElem?_append_right (Nat.le_refl _), Nat.sub_self, List.getElem?_cons_zero]
    rw [h, List.getElem?_append_left (by omega)] at hat
    exact absurd (List.mem_of_getElem? hat) hnone

/-- What the next read returns is the first line that was not read yet. -/
theorem Typing.next {s : LineSession} (h : Typing s) {n : Nat}
    (hread : s.returned = lineBytes (s.committed.take n)) :
    s.kbd.unread = lineBytes (s.committed.drop n) ∧
      (s.kbd.hasCompleteLine = some true ↔ n < s.committed.length) ∧
      ∀ buf, s.kbd.hasCompleteLine = some true → ∃ l, s.committed[n]? = some l ∧
        returnedBytes (s.kbd.keyboardRead buf 255) = l ++ [charNewline] := by
  have hunread : s.kbd.unread = lineBytes (s.committed.drop n) := by
    have hbytes := h.bytes
    rw [hread, ← List.take_append_drop n s.committed, lineBytes_append,
      List.take_append_drop] at hbytes
    exact List.append_cancel_left hbytes
  have hcomplete := Keyboard.hasCompleteLine_eq h.valid
  have hsplit (hlt : n < s.committed.length) :
      s.kbd.unread = s.committed[n] ++ charNewline :: lineBytes (s.committed.drop (n + 1)) := by
    rw [hunread, List.drop_eq_getElem_cons hlt, lineBytes_cons]
  have hiff : s.kbd.hasCompleteLine = some true ↔ n < s.committed.length := by
    rw [hcomplete, Option.some.injEq, decide_eq_true_iff]
    constructor
    · intro hmem
      by_contra hge
      rw [hunread, List.drop_eq_nil_of_le (Nat.le_of_not_lt hge)] at hmem
      exact absurd hmem (by decide)
    · intro hlt
      rw [hsplit hlt]
      exact List.mem_append_right _ List.mem_cons_self
  refine ⟨hunread, hiff, fun buf hline ↦ ?_⟩
  have hlt := hiff.mp hline
  obtain ⟨-, hparts, hstops, -⟩ := keyboardRead_chunk h.valid hline buf 255
  have htyped := h.committed _ (List.getElem_mem hlt)
  rw [hsplit hlt] at hparts
  exact ⟨s.committed[n], List.getElem?_eq_getElem hlt,
    chunk_eq_line hparts htyped.1 htyped.2.2 hstops⟩

/-! ## One turn of the shell -/

/-- Where the shell stands once it has taken up these lines. -/
inductive Stands (pr : Printer) (bpb : BPB) (st : Store) (lines : List (List u8)) (s : System) : Prop
  | prompting (out : Console) (phase : s.phase = .prompting)
      (taken : transcript pr st lines = some ⟨storeOf s.fs, out, false⟩)
      (shown : s.shown = banner pr ++ out) (wf : WellFormed bpb s.fs)
  | reading (out : Console) (phase : s.phase = .reading)
      (taken : transcript pr st lines = some ⟨storeOf s.fs, out, false⟩)
      (shown : s.shown = banner pr ++ out ++ promptText pr) (wf : WellFormed bpb s.fs)
  | halted (out : Console) (phase : s.phase = .halted)
      (taken : transcript pr st lines = some ⟨storeOf s.fs, out, true⟩)
      (shown : s.shown = banner pr ++ out) (wf : WellFormed bpb s.fs)
  | faulted (phase : s.phase = .faulted) (taken : transcript pr st lines = none)

theorem Stands.of_session {pr : Printer} {bpb : BPB} {st : Store} {lines : List (List u8)}
    {s : System} (h : Stands pr bpb st lines s) (session : LineSession) :
    Stands pr bpb st lines { s with session } := by
  cases h with
  | prompting out phase taken shown wf => exact .prompting out phase taken shown wf
  | reading out phase taken shown wf => exact .reading out phase taken shown wf
  | halted out phase taken shown wf => exact .halted out phase taken shown wf
  | faulted phase taken => exact .faulted phase taken

theorem Stands.of_prompting {pr : Printer} {bpb : BPB} {st : Store} {lines : List (List u8)}
    {s : System} (h : Stands pr bpb st lines s) (hphase : s.phase = .prompting) :
    ∃ out, transcript pr st lines = some ⟨storeOf s.fs, out, false⟩ ∧
      s.shown = banner pr ++ out ∧ WellFormed bpb s.fs := by
  cases h with
  | prompting out phase taken shown wf => exact ⟨out, taken, shown, wf⟩
  | reading out phase => cases hphase.symm.trans phase
  | halted out phase => cases hphase.symm.trans phase
  | faulted phase => cases hphase.symm.trans phase

theorem Stands.of_reading {pr : Printer} {bpb : BPB} {st : Store} {lines : List (List u8)}
    {s : System} (h : Stands pr bpb st lines s) (hphase : s.phase = .reading) :
    ∃ out, transcript pr st lines = some ⟨storeOf s.fs, out, false⟩ ∧
      s.shown = banner pr ++ out ++ promptText pr ∧ WellFormed bpb s.fs := by
  cases h with
  | prompting out phase => cases hphase.symm.trans phase
  | reading out phase taken shown wf => exact ⟨out, taken, shown, wf⟩
  | halted out phase => cases hphase.symm.trans phase
  | faulted phase => cases hphase.symm.trans phase

theorem transcript_concat (pr : Printer) (st : Store) (lines : List (List u8)) (l : List u8) :
    transcript pr st (lines ++ [l]) = (transcript pr st lines).bind fun t ↦ answer pr t l := by
  rw [transcript, List.foldlM_append]
  refine congrArg _ (funext fun t ↦ ?_)
  simp

-- A blank line, `exit`, a command that comes to its end, and one that does not.
theorem runLine_stands {pr : Printer} {bpb : BPB} (hspc : bpb.sectorsPerCluster = 1)
    (hfats : bpb.numFats = 2) {st : Store} {lines : List (List u8)} {s : System}
    (hs : Stands pr bpb st lines s) (hphase : s.phase = .reading) {l : List u8} (hl : Typed l)
    {buf : Bytes} (hbuf : (List.range (l.length + 1)).map buf = l ++ [charNewline])
    (session : LineSession) :
    Stands pr bpb st (lines ++ [l]) (runLine pr { s with session } buf (l.length + 1)) := by
  obtain ⟨out, htranscript, hshown, hwf⟩ := hs.of_reading hphase
  obtain ⟨line, hline, hchars⟩ := asString_cutLine hl.2.2 hl.2.1 hbuf
  have hnext : transcript pr st (lines ++ [l]) = answer pr ⟨storeOf s.fs, out, false⟩ l := by
    rw [transcript_concat, htranscript, Option.bind_some]
  have htext : Cpu.chars line = l := hchars
  rw [runLine, if_pos (Nat.succ_pos _), hline]
  dsimp only
  rw [htext]
  by_cases hblank : skipSpaces l = []
  · have hanswer : answer pr ⟨storeOf s.fs, out, false⟩ l =
        some ⟨storeOf s.fs, out ++ promptText pr, false⟩ := by
      rw [answer, if_neg Bool.false_ne_true, if_pos hblank]
    rw [if_pos hblank]
    exact .prompting _ rfl (hnext.trans hanswer) (by rw [← List.append_assoc]; exact hshown) hwf
  have hexit := strcmpUser_eq_zero_iff (s := skipSpaces l) (t := ascii "exit")
    (fun c hc ↦ hl.2.1 c (List.dropWhile_subset _ hc)) (by decide)
  rw [if_neg hblank]
  by_cases hgoodbye : skipSpaces l = ascii "exit"
  · have hanswer : answer pr ⟨storeOf s.fs, out, false⟩ l =
        some ⟨storeOf s.fs, out ++ promptText pr ++ farewell, true⟩ := by
      rw [answer, if_neg Bool.false_ne_true, if_neg hblank, if_pos hgoodbye]
    rw [if_pos (hexit.mpr hgoodbye)]
    refine .halted _ rfl (hnext.trans hanswer) ?_ hwf
    dsimp only
    rw [hshown, farewell_eq]
    simp only [List.append_assoc]
  · rw [if_neg (mt hexit.mp hgoodbye)]
    have hself : l.takeWhile (fun c ↦ decide (c ≠ 0)) = l := by
      rw [List.takeWhile_eq_self_iff]
      exact fun c hc ↦ decide_eq_true (hl.2.1 c hc)
    have hsame : line.chars = (cstr l).chars := by rw [hchars, chars_cstr, hself]
    have hanswer : answer pr ⟨storeOf s.fs, out, false⟩ l =
        (Commands.storeCommand pr (storeOf s.fs) line).map fun r ↦
          ⟨r.1, out ++ promptText pr ++ r.2, false⟩ := by
      rw [answer, if_neg Bool.false_ne_true, if_neg hblank, if_neg hgoodbye,
        storeCommand_congr pr _ hsame]
    have hagree := Commands.processCmd_agrees pr s.stack hwf hspc hfats line
    cases hstore : Commands.storeCommand pr (storeOf s.fs) line with
    | none =>
      rw [hstore] at hagree hanswer
      obtain ⟨e, herr⟩ := hagree
      rw [herr]
      exact .faulted rfl (hnext.trans hanswer)
    | some r =>
      rw [hstore] at hagree hanswer
      obtain ⟨t, hok, hwf', hst, hout⟩ := hagree
      rw [hok]
      refine .prompting (out ++ promptText pr ++ r.2) rfl ?_ ?_ hwf'
      · rw [hnext, hanswer, Option.map_some, hst]
      · dsimp only
        rw [hshown, hout]
        simp only [List.append_assoc]

/-! ## Every run -/

/-- The shell has taken up the first of the typed lines, and the bytes it has not read are the others. -/
structure Serves (pr : Printer) (bpb : BPB) (st : Store) (s : System) (n : Nat) : Prop where
  typing : Typing s.session
  le : n ≤ s.session.committed.length
  read : s.session.returned = lineBytes (s.session.committed.take n)
  stands : Stands pr bpb st (s.session.committed.take n) s

theorem Serves.step {pr : Printer} {bpb : BPB} (hspc : bpb.sectorsPerCluster = 1)
    (hfats : bpb.numFats = 2) {st : Store} {s : System} {n : Nat} (h : Serves pr bpb st s n)
    {event : SystemEvent} (hok : event.ok s) : ∃ n, Serves pr bpb st (s.step pr event) n := by
  cases event with
  | key data =>
    have htake : (s.session.step (.key data)).committed.take n = s.session.committed.take n := by
      by_cases hdata : data = 0x1C
      · simp only [LineSession.step, if_pos hdata]
        exact List.take_append_of_le_length h.le
      · simp only [LineSession.step, if_neg hdata]
    have hle : n ≤ (s.session.step (.key data)).committed.length := by
      by_cases hdata : data = 0x1C
      · simp only [LineSession.step, if_pos hdata, List.length_append]
        exact h.le.trans (Nat.le_add_right _ _)
      · simp only [LineSession.step, if_neg hdata]
        exact h.le
    refine ⟨n, h.typing.key hok, hle, ?_, ?_⟩
    · change s.session.returned = lineBytes ((s.session.step (.key data)).committed.take n)
      rw [htake, h.read]
    · have hstands := h.stands.of_session (s.session.step (.key data))
      rwa [← htake] at hstands
  | prompt =>
    have hphase : s.phase = .prompting := hok
    obtain ⟨out, htranscript, hshown, hwf⟩ := h.stands.of_prompting hphase
    refine ⟨n, h.typing, h.le, h.read, .reading out rfl htranscript ?_ hwf⟩
    change s.shown ++ promptCalls pr = _
    rw [hshown, promptCalls_eq]
  | line buf =>
    obtain ⟨hphase, hline⟩ := hok
    obtain ⟨-, hiff, hnext⟩ := h.typing.next h.read
    obtain ⟨l, hl, hbytes⟩ := hnext buf hline
    have hlt := hiff.mp hline
    have htake : s.session.committed.take (n + 1) = s.session.committed.take n ++ [l] := by
      rw [List.take_add_one, hl]
      rfl
    have hcount : (s.session.kbd.keyboardRead buf 255).2.2 = l.length + 1 := by
      have hlen := congrArg List.length hbytes
      simpa [returnedBytes] using hlen
    have hbuf : (List.range (l.length + 1)).map (s.session.kbd.keyboardRead buf 255).2.1 =
        l ++ [charNewline] := by
      rw [← hcount]
      exact hbytes
    have hsession (t : System) (b : Bytes) (len : Nat) : (runLine pr t b len).session = t.session := by
      unfold runLine
      split_ifs
      · cases asString 256 (cutLine b len) with
        | error e => rfl
        | ok line =>
          dsimp only
          split_ifs
          · rfl
          · rfl
          · cases Commands.processCmd pr t.fs t.stack line true true <;> rfl
      · rfl
    have htyped := h.typing.committed l (List.mem_of_getElem? hl)
    have hstands := runLine_stands hspc hfats h.stands hphase htyped hbuf
      (s.session.step (.read buf 255))
    have hstep : s.step pr (.line buf) = runLine pr
        { s with session := s.session.step (.read buf 255) }
        (s.session.kbd.keyboardRead buf 255).2.1 (l.length + 1) := by
      rw [← hcount]
      rfl
    rw [hstep]
    refine ⟨n + 1, ?_, ?_, ?_, ?_⟩
    · rw [hsession]
      exact h.typing.read hline buf
    · rw [hsession]
      exact hlt
    · rw [hsession]
      change s.session.returned ++ returnedBytes (s.session.kbd.keyboardRead buf 255) =
        lineBytes (s.session.committed.take (n + 1))
      rw [htake, lineBytes_append, h.read, hbytes]
      exact congrArg _ (by simp [lineBytes])
    · rw [hsession]
      change Stands pr bpb st (s.session.committed.take (n + 1)) _
      rw [htake]
      exact hstands

end TenOs.User
