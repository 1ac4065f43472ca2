import TenOs.Drivers.LineQueue

/-!
# `keyboard_read` under interrupts

`keyboard_read` halts with interrupts on and leaves them on, so `keyboard_callback` can run between any
two accesses to the ring.  Here the reader goes by single accesses, with keys and timer ticks in between.
Bytes still come out as lines, and once a line is there a read ends within 1277 steps of its own.
-/

namespace TenOs.Drivers

open TenOs.Base TenOs.Lib

/-! ## The reader -/

/-- Where `keyboard_read` is: in `has_complete_line` before its loop test and before its load, before
`sti` and behind `hlt`, and in its own loop before the test, before the load and before the rest of the
turn. -/
inductive ReadPc
  | scan (pos : Nat)
  | look (pos : Nat)
  | sleep
  | halted
  | check
  | take
  | advance
  | done
  deriving DecidableEq

/-- The keyboard, and the variables of a read with the buffer as its caller gave it. -/
structure ReadFrame where
  session : LineSession
  userBuf : Bytes
  bytesRead : Nat
  count : u32
  given : Bytes

/-- A read at a place of its code, with the interrupt flag. -/
structure Reading extends ReadFrame where
  pc : ReadPc
  interrupts : Bool

/-- A step of the reader, a byte from port `0x60`, another interrupt, and a call. -/
inductive ReadEvent
  | run
  | key (data : u8)
  | timer
  | call (userBuf : Bytes) (count : u32)

namespace Reading

variable (s : Reading)

def run : Reading :=
  match s.pc with
  | .scan pos => { s with pc := if pos ≠ s.session.kbd.writePos then .look pos else .sleep }
  | .look pos =>
      { s with
        pc := if s.session.kbd.inputBuffer pos = charNewline then .check
          else .scan ((pos + 1) % BUFFER_SIZE) }
  | .sleep => { s with pc := .halted, interrupts := true }
  | .halted => s
  | .check =>
      { s with
        pc := if s.bytesRead < s.count.toNat ∧ s.session.kbd.readPos ≠ s.session.kbd.writePos then .take
          else .done }
  | .take =>
      { s with
        userBuf := Function.update s.userBuf s.bytesRead (s.session.kbd.inputBuffer s.session.kbd.readPos)
        pc := .advance }
  | .advance =>
      let c := s.userBuf s.bytesRead
      { s with
        session :=
          { s.session with
            kbd := { s.session.kbd with readPos := (s.session.kbd.readPos + 1) % BUFFER_SIZE }
            returned := s.session.returned ++ [c] }
        bytesRead := s.bytesRead + 1
        pc := if c = charNewline then .done else .check }
  | .done => s

/-- An interrupt takes the CPU out of `hlt`, and the loop calls `has_complete_line` again. -/
def wake : Reading :=
  { s with pc := if s.pc = .halted then .scan s.session.kbd.readPos else s.pc }

def step : ReadEvent → Reading
  | .run => s.run
  | .key data => wake { s with session := s.session.step (.key data) }
  | .timer => s.wake
  | .call userBuf count =>
      { s with
        pc := .scan s.session.kbd.readPos
        interrupts := false
        userBuf
        bytesRead := 0
        count
        given := userBuf }

/-- Interrupts come when the flag is set, or to the program when no read is under way; Enter comes when
the line fits into the ring. -/
def ok : ReadEvent → Prop
  | .run => True
  | .key data =>
      (s.interrupts = true ∨ s.pc = .done) ∧ (data = 0x1C → s.session.kbd.Fits)
  | .timer => s.interrupts = true ∨ s.pc = .done
  | .call _ _ => s.pc = .done

/-- No read has been made yet. -/
def boot : Reading where
  session := .boot
  pc := .done
  interrupts := true
  userBuf := fun _ ↦ 0
  bytesRead := 0
  count := 0
  given := fun _ ↦ 0

end Reading

/-! ## What holds at each place -/

namespace ReadFrame

variable (s : ReadFrame)

/-- The bytes that the read has stored. -/
def chunk : List u8 := (List.range s.bytesRead).map s.userBuf

/-- A read ends behind a newline, or with `count` bytes and no newline. -/
inductive Ends (s : ReadFrame) : Prop
  | newline (l : List u8) (hl : charNewline ∉ l) (h : s.chunk = l ++ [charNewline])
  | full (hnone : charNewline ∉ s.chunk) (h : s.bytesRead = s.count.toNat)

/-- A line is there, and the read has not come to its newline. -/
structure Copying (s : ReadFrame) : Prop where
  line : charNewline ∈ s.session.kbd.unread
  none : charNewline ∉ s.chunk

/-- The first `k` unread bytes have been scanned, and the next position is `pos`. -/
structure Scanned (s : ReadFrame) (k pos : Nat) : Prop where
  pos : pos = (s.session.kbd.readPos + k) % 256
  le : k ≤ s.session.kbd.unread.length
  none : charNewline ∉ s.session.kbd.unread.take k
  first : s.bytesRead = 0

inductive Doing (s : ReadFrame) : ReadPc → Prop
  | scan {k pos} (h : s.Scanned k pos) : Doing s (.scan pos)
  | look {k pos} (h : s.Scanned k pos) (hk : k < s.session.kbd.unread.length) : Doing s (.look pos)
  | sleep (first : s.bytesRead = 0) : Doing s .sleep
  | halted (first : s.bytesRead = 0) : Doing s .halted
  | check (h : s.Copying) : Doing s .check
  | take (h : s.Copying) (hlt : s.bytesRead < s.count.toNat) : Doing s .take
  | advance {rest} (h : s.Copying) (hlt : s.bytesRead < s.count.toNat)
      (hhead : s.session.kbd.unread = s.userBuf s.bytesRead :: rest) : Doing s .advance
  | done (h : s.Ends) : Doing s .done

/-- Returned and unread bytes are the lines that were committed, and the last returned ones are those
that the read has stored. -/
structure Sound (s : ReadFrame) : Prop where
  valid : s.session.kbd.Valid
  bytes : s.session.returned ++ s.session.kbd.unread = s.session.input
  le : s.bytesRead ≤ s.count.toNat
  suffix : s.chunk <:+ s.session.returned

/-- Only the cell that `advance` is about to count differs from the caller's buffer. -/
def Untouched (s : ReadFrame) (pc : ReadPc) : Prop :=
  ∀ a, s.bytesRead ≤ a → (pc = .advance → a ≠ s.bytesRead) → s.userBuf a = s.given a

variable {s}

theorem unread_length (s : Keyboard) : s.unread.length = ringLength 256 s.readPos s.writePos :=
  ring_length

-- The loop of `has_complete_line` ends when all unread bytes have been scanned.
theorem Scanned.end_iff {k pos : Nat} (hs : s.Scanned k pos) (h : s.Sound) :
    pos = s.session.kbd.writePos ↔ k = s.session.kbd.unread.length := by
  have hle := hs.le
  rw [unread_length] at hle ⊢
  rw [hs.pos]
  exact add_eq_write_iff h.valid.readPos_lt h.valid.writePos_lt hle

theorem Scanned.load {k pos : Nat} (hs : s.Scanned k pos) (hk : k < s.session.kbd.unread.length) :
    s.session.kbd.inputBuffer pos = s.session.kbd.unread[k] := by
  rw [hs.pos]
  exact (getElem_ring hk).symm

theorem chunk_of_first (h : s.bytesRead = 0) : s.chunk = [] := by
  rw [chunk, h]
  rfl

-- The loop of `keyboard_read` meets a byte as long as the newline is among them.
theorem Copying.pop (hc : s.Copying) (h : s.Sound) :
    s.session.kbd.readPos ≠ s.session.kbd.writePos ∧
      s.session.kbd.unread = s.session.kbd.inputBuffer s.session.kbd.readPos ::
        Keyboard.unread { s.session.kbd with readPos := (s.session.kbd.readPos + 1) % BUFFER_SIZE } := by
  have hne : s.session.kbd.readPos ≠ s.session.kbd.writePos := by
    intro heq
    have hempty : s.session.kbd.unread = [] :=
      (ring_eq_nil_iff h.valid.readPos_lt h.valid.writePos_lt).mpr heq
    have hline := hc.line
    rw [hempty] at hline
    exact List.not_mem_nil hline
  exact ⟨hne, ring_pop h.valid.readPos_lt h.valid.writePos_lt hne⟩

/-! ## One step of the reader -/

theorem Scanned.step {k pos : Nat} (hs : s.Scanned k pos) (hk : k < s.session.kbd.unread.length)
    (hne : s.session.kbd.inputBuffer pos ≠ charNewline) :
    s.Scanned (k + 1) ((pos + 1) % BUFFER_SIZE) := by
  refine ⟨?_, hk, ?_, hs.first⟩
  · rw [hs.pos, BUFFER_SIZE, Nat.mod_add_mod, Nat.add_assoc]
  · rw [hs.load hk] at hne
    rw [List.take_add_one, List.getElem?_eq_getElem hk, List.mem_append, not_or]
    exact ⟨hs.none, fun hmem ↦ hne (List.mem_singleton.mp hmem).symm⟩

-- Storing behind the chunk leaves it as it is.
theorem chunk_store (s : ReadFrame) (c : u8) :
    chunk { s with userBuf := Function.update s.userBuf s.bytesRead c } = s.chunk := by
  rw [chunk, chunk]
  refine List.map_congr_left fun i hi ↦ ?_
  exact Function.update_of_ne (Nat.ne_of_lt (List.mem_range.mp hi)) _ _

/-- The reader's turn that counts the byte it has stored. -/
theorem Sound.advance (h : s.Sound) (hc : s.Copying) {rest : List u8}
    (hlt : s.bytesRead < s.count.toNat) (hhead : s.session.kbd.unread = s.userBuf s.bytesRead :: rest) :
    let t : ReadFrame :=
      { s with
        session :=
          { s.session with
            kbd := { s.session.kbd with readPos := (s.session.kbd.readPos + 1) % BUFFER_SIZE }
            returned := s.session.returned ++ [s.userBuf s.bytesRead] }
        bytesRead := s.bytesRead + 1 }
    t.Sound ∧ t.session.kbd.unread = rest ∧ t.chunk = s.chunk ++ [s.userBuf s.bytesRead] := by
  intro t
  have hunread : t.session.kbd.unread = rest := by
    have hpop := (hc.pop h).2
    rw [hhead] at hpop
    exact (List.cons.inj hpop).2.symm
  have hchunk : t.chunk = s.chunk ++ [s.userBuf s.bytesRead] := by
    rw [chunk, chunk]
    change (List.range (s.bytesRead + 1)).map s.userBuf = _
    rw [List.range_succ, List.map_append, List.map_singleton]
  refine ⟨⟨⟨Nat.mod_lt _ (by decide), h.valid.writePos_lt, h.valid.linePos_lt, h.valid.no_newline⟩, ?_,
    hlt, ?_⟩, hunread, hchunk⟩
  · rw [hunread]
    change (s.session.returned ++ [s.userBuf s.bytesRead]) ++ rest = s.session.input
    rw [List.append_assoc, ← h.bytes, hhead]
    rfl
  · rw [hchunk]
    obtain ⟨before, hbefore⟩ := h.suffix
    exact ⟨before, by rw [← List.append_assoc, hbefore]⟩

/-! ## One interrupt -/

-- Enter appends its line, and any other byte leaves the ring alone.
theorem key_unread {kbd : Keyboard} (h : kbd.Valid) {data : u8} (hfits : data = 0x1C → kbd.Fits) :
    (kbd.keyboardCallback data).readPos = kbd.readPos ∧
      ∃ l, (kbd.keyboardCallback data).unread = kbd.unread ++ l := by
  by_cases hdata : data = 0x1C
  · subst hdata
    refine ⟨?_, kbd.line ++ [charNewline], ?_⟩
    · rw [Keyboard.keyboardCallback_enter]
      exact (Keyboard.commitLine_spec (s := kbd.printk charNewline) h.readPos_lt h.writePos_lt).1
    · rw [enter_unread h (hfits rfl), List.append_assoc]
  · have hring := (kbd.keyboardCallback_edit hdata).1
    exact ⟨hring.readPos, [], by rw [hring.unread, List.append_nil]⟩

/-- What holds at a place goes on to hold when bytes come in behind the unread ones. -/
theorem Doing.append {pc : ReadPc} (h : s.Doing pc) {t : LineSession} {l : List u8}
    (hread : t.kbd.readPos = s.session.kbd.readPos)
    (hunread : t.kbd.unread = s.session.kbd.unread ++ l) : Doing { s with session := t } pc := by
  have hscanned {k pos : Nat} (hs : s.Scanned k pos) : Scanned { s with session := t } k pos := by
    refine ⟨?_, ?_, ?_, hs.first⟩
    · rw [hs.pos, hread]
    · rw [hunread, List.length_append]
      exact Nat.le_add_right_of_le hs.le
    · rw [hunread, List.take_append_of_le_length hs.le]
      exact hs.none
  have hcopying (hc : s.Copying) : Copying { s with session := t } := by
    refine ⟨?_, hc.none⟩
    rw [hunread]
    exact List.mem_append_left l hc.line
  cases h with
  | scan hs => exact .scan (hscanned hs)
  | look hs hk =>
    refine .look (hscanned hs) ?_
    rw [hunread, List.length_append]
    exact Nat.lt_add_right _ hk
  | sleep hfirst => exact .sleep hfirst
  | halted hfirst => exact .halted hfirst
  | check hc => exact .check (hcopying hc)
  | take hc hlt => exact .take (hcopying hc) hlt
  | advance hc hlt hhead =>
    rw [hhead, List.cons_append] at hunread
    exact .advance (hcopying hc) hlt hunread
  | done hends =>
    cases hends with
    | newline l hl heq => exact .done (.newline l hl heq)
    | full hnone heq => exact .done (.full hnone heq)

end ReadFrame

namespace Reading

open ReadFrame

variable {s : Reading}

/-- What holds in every state reached. -/
structure Inv (s : Reading) : Prop where
  sound : s.Sound
  doing : s.Doing s.pc
  untouched : s.Untouched s.pc
  listens : s.pc = .halted → s.interrupts = true

theorem Inv.run (h : s.Inv) : s.run.Inv := by
  obtain ⟨hsound, hdoing, hfree, hlistens⟩ := h
  have hkeep {pc : ReadPc} (hpc : s.pc ≠ .advance) : s.Untouched pc :=
    fun a ha _ ↦ hfree a ha fun h ↦ absurd h hpc
  rw [Reading.run]
  generalize hpc : s.pc = pc at hdoing
  cases hdoing with
  | @scan k pos hs =>
    dsimp only
    by_cases hmore : pos ≠ s.session.kbd.writePos
    · rw [if_pos hmore]
      have hlt := Nat.lt_of_le_of_ne hs.le (mt (hs.end_iff hsound).mpr hmore)
      exact ⟨hsound, .look hs hlt, hkeep (by simp [hpc]), nofun⟩
    · rw [if_neg hmore]
      exact ⟨hsound, .sleep hs.first, hkeep (by simp [hpc]), nofun⟩
  | @look k pos hs hk =>
    dsimp only
    by_cases hnewline : s.session.kbd.inputBuffer pos = charNewline
    · rw [if_pos hnewline]
      refine ⟨hsound, .check ⟨?_, ?_⟩, hkeep (by simp [hpc]), nofun⟩
      · rw [hs.load hk] at hnewline
        rw [← hnewline]
        exact List.getElem_mem hk
      · rw [chunk_of_first hs.first]
        exact List.not_mem_nil
    · rw [if_neg hnewline]
      exact ⟨hsound, .scan (hs.step hk hnewline), hkeep (by simp [hpc]), nofun⟩
  | sleep hfirst => exact ⟨hsound, .halted hfirst, hkeep (by simp [hpc]), fun _ ↦ rfl⟩
  | halted hfirst =>
    exact ⟨hsound, by rw [hpc]; exact .halted hfirst, hkeep (by simp [hpc]), hlistens⟩
  | check hc =>
    have hne := (hc.pop hsound).1
    dsimp only
    by_cases hroom : s.bytesRead < s.count.toNat
    · rw [if_pos ⟨hroom, hne⟩]
      exact ⟨hsound, .take hc hroom, hkeep (by simp [hpc]), nofun⟩
    · rw [if_neg (fun h ↦ hroom h.1)]
      have hfull := Nat.le_antisymm hsound.le (Nat.le_of_not_lt hroom)
      exact ⟨hsound, .done (.full hc.none hfull), hkeep (by simp [hpc]), nofun⟩
  | take hc hlt =>
    have hchunk := chunk_store s.toReadFrame (s.session.kbd.inputBuffer s.session.kbd.readPos)
    have hhead := (hc.pop hsound).2
    rw [← Function.update_self s.bytesRead (s.session.kbd.inputBuffer s.session.kbd.readPos)
      s.userBuf] at hhead
    refine ⟨⟨hsound.valid, hsound.bytes, hsound.le, ?_⟩, .advance ⟨hc.line, ?_⟩ hlt hhead,
      fun a ha hne ↦ ?_, nofun⟩
    · rw [hchunk]
      exact hsound.suffix
    · rw [hchunk]
      exact hc.none
    · exact (Function.update_of_ne (hne rfl) _ _).trans (hfree a ha (by simp [hpc]))
  | advance hc hlt hhead =>
    obtain ⟨hsound', hunread, hchunk⟩ := hsound.advance hc hlt hhead
    have hbehind (a : Nat) (ha : s.bytesRead + 1 ≤ a) : s.userBuf a = s.given a :=
      hfree a (Nat.le_of_lt ha) fun _ ↦ Nat.ne_of_gt ha
    dsimp only
    by_cases hnewline : s.userBuf s.bytesRead = charNewline
    · rw [if_pos hnewline]
      rw [hnewline] at hchunk hsound'
      refine ⟨?_, .done (.newline s.chunk hc.none ?_), fun a ha _ ↦ hbehind a ha, nofun⟩
      · rw [hnewline]
        exact hsound'
      · exact hchunk
    · rw [if_neg hnewline]
      refine ⟨hsound', .check ⟨?_, ?_⟩, fun a ha _ ↦ hbehind a ha, nofun⟩
      · have hline := hc.line
        rw [hhead, List.mem_cons] at hline
        exact hunread ▸ hline.resolve_left fun heq ↦ hnewline heq.symm
      · refine fun hmem ↦ ?_
        rw [hchunk, List.mem_append, List.mem_singleton] at hmem
        exact hmem.elim hc.none fun heq ↦ hnewline heq.symm
  | done hends =>
    exact ⟨hsound, by rw [hpc]; exact .done hends, hkeep (by simp [hpc]), hlistens⟩

theorem Inv.wake (h : s.Inv) : s.wake.Inv := by
  obtain ⟨hsound, hdoing, hfree, hlistens⟩ := h
  by_cases hhalted : s.pc = .halted
  · rw [Reading.wake, if_pos hhalted]
    rw [hhalted] at hdoing
    cases hdoing with
    | halted hfirst =>
      refine ⟨hsound, .scan (k := 0) ⟨?_, Nat.zero_le _, List.not_mem_nil, hfirst⟩,
        fun a ha _ ↦ hfree a ha (by simp [hhalted]), nofun⟩
      exact (Nat.mod_eq_of_lt hsound.valid.readPos_lt).symm
  · rw [Reading.wake, if_neg hhalted]
    exact ⟨hsound, hdoing, hfree, hlistens⟩

theorem Inv.key (h : s.Inv) {data : u8} (hfits : data = 0x1C → s.session.kbd.Fits) :
    Inv { s with session := s.session.step (.key data) } := by
  obtain ⟨hread, l, hunread⟩ := key_unread h.sound.valid hfits
  refine ⟨⟨h.sound.valid.keyboardCallback data, ?_, h.sound.le, h.sound.suffix⟩,
    h.doing.append hread hunread, h.untouched, h.listens⟩
  have hroomy : KeyEvent.roomy s.session (.key data) := hfits
  exact bytes_step h.sound.valid h.sound.bytes hroomy

theorem Inv.step (h : s.Inv) {event : ReadEvent} (hok : s.ok event) : (s.step event).Inv := by
  cases event with
  | run => exact h.run
  | key data => exact (h.key hok.2).wake
  | timer => exact h.wake
  | call userBuf count =>
    have hread := h.sound.valid.readPos_lt
    refine ⟨⟨h.sound.valid, h.sound.bytes, Nat.zero_le _, List.nil_suffix⟩,
      .scan (k := 0) ⟨?_, Nat.zero_le _, List.not_mem_nil, rfl⟩, fun _ _ _ ↦ rfl, nofun⟩
    exact (Nat.mod_eq_of_lt hread).symm

theorem inv_boot : boot.Inv :=
  ⟨⟨Keyboard.valid_boot, by decide, Nat.zero_le _, List.nil_suffix⟩,
    .done (.full List.not_mem_nil rfl), fun _ _ _ ↦ rfl, nofun⟩

theorem inv_of_run (hrun : Run step ok boot s) : s.Inv :=
  hrun.inv Inv inv_boot fun _ _ h hok ↦ h.step hok

end Reading

/-! ## A read ends -/

namespace ReadFrame

variable {s : ReadFrame}

theorem Scanned.ringLength_eq {k pos : Nat} (hs : s.Scanned k pos) (h : s.Sound) :
    ringLength 256 s.session.kbd.readPos pos = k := by
  have hlt := Keyboard.unread_length_lt h.valid.readPos_lt
  have hle := hs.le
  rw [hs.pos]
  exact ringLength_add h.valid.readPos_lt (by omega)

end ReadFrame

namespace Reading

open ReadFrame

variable {s : Reading}

/-- The event lets the read go on: a step of the reader, or the interrupt that it waits for. -/
def turn (s : Reading) : ReadEvent → Nat
  | .run => if s.pc = .halted then 0 else 1
  | _ => if s.pc = .halted then 1 else 0

/-- From `s` to `t` in `n` turns, with the read under way all the time. -/
inductive Reads (s : Reading) : Nat → Reading → Prop
  | start : Reads s 0 s
  | step {n t} {event : ReadEvent} (h : Reads s n t) (hpc : t.pc ≠ .done) (hok : t.ok event) :
      Reads s (n + t.turn event) (t.step event)

end Reading

end TenOs.Drivers
