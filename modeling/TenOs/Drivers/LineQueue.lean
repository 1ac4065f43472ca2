import TenOs.Drivers.Keyboard

/-!
# The keyboard ring as a queue of lines

Key presses and completed reads in any order.  While a line that is committed fits into the ring,
what was read and what is not read yet are the committed lines.  The ring holds 255 bytes and a line
can have as many before its newline, so not every line fits.
-/

namespace TenOs.Drivers

open TenOs.Base TenOs.Lib

/-- A byte read from port `0x60`, or a call of `keyboard_read`. -/
inductive KeyEvent
  | key (data : u8)
  | read (userBuf : Bytes) (count : u32)

/-- The keyboard with the bytes that reads returned and the lines that Enter committed. -/
structure LineSession where
  kbd : Keyboard
  returned : List u8
  committed : List (List u8)

/-- The bytes that a read returns. -/
def returnedBytes (r : Keyboard × Bytes × Nat) : List u8 := (List.range r.2.2).map r.2.1

def LineSession.step (s : LineSession) : KeyEvent → LineSession
  | .key data =>
      { s with
        kbd := s.kbd.keyboardCallback data
        committed := if data = 0x1C then s.committed ++ [s.kbd.line] else s.committed }
  | .read userBuf count =>
      let r := s.kbd.keyboardRead userBuf count
      { s with
        kbd := r.1
        returned := s.returned ++ returnedBytes r }

def LineSession.boot : LineSession := ⟨Keyboard.boot, [], []⟩

/-- A read gets past its wait. -/
def KeyEvent.completed (s : LineSession) : KeyEvent → Prop
  | .key _ => True
  | .read _ _ => s.kbd.hasCompleteLine = some true

/-- The line, its newline and the bytes not read yet fit into the ring. -/
def Keyboard.Fits (s : Keyboard) : Prop := s.unread.length + s.linePos + 1 ≤ 255

/-- Enter comes when the line fits. -/
def KeyEvent.roomy (s : LineSession) : KeyEvent → Prop
  | .key data => data = 0x1C → s.kbd.Fits
  | .read _ count => 0 < count ∧ s.kbd.hasCompleteLine = some true

/-! ## One event -/

theorem enter_unread {s : Keyboard} (h : s.Valid) (hfits : s.Fits) :
    (s.keyboardCallback 0x1C).unread = s.unread ++ s.line ++ [charNewline] := by
  rw [Keyboard.keyboardCallback_enter]
  have hcommit :=
    (Keyboard.commitLine_spec (s := s.printk charNewline) h.readPos_lt h.writePos_lt).2.2.2
  unfold Keyboard.Fits at hfits
  exact hcommit (by change s.unread.length + s.linePos + 1 < 256; omega)

-- A complete line rules out that the read stops at the end of the ring.
theorem keyboardRead_chunk {s : Keyboard} (h : s.Valid) (hline : s.hasCompleteLine = some true)
    (userBuf : Bytes) (count : u32) :
    (s.keyboardRead userBuf count).1.Valid ∧
      s.unread = returnedBytes (s.keyboardRead userBuf count) ++ (s.keyboardRead userBuf count).1.unread ∧
      ((∃ l, charNewline ∉ l ∧ returnedBytes (s.keyboardRead userBuf count) = l ++ [charNewline]) ∨
        charNewline ∉ returnedBytes (s.keyboardRead userBuf count) ∧
          (returnedBytes (s.keyboardRead userBuf count)).length = count.toNat) ∧
      (returnedBytes (s.keyboardRead userBuf count)).length ≤ count.toNat := by
  obtain ⟨chunk, htakes⟩ : ∃ chunk,
      Keyboard.Takes count.toNat 0 s userBuf (s.keyboardRead userBuf count) chunk :=
    Keyboard.readLoop_takes count.toNat h.readPos_lt h.writePos_lt
  have hbytes : returnedBytes (s.keyboardRead userBuf count) = chunk := by
    have hcount := htakes.count
    rw [Nat.zero_add] at hcount
    apply List.ext_getElem
    · rw [returnedBytes, List.length_map, List.length_range, hcount]
    · intro i hi hi'
      have hstored := htakes.stored i hi'
      rw [Nat.zero_add] at hstored
      simp only [returnedBytes, List.getElem_map, List.getElem_range]
      exact hstored
  obtain ⟨pos, hpos, hstate⟩ := htakes.state
  rw [hbytes]
  refine ⟨?_, htakes.unread, ?_, htakes.le⟩
  · rw [hstate]
    exact ⟨hpos, h.writePos_lt, h.linePos_lt, h.no_newline⟩
  · cases htakes.stops with
    | newline l hl heq => exact Or.inl ⟨l, hl, heq⟩
    | full hnone heq => exact Or.inr ⟨hnone, heq⟩
    | empty hnone heq =>
      have hmem := hline
      rw [Keyboard.hasCompleteLine_eq h, Option.some.injEq, decide_eq_true_iff, htakes.unread, heq,
        List.append_nil] at hmem
      exact absurd hmem hnone

theorem valid_step {s : LineSession} (h : s.kbd.Valid) {event : KeyEvent} (hdone : event.completed s) :
    (s.step event).kbd.Valid := by
  cases event with
  | key data => exact h.keyboardCallback data
  | read userBuf count => exact (keyboardRead_chunk h hdone userBuf count).1

theorem valid_of_run {s : LineSession}
    (hrun : Run LineSession.step (fun s event ↦ KeyEvent.completed s event) .boot s) : s.kbd.Valid :=
  hrun.inv (fun s ↦ s.kbd.Valid) Keyboard.valid_boot fun _ _ h hdone ↦ valid_step h hdone

/-! ## The queue -/

/-- The committed lines, each with its newline. -/
def LineSession.input (s : LineSession) : List u8 :=
  (s.committed.map fun l ↦ l ++ [charNewline]).flatten

/-- The bytes returned so far and those not read yet are the committed lines, and the next read takes
the rest of a line or `count` bytes of it. -/
structure IsQueue (s : LineSession) : Prop where
  bytes : s.returned ++ s.kbd.unread = s.input
  complete_iff : s.kbd.hasCompleteLine = some (decide (charNewline ∈ s.kbd.unread))
  chunk : ∀ userBuf (count : u32), 0 < count → s.kbd.hasCompleteLine = some true →
    (∃ l, charNewline ∉ l ∧ returnedBytes (s.kbd.keyboardRead userBuf count) = l ++ [charNewline]) ∨
      charNewline ∉ returnedBytes (s.kbd.keyboardRead userBuf count) ∧
        (returnedBytes (s.kbd.keyboardRead userBuf count)).length = count.toNat

theorem input_step_enter (s : LineSession) :
    (s.step (.key 0x1C)).input = s.input ++ (s.kbd.line ++ [charNewline]) := by
  simp [LineSession.input, LineSession.step]

-- What is returned and what is unread make up the input, before and after every event.
theorem bytes_step {s : LineSession} (h : s.kbd.Valid) (hbytes : s.returned ++ s.kbd.unread = s.input)
    {event : KeyEvent} (hroomy : event.roomy s) :
    (s.step event).returned ++ (s.step event).kbd.unread = (s.step event).input := by
  cases event with
  | key data =>
    by_cases hdata : data = 0x1C
    · subst hdata
      rw [input_step_enter, ← hbytes]
      change s.returned ++ (s.kbd.keyboardCallback 0x1C).unread = _
      rw [enter_unread h (hroomy rfl)]
      simp only [List.append_assoc]
    · have hring := (s.kbd.keyboardCallback_edit hdata).1
      have hsame : (s.step (.key data)).input = s.input := by
        simp only [LineSession.input, LineSession.step, if_neg hdata]
      rw [hsame, ← hbytes]
      exact congrArg (s.returned ++ ·) hring.unread
  | read userBuf count =>
    have hchunk := (keyboardRead_chunk h hroomy.2 userBuf count).2.1
    change (s.returned ++ returnedBytes (s.kbd.keyboardRead userBuf count)) ++
      (s.kbd.keyboardRead userBuf count).1.unread = s.input
    rw [List.append_assoc, ← hchunk, hbytes]

/-- While every line that Enter commits fits into the ring, the keyboard is a queue of lines. -/
theorem isQueue_of_run {s : LineSession}
    (hrun : Run LineSession.step (fun s event ↦ KeyEvent.roomy s event) .boot s) : IsQueue s := by
  have hinv := hrun.inv (fun s ↦ s.kbd.Valid ∧ s.returned ++ s.kbd.unread = s.input)
    ⟨Keyboard.valid_boot, by decide⟩ fun s event h hroomy ↦
      ⟨valid_step h.1 ?_, bytes_step h.1 h.2 hroomy⟩
  · exact ⟨hinv.2, Keyboard.hasCompleteLine_eq hinv.1,
      fun userBuf count _ hline ↦ (keyboardRead_chunk hinv.1 hline userBuf count).2.2.1⟩
  · cases event with
    | key data => trivial
    | read userBuf count => exact hroomy.2

/-- The letter `a` and Enter, and a read of one byte. -/
theorem isQueue_letter : IsQueue (((LineSession.boot.step (.key 0x1E)).step (.key 0x1C)).step
    (.read (fun _ ↦ 0) 1)) := by
  refine isQueue_of_run (.step (.step (.step .start ?_) ?_) ⟨by decide, ?_⟩)
  · exact fun h ↦ absurd h (by decide)
  · intro _
    unfold Keyboard.Fits
    decide +kernel
  · decide +kernel

/-! ## Lost input -/

/-- Enter adds the line and its newline to the unread bytes and keeps those that are there; on an
empty ring the line can be read back. -/
structure EnterKept (s : Keyboard) : Prop where
  grows : (s.keyboardCallback 0x1C).unread.length = s.unread.length + s.linePos + 1
  keeps : s.unread <+: (s.keyboardCallback 0x1C).unread
  readBack : s.unread = [] → (s.keyboardCallback 0x1C).unread = s.line ++ [charNewline]

theorem EnterKept.fits {s : Keyboard} (h : EnterKept s) (hvalid : s.Valid) : s.Fits := by
  have hlt := Keyboard.unread_length_lt (hvalid.keyboardCallback 0x1C).readPos_lt
  have hgrows := h.grows
  unfold Keyboard.Fits
  omega

/-- In every state that key presses and reads lead to, Enter loses nothing exactly when the line fits
into the ring. -/
theorem enterKept_iff {s : LineSession}
    (hrun : Run LineSession.step (fun s event ↦ KeyEvent.completed s event) .boot s) :
    EnterKept s.kbd ↔ s.kbd.Fits := by
  have hvalid := valid_of_run hrun
  refine ⟨fun h ↦ h.fits hvalid, fun hfits ↦ ?_⟩
  have hunread := enter_unread hvalid hfits
  refine ⟨?_, ?_, fun hempty ↦ ?_⟩
  · rw [hunread, List.length_append, List.length_append, Keyboard.line_length]
    rfl
  · rw [hunread, List.append_assoc]
    exact List.prefix_append _ _
  · rw [hunread, hempty, List.nil_append]

/-- The letter `a`, and Enter. -/
theorem enterKept_letter : EnterKept (LineSession.boot.step (.key 0x1E)).kbd ↔
    (LineSession.boot.step (.key 0x1E)).kbd.Fits := enterKept_iff (.step .start trivial)

-- Pressing `a` adds to the line as long as there is room in `line_buffer`.
theorem typed_run (k : Nat) (hk : k ≤ 255) :
    ∃ s, Run LineSession.step (fun s event ↦ KeyEvent.completed s event) .boot s ∧
      s.kbd.linePos = k ∧ s.kbd.shiftPressed = false ∧ s.kbd.capsLock = false := by
  induction k with
  | zero => exact ⟨_, .start, rfl, rfl, rfl⟩
  | succ k ih =>
    obtain ⟨s, hrun, hpos, hshift, hcaps⟩ := ih (by omega)
    have hnext : s.kbd.keyboardCallback 0x1E = Keyboard.printk { s.kbd with
        lineBuffer := Function.update s.kbd.lineBuffer s.kbd.linePos 0x61
        linePos := s.kbd.linePos + 1 } 0x61 := by
      change s.kbd.typeChar (scancodeToAscii 0x1E s.kbd.shiftPressed s.kbd.capsLock) = _
      rw [hshift, hcaps]
      change (if s.kbd.linePos < 255 then _ else s.kbd) = _
      rw [if_pos (by omega)]
      rfl
    refine ⟨s.step (.key 0x1E), .step hrun trivial, ?_⟩
    change (s.kbd.keyboardCallback 0x1E).linePos = k + 1 ∧
      (s.kbd.keyboardCallback 0x1E).shiftPressed = false ∧
        (s.kbd.keyboardCallback 0x1E).capsLock = false
    rw [hnext]
    exact ⟨by rw [← hpos]; rfl, hshift, hcaps⟩

/-- A line of 255 letters does not fit even into the empty ring. -/
theorem not_enterKept_longLine :
    ¬ ∀ s, Run LineSession.step (fun s event ↦ KeyEvent.completed s event) .boot s →
      EnterKept s.kbd := by
  intro hall
  obtain ⟨s, hrun, hpos, -⟩ := typed_run 255 (Nat.le_refl _)
  have hfits := (hall s hrun).fits (valid_of_run hrun)
  unfold Keyboard.Fits at hfits
  omega

end TenOs.Drivers
