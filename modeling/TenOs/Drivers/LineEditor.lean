import TenOs.Drivers.LineQueue

/-!
# The keyboard handler as a line editor

What the bytes from port `0x60` do to the line, to the lines that Enter commits and to the modifier
flags is told by an editor of its own, and the handler follows that editor.  Reads of committed lines
may come in between.
-/

namespace TenOs.Drivers

open TenOs.Base TenOs.Lib

/-! ## The editor -/

def IsLower (c : u8) : Prop := 0x61 ≤ c ∧ c ≤ 0x7A
def IsUpper (c : u8) : Prop := 0x41 ≤ c ∧ c ≤ 0x5A

instance (c : u8) : Decidable (IsLower c) := inferInstanceAs (Decidable (_ ∧ _))
instance (c : u8) : Decidable (IsUpper c) := inferInstanceAs (Decidable (_ ∧ _))

def toUpperCase (c : u8) : u8 := if IsLower c then c - 0x20 else c
def toLowerCase (c : u8) : u8 := if IsUpper c then c + 0x20 else c

/-- A letter in the case that Shift and Caps Lock ask for; other characters have no case. -/
def letterCase (upper : Bool) (c : u8) : u8 := if upper then toUpperCase c else toLowerCase c

/-- The character of a key, if it has one. -/
def keyChar (code : u8) (shift caps : Bool) : Option u8 :=
  match (if shift then scAsciiShift else scAscii)[code.toNat]? with
  | none => none
  | some c =>
      if c = charUnmapped then none
      else if IsLower c ∨ IsUpper c then some (letterCase (shift ^^ caps) c)
      else some c

structure Editor where
  line : List u8
  committed : List (List u8)
  shift : Bool
  ctrl : Bool
  alt : Bool
  caps : Bool

namespace Editor

def start : Editor := ⟨[], [], false, false, false, false⟩

def typed (e : Editor) (c : u8) : Editor :=
  if c = charNewline then { e with line := [], committed := e.committed ++ [e.line] }
  else if c = charBackspace then { e with line := e.line.dropLast }
  else if e.line.length < 255 then { e with line := e.line ++ [c] }
  else e

def press (e : Editor) (code : u8) : Editor :=
  if code = 0x2A ∨ code = 0x36 then { e with shift := true }
  else if code = 0x1D then { e with ctrl := true }
  else if code = 0x38 then { e with alt := true }
  else if code = 0x3A then { e with caps := !e.caps }
  else match keyChar code e.shift e.caps with
    | none => e
    | some c => e.typed c

def release (e : Editor) (code : u8) : Editor :=
  if code = 0x2A ∨ code = 0x36 then { e with shift := false }
  else if code = 0x1D then { e with ctrl := false }
  else if code = 0x38 then { e with alt := false }
  else e

/-- A make code is below `0x80`, and the break code of the same key is `0x80` above it. -/
def byte (e : Editor) (data : u8) : Editor :=
  if data < 0x80 then e.press data else e.release (data - 0x80)

def event (e : Editor) : KeyEvent → Editor
  | .key data => e.byte data
  | .read _ _ => e

end Editor

/-! ## The handler with its indices checked -/

/-- An access with index `i` to an array of `size` cells. -/
def accessed {α : Type} (size i : Nat) (x : α) : Option α := if i < size then some x else none

theorem accessed_eq {α : Type} {size i : Nat} (h : i < size) (x : α) :
    accessed size i x = some x := if_pos h

def scancodeToAsciiChecked (scancode : u8) (shift capsLock : Bool) : Option u8 :=
  if scancode ≥ 0x59 then some charUnmapped
  else accessed (if shift then scAsciiShift.length else scAscii.length) scancode.toNat
    (scancodeToAscii scancode shift capsLock)

namespace Keyboard

def putByteChecked (s : Keyboard) (c : u8) : Option Keyboard :=
  accessed BUFFER_SIZE s.writePos (s.putByte c)

/-- A turn of the loop of `commit_line`. -/
def putTurnChecked (i : Nat) (s : Keyboard) : Option Keyboard := do
  s.putByteChecked (← accessed BUFFER_SIZE i (s.lineBuffer i))

def commitLineChecked (s : Keyboard) : Option Keyboard := do
  let s ← forAbort putTurnChecked s.linePos 0 s
  let s ← s.putByteChecked charNewline
  some { s with linePos := 0 }

def typeCharChecked (s : Keyboard) (c : u8) : Option Keyboard :=
  if c = charNewline then (s.printk charNewline).commitLineChecked
  else if c = charBackspace then some (s.typeChar c)
  else if c ≠ charUnmapped ∧ s.linePos < BUFFER_SIZE - 1 then
    accessed BUFFER_SIZE s.linePos (s.typeChar c)
  else some (s.typeChar c)

/-- `keyboard_callback`; nothing when an index is outside of its array. -/
def keyboardCallbackChecked (s : Keyboard) (data : u8) : Option Keyboard :=
  let pressed : Bool := data &&& 0x80 = 0
  let scancode := data &&& 0x7F
  if scancode = 0x2A ∨ scancode = 0x36 then some { s with shiftPressed := pressed }
  else if scancode = 0x1D then some { s with ctrlPressed := pressed }
  else if scancode = 0x38 then some { s with altPressed := pressed }
  else if scancode = 0x3A ∧ pressed then some { s with capsLock := !s.capsLock }
  else if ¬ pressed then some s
  else do s.typeCharChecked (← scancodeToAsciiChecked scancode s.shiftPressed s.capsLock)

end Keyboard

/-! ## Events -/

/-- What stands in the ring from position `pos` on, up to the first newline. -/
def storedLine (buf : Bytes) (pos : Nat) : List u8 :=
  ((List.range BUFFER_SIZE).map fun i ↦ buf ((pos + i) % BUFFER_SIZE)).takeWhile (· ≠ charNewline)

/-- The keyboard with the lines that `commit_line` stored. -/
structure EditSession where
  kbd : Keyboard
  committed : List (List u8)

namespace EditSession

def boot : EditSession := ⟨Keyboard.boot, []⟩

/-- The handler has gone through `commit_line` exactly when it has printed a newline, and then it has
stored the line from where the write position was. -/
def after (s : EditSession) (kbd : Keyboard) : EditSession where
  kbd := kbd
  committed :=
    if kbd.printed = s.kbd.printed ++ [charNewline]
    then s.committed ++ [storedLine kbd.inputBuffer s.kbd.writePos] else s.committed

def event (s : EditSession) : KeyEvent → EditSession
  | .key data => s.after (s.kbd.keyboardCallback data)
  | .read userBuf count => { s with kbd := (s.kbd.keyboardRead userBuf count).1 }

end EditSession

/-- The line, the committed lines and the flags of the handler are those of the editor. -/
structure Follows (s : EditSession) (e : Editor) : Prop where
  line : s.kbd.line = e.line
  committed : s.committed = e.committed
  shift : s.kbd.shiftPressed = e.shift
  ctrl : s.kbd.ctrlPressed = e.ctrl
  alt : s.kbd.altPressed = e.alt
  caps : s.kbd.capsLock = e.caps

/-! ## Characters -/

theorem scAscii_not_upper {c : u8} (h : c ∈ scAscii) : ¬ IsUpper c := by
  have hall : scAscii.all fun c ↦ ¬ IsUpper c := by decide
  exact of_decide_eq_true (List.all_eq_true.mp hall c h)

theorem scAsciiShift_not_lower {c : u8} (h : c ∈ scAsciiShift) : ¬ IsLower c := by
  have hall : scAsciiShift.all fun c ↦ ¬ IsLower c := by decide
  exact of_decide_eq_true (List.all_eq_true.mp hall c h)

/-- The fix-up of the source, for a character that is in the table of its shift state. -/
theorem fixUp_eq (c : u8) (shift caps : Bool) (h : if shift then ¬ IsLower c else ¬ IsUpper c) :
    (if caps ∧ c ≥ 0x61 ∧ c ≤ 0x7A then if shift then c else c - 32
      else if caps ∧ c ≥ 0x41 ∧ c ≤ 0x5A then if shift then c + 32 else c else c) =
      if IsLower c ∨ IsUpper c then letterCase (shift ^^ caps) c else c := by
  have hlower : (c ≥ 0x61 ∧ c ≤ 0x7A) = IsLower c := rfl
  have hupper : (c ≥ 0x41 ∧ c ≤ 0x5A) = IsUpper c := rfl
  simp only [hlower, hupper, letterCase, toUpperCase, toLowerCase]
  cases shift with
  | true =>
    replace h : ¬ IsLower c := h
    cases caps <;> simp [h]
  | false =>
    replace h : ¬ IsUpper c := h
    by_cases hletter : IsLower c <;> cases caps <;> simp [h, hletter]

theorem toUpperCase_ne_unmapped {c : u8} (h : IsLower c ∨ IsUpper c) :
    toUpperCase c ≠ charUnmapped := by
  rw [toUpperCase, charUnmapped]
  unfold IsLower IsUpper at h
  by_cases hlower : IsLower c
  · rw [if_pos hlower]
    unfold IsLower at hlower
    bv_omega
  · rw [if_neg hlower]
    bv_omega

theorem toLowerCase_ne_unmapped {c : u8} (h : IsLower c ∨ IsUpper c) :
    toLowerCase c ≠ charUnmapped := by
  rw [toLowerCase, charUnmapped]
  unfold IsLower IsUpper at h
  by_cases hupper : IsUpper c
  · rw [if_pos hupper]
    unfold IsUpper at hupper
    bv_omega
  · rw [if_neg hupper]
    bv_omega

theorem letterCase_ne_unmapped (upper : Bool) {c : u8} (h : IsLower c ∨ IsUpper c) :
    letterCase upper c ≠ charUnmapped := by
  cases upper with
  | true => exact toUpperCase_ne_unmapped h
  | false => exact toLowerCase_ne_unmapped h

-- The plain table has no capitals and the shifted one no small letters, so the fix-up makes the case
-- the exclusive or of Shift and Caps Lock.
theorem scancodeToAscii_eq (code : u8) (shift caps : Bool) :
    scancodeToAscii code shift caps = (keyChar code shift caps).getD charUnmapped := by
  have hlen : (if shift then scAsciiShift else scAscii).length = 0x59 := by cases shift <;> rfl
  by_cases hcode : code ≥ 0x59
  · have hout : (if shift then scAsciiShift else scAscii)[code.toNat]? = none :=
      List.getElem?_eq_none (hlen.trans_le hcode)
    rw [scancodeToAscii, keyChar, if_pos hcode, hout]
    rfl
  · obtain ⟨c, hc⟩ : ∃ c, (if shift then scAsciiShift else scAscii)[code.toNat]? = some c :=
      ⟨_, List.getElem?_eq_getElem ((Nat.lt_of_not_le hcode).trans_eq hlen.symm)⟩
    have hmem := List.mem_of_getElem? hc
    have hget : (if shift then scAsciiShift.getD code.toNat charUnmapped
        else scAscii.getD code.toNat charUnmapped) = c := by
      rw [← apply_ite (List.getD · code.toNat charUnmapped), List.getD_eq_getElem?_getD, hc]
      rfl
    have hcase : if shift then ¬ IsLower c else ¬ IsUpper c := by
      cases shift with
      | true => exact scAsciiShift_not_lower hmem
      | false => exact scAscii_not_upper hmem
    rw [scancodeToAscii, keyChar, if_neg hcode, hc]
    dsimp only
    rw [hget, fixUp_eq c shift caps hcase]
    by_cases hmapped : c = charUnmapped
    · rw [if_pos hmapped, hmapped]
      rfl
    · rw [if_neg hmapped, ← apply_ite some]
      rfl

theorem keyChar_ne_unmapped (code : u8) (shift caps : Bool) :
    keyChar code shift caps ≠ some charUnmapped := by
  rw [keyChar]
  cases (if shift then scAsciiShift else scAscii)[code.toNat]? with
  | none => exact (Option.some_ne_none _).symm
  | some c =>
    dsimp only
    split
    · exact (Option.some_ne_none _).symm
    · rename_i hmapped
      split
      · rename_i hletter
        exact fun heq ↦ letterCase_ne_unmapped _ hletter (Option.some.inj heq)
      · exact fun heq ↦ hmapped (Option.some.inj heq)

theorem pressed_of_lt {data : u8} (h : data < 0x80) : data &&& 0x80 = 0 ∧ data &&& 0x7F = data := by
  revert data
  decide +kernel

theorem released_of_le {data : u8} (h : ¬ data < 0x80) :
    data &&& 0x80 ≠ 0 ∧ data &&& 0x7F = data - 0x80 := by
  revert data
  decide +kernel

/-! ## Committing a line -/

/-- The loop of `commit_line` stores the line from the write position on and changes no other
variable. -/
theorem putLoop_stores {s : Keyboard} (hw : s.writePos < 256) {k : Nat} (hk : k ≤ 256) :
    ∃ buf, forLoop (fun i s ↦ s.putByte (s.lineBuffer i)) k 0 s =
        { s with inputBuffer := buf, writePos := (s.writePos + k) % 256 } ∧
      ∀ i < k, buf ((s.writePos + i) % 256) = s.lineBuffer i := by
  induction k with
  | zero => exact ⟨s.inputBuffer, by rw [Nat.add_zero, Nat.mod_eq_of_lt hw]; rfl, by simp⟩
  | succ k ih =>
    obtain ⟨buf, hloop, hstored⟩ := ih (by omega)
    refine ⟨Function.update buf ((s.writePos + k) % 256) (s.lineBuffer k), ?_, fun i hi ↦ ?_⟩
    · rw [forLoop_succ_last, hloop, Nat.zero_add, Keyboard.putByte, BUFFER_SIZE,
        show ((s.writePos + k) % 256 + 1) % 256 = (s.writePos + (k + 1)) % 256 by omega]
    · rcases Nat.eq_or_lt_of_le (Nat.le_of_lt_succ hi) with rfl | hlt
      · exact Function.update_self _ _ _
      · rw [Function.update_of_ne (by omega)]
        exact hstored i hlt

/-- `commit_line` stores the line with its newline, and empties it. -/
theorem commitLine_stores {s : Keyboard} (hw : s.writePos < 256) (hline : s.linePos < 256) :
    ∃ buf, s.commitLine =
        { s with
          inputBuffer := buf
          writePos := (s.writePos + s.linePos + 1) % 256
          linePos := 0 } ∧
      (∀ i < s.linePos, buf ((s.writePos + i) % 256) = s.lineBuffer i) ∧
      buf ((s.writePos + s.linePos) % 256) = charNewline := by
  obtain ⟨buf, hloop, hstored⟩ := putLoop_stores hw (Nat.le_of_lt hline)
  refine ⟨Function.update buf ((s.writePos + s.linePos) % 256) charNewline, ?_, fun i hi ↦ ?_,
    Function.update_self _ _ _⟩
  · rw [Keyboard.commitLine, hloop]
    dsimp only [Keyboard.putByte, BUFFER_SIZE]
    rw [Nat.mod_add_mod]
  · rw [Function.update_of_ne (by omega)]
    exact hstored i hi

-- The line has no newline of its own, so the one behind it ends what is read off the ring.
theorem storedLine_eq {s : Keyboard} (h : s.Valid) {buf : Bytes}
    (hbytes : ∀ i < s.linePos, buf ((s.writePos + i) % 256) = s.lineBuffer i)
    (hend : buf ((s.writePos + s.linePos) % 256) = charNewline) :
    storedLine buf s.writePos = s.line := by
  have hlt := h.linePos_lt
  have hcells : (List.range BUFFER_SIZE).map (fun i ↦ buf ((s.writePos + i) % BUFFER_SIZE)) =
      s.line ++ charNewline :: (List.range (255 - s.linePos)).map
        (fun i ↦ buf ((s.writePos + (s.linePos + (i + 1))) % 256)) := by
    rw [BUFFER_SIZE, show 256 = s.linePos + (255 - s.linePos + 1) by omega, List.range_add,
      List.map_append, List.map_map, List.range_succ_eq_map, List.map_cons, List.map_map,
      ← show 256 = s.linePos + (255 - s.linePos + 1) by omega]
    congr 1
    · exact List.map_congr_left fun i hi ↦ hbytes i (List.mem_range.mp hi)
    · exact congrArg₂ List.cons hend rfl
  rw [storedLine, hcells, List.takeWhile_append_of_pos, List.takeWhile_cons_of_neg (by simp),
    List.append_nil]
  intro c hc
  exact decide_eq_true fun heq ↦ h.no_newline (heq ▸ hc)

/-! ## One event -/

theorem after_newline {s : EditSession} {kbd : Keyboard}
    (h : kbd.printed = s.kbd.printed ++ [charNewline]) : (s.after kbd).committed =
      s.committed ++ [storedLine kbd.inputBuffer s.kbd.writePos] := if_pos h

theorem after_committed {s : EditSession} {kbd : Keyboard}
    (h : kbd.printed ≠ s.kbd.printed ++ [charNewline]) : (s.after kbd).committed = s.committed :=
  if_neg h

-- A handler that prints another character than a newline commits nothing.
theorem Follows.echoed {s : EditSession} {e : Editor} {kbd : Keyboard} {c : u8}
    (hcommitted : s.committed = e.committed) (hc : c ≠ charNewline)
    (hprinted : kbd.printed = s.kbd.printed ++ [c])
    (hline : kbd.line = e.line) (hshift : kbd.shiftPressed = e.shift)
    (hctrl : kbd.ctrlPressed = e.ctrl) (halt : kbd.altPressed = e.alt)
    (hcaps : kbd.capsLock = e.caps) : Follows (s.after kbd) e := by
  have hsame : (s.after kbd).committed = s.committed := after_committed (by simp [hprinted, hc])
  exact ⟨hline, hsame.trans hcommitted, hshift, hctrl, halt, hcaps⟩

-- And so does one that prints nothing.
theorem Follows.quiet {s : EditSession} {e : Editor} {kbd : Keyboard}
    (hcommitted : s.committed = e.committed) (hprinted : kbd.printed = s.kbd.printed)
    (hline : kbd.line = e.line) (hshift : kbd.shiftPressed = e.shift)
    (hctrl : kbd.ctrlPressed = e.ctrl) (halt : kbd.altPressed = e.alt)
    (hcaps : kbd.capsLock = e.caps) : Follows (s.after kbd) e := by
  have hsame : (s.after kbd).committed = s.committed := after_committed (by simp [hprinted])
  exact ⟨hline, hsame.trans hcommitted, hshift, hctrl, halt, hcaps⟩

/-- A character other than the mark of a key without one. -/
theorem Follows.typeChar {s : EditSession} {e : Editor} (h : Follows s e) (hv : s.kbd.Valid) {c : u8}
    (hc : c ≠ charUnmapped) : Follows (s.after (s.kbd.typeChar c)) (e.typed c) := by
  rw [Keyboard.typeChar, Editor.typed]
  by_cases hnewline : c = charNewline
  · rw [if_pos hnewline, if_pos hnewline]
    -- printing leaves the line and the write position as they are
    have hwrite : (s.kbd.printk charNewline).writePos < 256 := hv.writePos_lt
    obtain ⟨buf, hcommit, hbytes, hend⟩ := commitLine_stores hwrite hv.linePos_lt
    have hstored : storedLine buf s.kbd.writePos = s.kbd.line := storedLine_eq hv hbytes hend
    rw [hcommit]
    refine ⟨rfl, (after_newline rfl).trans ?_, h.shift, h.ctrl, h.alt, h.caps⟩
    rw [hstored, h.committed, h.line]
  rw [if_neg hnewline, if_neg hnewline]
  by_cases hback : c = charBackspace
  · rw [if_pos hback, if_pos hback]
    by_cases hpos : s.kbd.linePos > 0
    · rw [if_pos hpos]
      have hline : ({ s.kbd with linePos := s.kbd.linePos - 1 }.printk charBackspace).line =
          s.kbd.line.dropLast := Keyboard.line_backspace rfl rfl
      rw [h.line] at hline
      exact .echoed (c := charBackspace) h.committed (by decide) rfl hline h.shift h.ctrl h.alt
        h.caps
    · rw [if_neg hpos]
      -- there is nothing to take off an empty line
      have hempty : e.line = [] := by
        rw [← h.line, ← List.length_eq_zero_iff, s.kbd.line_length]
        omega
      have hline : s.kbd.line = e.line.dropLast := by rw [h.line, hempty]; rfl
      exact .quiet h.committed rfl hline h.shift h.ctrl h.alt h.caps
  · rw [if_neg hback, if_neg hback, if_pos hc, ← h.line, s.kbd.line_length]
    by_cases hroom : s.kbd.linePos < 255
    · rw [if_pos (show s.kbd.linePos < BUFFER_SIZE - 1 from hroom), if_pos hroom]
      exact .echoed (c := c) h.committed hnewline rfl (Keyboard.line_append rfl rfl) h.shift h.ctrl
        h.alt h.caps
    · rw [if_neg (show ¬ s.kbd.linePos < BUFFER_SIZE - 1 from hroom), if_neg hroom]
      exact .quiet h.committed rfl h.line h.shift h.ctrl h.alt h.caps

/-- A byte from port `0x60`. -/
theorem Follows.byte {s : EditSession} {e : Editor} (h : Follows s e) (hv : s.kbd.Valid)
    (data : u8) : Follows (s.after (s.kbd.keyboardCallback data)) (e.byte data) := by
  by_cases hmake : data < 0x80
  · obtain ⟨hpressed, hcode⟩ := pressed_of_lt hmake
    simp only [Keyboard.keyboardCallback, Editor.byte, Editor.press, hpressed, hcode, if_pos hmake,
      decide_true, and_true, not_true_eq_false, if_false]
    split
    · exact .quiet h.committed rfl h.line rfl h.ctrl h.alt h.caps
    split
    · exact .quiet h.committed rfl h.line h.shift rfl h.alt h.caps
    split
    · exact .quiet h.committed rfl h.line h.shift h.ctrl rfl h.caps
    split
    · exact .quiet h.committed rfl h.line h.shift h.ctrl h.alt (congrArg (!·) h.caps)
    · -- a key with or without a character
      rw [scancodeToAscii_eq, h.shift, h.caps]
      cases hchar : keyChar data e.shift e.caps with
      | none => exact .quiet h.committed rfl h.line h.shift h.ctrl h.alt h.caps
      | some c =>
        refine h.typeChar hv fun hc ↦ ?_
        exact keyChar_ne_unmapped data e.shift e.caps (hc ▸ hchar)
  · obtain ⟨hreleased, hcode⟩ := released_of_le hmake
    simp only [Keyboard.keyboardCallback, Editor.byte, Editor.release, hreleased, hcode,
      if_neg hmake, decide_false, and_false, Bool.false_eq_true, not_false_eq_true, if_true, if_false]
    split
    · exact .quiet h.committed rfl h.line rfl h.ctrl h.alt h.caps
    split
    · exact .quiet h.committed rfl h.line h.shift rfl h.alt h.caps
    split
    · exact .quiet h.committed rfl h.line h.shift h.ctrl rfl h.caps
    · exact .quiet h.committed rfl h.line h.shift h.ctrl h.alt h.caps

/-! ## Indices -/

theorem scancodeToAsciiChecked_eq (scancode : u8) (shift capsLock : Bool) :
    scancodeToAsciiChecked scancode shift capsLock =
      some (scancodeToAscii scancode shift capsLock) := by
  rw [scancodeToAsciiChecked]
  by_cases hlarge : scancode ≥ 0x59
  · rw [if_pos hlarge, scancodeToAscii, if_pos hlarge]
  · -- both tables end behind code `0x58`
    have hlt : scancode.toNat < 0x59 := Nat.lt_of_not_le hlarge
    rw [if_neg hlarge, accessed_eq]
    cases shift <;> exact hlt

theorem commitLineChecked_eq {s : Keyboard} (hw : s.writePos < 256) (hline : s.linePos < 256) :
    s.commitLineChecked = some s.commitLine := by
  -- before turn `i` the checked loop is where the loop of the source is
  let turn (i : Nat) (s : Keyboard) := s.putByte (s.lineBuffer i)
  have hturn (i : Nat) (t : Keyboard) (_ : 0 ≤ i) (hi : i < 0 + s.linePos)
      (ht : t = forLoop turn i 0 s) :
      ∃ t', Keyboard.putTurnChecked i t = some t' ∧ t' = forLoop turn (i + 1) 0 s := by
    obtain ⟨buf, hloop, -⟩ := putLoop_stores hw (k := i) (by omega)
    have hwrite : t.writePos < BUFFER_SIZE := by
      rw [ht, hloop]
      exact Nat.mod_lt _ (by decide)
    have hindex : i < BUFFER_SIZE := Nat.lt_trans hi (by rw [Nat.zero_add]; exact hline)
    refine ⟨turn i t, ?_, by rw [forLoop_succ_last, ← ht, Nat.zero_add]⟩
    rw [Keyboard.putTurnChecked, accessed_eq hindex]
    exact accessed_eq hwrite _
  obtain ⟨t, hloop, ht⟩ := forAbort_inv (fun i t ↦ t = forLoop turn i 0 s)
    (n := s.linePos) (s := s) rfl hturn
  rw [Nat.zero_add] at ht
  obtain ⟨buf, hstores, -⟩ := putLoop_stores hw (Nat.le_of_lt hline)
  have hwrite : t.writePos < BUFFER_SIZE := by
    rw [ht, hstores]
    exact Nat.mod_lt _ (by decide)
  have hlast : t.putByteChecked charNewline = some (t.putByte charNewline) := accessed_eq hwrite _
  simp only [Keyboard.commitLineChecked, hloop, hlast, Option.bind_eq_bind, Option.bind_some]
  rw [ht]
  rfl

theorem typeCharChecked_eq {s : Keyboard} (h : s.Valid) (c : u8) :
    s.typeCharChecked c = some (s.typeChar c) := by
  rw [Keyboard.typeCharChecked]
  split
  · rename_i hnewline
    rw [Keyboard.typeChar, if_pos hnewline]
    exact commitLineChecked_eq (s := s.printk charNewline) h.writePos_lt h.linePos_lt
  split
  · rfl
  split
  · exact accessed_eq h.linePos_lt _
  · rfl

theorem keyboardCallbackChecked_eq {s : Keyboard} (h : s.Valid) (data : u8) :
    s.keyboardCallbackChecked data = some (s.keyboardCallback data) := by
  simp only [Keyboard.keyboardCallbackChecked, Keyboard.keyboardCallback, scancodeToAsciiChecked_eq,
    Option.bind_eq_bind, Option.bind_some, typeCharChecked_eq h]
  split
  · rfl
  split
  · rfl
  split
  · rfl
  split
  · rfl
  split <;> rfl

/-! ## Every sequence of events -/

-- A read moves the read position, which the handler does not look at.
theorem keyboardRead_state {s : Keyboard} (h : s.Valid) (userBuf : Bytes) (count : u32) :
    ∃ pos < 256, (s.keyboardRead userBuf count).1 = { s with readPos := pos } := by
  obtain ⟨chunk, htakes⟩ : ∃ chunk,
      Keyboard.Takes count.toNat 0 s userBuf (s.keyboardRead userBuf count) chunk :=
    Keyboard.readLoop_takes count.toNat h.readPos_lt h.writePos_lt
  exact htakes.state

theorem follows_event {s : EditSession} {e : Editor} (event : KeyEvent)
    (h : Follows s e ∧ s.kbd.Valid) :
    Follows (s.event event) (e.event event) ∧ (s.event event).kbd.Valid := by
  obtain ⟨hfollows, hvalid⟩ := h
  cases event with
  | key data => exact ⟨hfollows.byte hvalid data, hvalid.keyboardCallback data⟩
  | read userBuf count =>
    obtain ⟨pos, hpos, hread⟩ := keyboardRead_state hvalid userBuf count
    change Follows { s with kbd := (s.kbd.keyboardRead userBuf count).1 } e ∧
      (s.kbd.keyboardRead userBuf count).1.Valid
    rw [hread]
    exact ⟨⟨hfollows.line, hfollows.committed, hfollows.shift, hfollows.ctrl, hfollows.alt,
      hfollows.caps⟩, ⟨hpos, hvalid.writePos_lt, hvalid.linePos_lt, hvalid.no_newline⟩⟩

/-- The positions are in range, and no byte makes the handler leave an array. -/
structure InBounds (s : Keyboard) : Prop where
  linePos_le : s.linePos ≤ 255
  writePos_le : s.writePos ≤ 255
  accesses (data : u8) : s.keyboardCallbackChecked data = some (s.keyboardCallback data)

theorem lineEditor (events : List KeyEvent) :
    Follows (events.foldl EditSession.event .boot) (events.foldl Editor.event .start) ∧
      InBounds (events.foldl EditSession.event .boot).kbd := by
  have hboot : Follows .boot .start ∧ EditSession.boot.kbd.Valid :=
    ⟨⟨rfl, rfl, rfl, rfl, rfl, rfl⟩, Keyboard.valid_boot⟩
  obtain ⟨hfollows, hvalid⟩ := List.foldl_rel (l := events)
    (r := fun s e ↦ Follows s e ∧ s.kbd.Valid) hboot fun event _ s e h ↦ follows_event event h
  exact ⟨hfollows, Nat.le_of_lt_succ hvalid.linePos_lt, Nat.le_of_lt_succ hvalid.writePos_lt,
    keyboardCallbackChecked_eq hvalid⟩

end TenOs.Drivers
