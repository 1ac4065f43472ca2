import TenOs.Base.Ring
import TenOs.Base.Run
import TenOs.Lib.Util

/-!
# `drivers/keyboard.c`

Key presses edit a line, Enter moves the line to a ring of 256 bytes, and `keyboard_read` takes bytes
out of the ring.  The positions are `int` in the source and stay in `0 .. 255`.
-/

namespace TenOs.Drivers

open TenOs.Base TenOs.Lib

def BUFFER_SIZE : Nat := 256

/-- The variables of `keyboard.c`, and the characters that the handler has printed. -/
structure Keyboard where
  inputBuffer : Bytes
  readPos : Nat
  writePos : Nat
  lineBuffer : Bytes
  linePos : Nat
  shiftPressed : Bool
  ctrlPressed : Bool
  altPressed : Bool
  capsLock : Bool
  printed : List u8

/-- All variables are zero at boot. -/
def Keyboard.boot : Keyboard where
  inputBuffer := fun _ ↦ 0
  readPos := 0
  writePos := 0
  lineBuffer := fun _ ↦ 0
  linePos := 0
  shiftPressed := false
  ctrlPressed := false
  altPressed := false
  capsLock := false
  printed := []

/-! ## Characters -/

def charNewline : u8 := 0x0A
def charBackspace : u8 := 0x08
/-- `'?'`, the mark of a key without a character. -/
def charUnmapped : u8 := 0x3F

def scAscii : List u8 := [
  0x3F, 0x3F, 0x31, 0x32, 0x33, 0x34, 0x35, 0x36,  -- 0x00: ? ? 1 2 3 4 5 6
  0x37, 0x38, 0x39, 0x30, 0x2D, 0x3D, 0x08, 0x09,  -- 0x08: 7 8 9 0 - = backspace tab
  0x71, 0x77, 0x65, 0x72, 0x74, 0x79, 0x75, 0x69,  -- 0x10: q w e r t y u i
  0x6F, 0x70, 0x5B, 0x5D, 0x0A, 0x3F, 0x61, 0x73,  -- 0x18: o p [ ] enter ? a s
  0x64, 0x66, 0x67, 0x68, 0x6A, 0x6B, 0x6C, 0x3B,  -- 0x20: d f g h j k l ;
  0x27, 0x60, 0x3F, 0x5C, 0x7A, 0x78, 0x63, 0x76,  -- 0x28: quote backquote ? backslash z x c v
  0x62, 0x6E, 0x6D, 0x2C, 0x2E, 0x2F, 0x3F, 0x2A,  -- 0x30: b n m , . / ? *
  0x3F, 0x20, 0x3F, 0x3F, 0x3F, 0x3F, 0x3F, 0x3F,  -- 0x38: ? space ? ? ? ? ? ?
  0x3F, 0x3F, 0x3F, 0x3F, 0x3F, 0x3F, 0x3F, 0x37,  -- 0x40: ? ? ? ? ? ? ? 7
  0x38, 0x39, 0x2D, 0x34, 0x35, 0x36, 0x2B, 0x31,  -- 0x48: 8 9 - 4 5 6 + 1
  0x32, 0x33, 0x30, 0x2E, 0x3F, 0x3F, 0x3F, 0x3F,  -- 0x50: 2 3 0 . ? ? ? ?
  0x3F]                                            -- 0x58: ?

def scAsciiShift : List u8 := [
  0x3F, 0x3F, 0x21, 0x40, 0x23, 0x24, 0x25, 0x5E,  -- 0x00: ? ? ! @ # $ % ^
  0x26, 0x2A, 0x28, 0x29, 0x5F, 0x2B, 0x08, 0x09,  -- 0x08: & * ( ) _ + backspace tab
  0x51, 0x57, 0x45, 0x52, 0x54, 0x59, 0x55, 0x49,  -- 0x10: Q W E R T Y U I
  0x4F, 0x50, 0x7B, 0x7D, 0x0A, 0x3F, 0x41, 0x53,  -- 0x18: O P { } enter ? A S
  0x44, 0x46, 0x47, 0x48, 0x4A, 0x4B, 0x4C, 0x3A,  -- 0x20: D F G H J K L :
  0x22, 0x7E, 0x3F, 0x7C, 0x5A, 0x58, 0x43, 0x56,  -- 0x28: double quote ~ ? | Z X C V
  0x42, 0x4E, 0x4D, 0x3C, 0x3E, 0x3F, 0x3F, 0x2A,  -- 0x30: B N M < > ? ? *
  0x3F, 0x20, 0x3F, 0x3F, 0x3F, 0x3F, 0x3F, 0x3F,  -- 0x38: ? space ? ? ? ? ? ?
  0x3F, 0x3F, 0x3F, 0x3F, 0x3F, 0x3F, 0x3F, 0x37,  -- 0x40: ? ? ? ? ? ? ? 7
  0x38, 0x39, 0x2D, 0x34, 0x35, 0x36, 0x2B, 0x31,  -- 0x48: 8 9 - 4 5 6 + 1
  0x32, 0x33, 0x30, 0x2E, 0x3F, 0x3F, 0x3F, 0x3F,  -- 0x50: 2 3 0 . ? ? ? ?
  0x3F]                                            -- 0x58: ?

-- All characters of the tables are below 0x80, where `char` comparisons are those of `u8`.
def scancodeToAscii (scancode : u8) (shift capsLock : Bool) : u8 :=
  if scancode ≥ 0x59 then charUnmapped
  else
    let c := if shift then scAsciiShift.getD scancode.toNat charUnmapped
      else scAscii.getD scancode.toNat charUnmapped
    if capsLock ∧ c ≥ 0x61 ∧ c ≤ 0x7A then if shift then c else c - 32
    else if capsLock ∧ c ≥ 0x41 ∧ c ≤ 0x5A then if shift then c + 32 else c
    else c

/-! ## The interrupt handler -/

namespace Keyboard

def putByte (s : Keyboard) (c : u8) : Keyboard :=
  { s with
    inputBuffer := Function.update s.inputBuffer s.writePos c
    writePos := (s.writePos + 1) % BUFFER_SIZE }

def commitLine (s : Keyboard) : Keyboard :=
  let s := forLoop (fun i s ↦ s.putByte (s.lineBuffer i)) s.linePos 0 s
  { s.putByte charNewline with linePos := 0 }

def printk (s : Keyboard) (c : u8) : Keyboard := { s with printed := s.printed ++ [c] }

/-- The end of `keyboard_callback`, for the character `c` of a pressed key. -/
def typeChar (s : Keyboard) (c : u8) : Keyboard :=
  if c = charNewline then (s.printk charNewline).commitLine
  else if c = charBackspace then
    if s.linePos > 0 then { s with linePos := s.linePos - 1 }.printk charBackspace else s
  else if c ≠ charUnmapped then
    if s.linePos < BUFFER_SIZE - 1 then
      { s with
        lineBuffer := Function.update s.lineBuffer s.linePos c
        linePos := s.linePos + 1 }.printk c
    else s
  else s

/-- `keyboard_callback`, where `data` is the byte read from port `0x60`. -/
def keyboardCallback (s : Keyboard) (data : u8) : Keyboard :=
  let pressed : Bool := data &&& 0x80 = 0
  let scancode := data &&& 0x7F
  if scancode = 0x2A ∨ scancode = 0x36 then { s with shiftPressed := pressed }
  else if scancode = 0x1D then { s with ctrlPressed := pressed }
  else if scancode = 0x38 then { s with altPressed := pressed }
  else if scancode = 0x3A ∧ pressed then { s with capsLock := !s.capsLock }
  else if ¬ pressed then s
  else s.typeChar (scancodeToAscii scancode s.shiftPressed s.capsLock)

/-! ## Reading -/

/-- The loop of `has_complete_line`; `none` when it does not end within `fuel` turns. -/
def scanLine (s : Keyboard) : (fuel pos : Nat) → Option Bool
  | 0, _ => none
  | fuel + 1, pos =>
      if pos = s.writePos then some false
      else if s.inputBuffer pos = charNewline then some true
      else scanLine s fuel ((pos + 1) % BUFFER_SIZE)

def hasCompleteLine (s : Keyboard) : Option Bool := s.scanLine BUFFER_SIZE s.readPos

/-- The loop of `keyboard_read`, with `left` bytes to go to `count`: the state, the user's buffer and
`bytes_read`. -/
def readLoop : (left bytesRead : Nat) → Keyboard → Bytes → Keyboard × Bytes × Nat
  | 0, bytesRead, s, userBuf => (s, userBuf, bytesRead)
  | left + 1, bytesRead, s, userBuf =>
      if s.readPos = s.writePos then (s, userBuf, bytesRead)
      else
        let c := s.inputBuffer s.readPos
        let userBuf := Function.update userBuf bytesRead c
        let s := { s with readPos := (s.readPos + 1) % BUFFER_SIZE }
        if c = charNewline then (s, userBuf, bytesRead + 1)
        else readLoop left (bytesRead + 1) s userBuf

/-- `keyboard_read` from where its wait for a complete line is over. -/
def keyboardRead (s : Keyboard) (userBuf : Bytes) (count : u32) : Keyboard × Bytes × Nat :=
  readLoop count.toNat 0 s userBuf

/-! ## The ring as a queue -/

/-- The line being edited. -/
def line (s : Keyboard) : List u8 := (List.range s.linePos).map s.lineBuffer

/-- The bytes that are not read yet. -/
def unread (s : Keyboard) : List u8 := ring s.inputBuffer BUFFER_SIZE s.readPos s.writePos

/-- The positions are in range, and the line has no newline in it. -/
structure Valid (s : Keyboard) : Prop where
  readPos_lt : s.readPos < 256
  writePos_lt : s.writePos < 256
  linePos_lt : s.linePos < 256
  no_newline : charNewline ∉ s.line

theorem valid_boot : boot.Valid := ⟨by decide, by decide, by decide, by decide⟩

/-- The rings of two states with the same buffer and positions hold the same bytes. -/
structure SameRing (s s' : Keyboard) : Prop where
  inputBuffer : s'.inputBuffer = s.inputBuffer
  readPos : s'.readPos = s.readPos
  writePos : s'.writePos = s.writePos

theorem SameRing.unread {s s' : Keyboard} (h : SameRing s s') : s'.unread = s.unread := by
  rw [Keyboard.unread, Keyboard.unread, h.inputBuffer, h.readPos, h.writePos]

theorem putByte_unread {s : Keyboard} (hr : s.readPos < 256) (hw : s.writePos < 256)
    (hroom : s.unread.length + 1 < 256) (c : u8) : (s.putByte c).unread = s.unread ++ [c] := by
  apply ring_push hr hw
  rwa [unread, ring_length] at hroom

/-! ## What the handler does -/

theorem scancodeToAscii_eq_newline_iff (scancode : u8) (shift capsLock : Bool) :
    scancodeToAscii scancode shift capsLock = charNewline ↔ scancode = 0x1C := by
  revert scancode shift capsLock
  decide +kernel

theorem pressed_eq (data : u8) (h : data &&& 0x80 = 0) : data &&& 0x7F = data := by
  revert data
  decide +kernel

/-- `0x1C` is the make code of Enter. -/
theorem keyboardCallback_enter (s : Keyboard) :
    s.keyboardCallback 0x1C = (s.printk charNewline).commitLine := by
  have hnewline := (scancodeToAscii_eq_newline_iff 0x1C s.shiftPressed s.capsLock).mpr rfl
  change s.typeChar (scancodeToAscii 0x1C s.shiftPressed s.capsLock) = _
  rw [typeChar, if_pos hnewline]

/-- How the line can change without Enter. -/
inductive Edit (s s' : Keyboard) : Prop
  | same (h : s'.line = s.line)
  | backspace (h : s'.line = s.line.dropLast)
  | append (c : u8) (hc : c ≠ charNewline) (hroom : s.linePos < 255) (h : s'.line = s.line ++ [c])

theorem line_length (s : Keyboard) : s.line.length = s.linePos := by simp [line]

theorem SameRing.refl (s : Keyboard) : SameRing s s := ⟨rfl, rfl, rfl⟩

-- Stepping back over a byte takes the last byte off the line, if it has one.
theorem line_backspace {s s' : Keyboard} (hbuf : s'.lineBuffer = s.lineBuffer)
    (hpos : s'.linePos = s.linePos - 1) : s'.line = s.line.dropLast := by
  rw [line, line, hbuf, hpos]
  cases s.linePos with
  | zero => rfl
  | succ k =>
    rw [List.range_succ, List.map_append, List.map_singleton, List.dropLast_concat, Nat.succ_sub_one]

theorem line_append {s s' : Keyboard} {c : u8}
    (hbuf : s'.lineBuffer = Function.update s.lineBuffer s.linePos c)
    (hpos : s'.linePos = s.linePos + 1) : s'.line = s.line ++ [c] := by
  rw [line, line, hbuf, hpos, List.range_succ, List.map_append, List.map_singleton,
    Function.update_self]
  congr 1
  apply List.map_congr_left
  intro i hi
  exact Function.update_of_ne (Nat.ne_of_lt (List.mem_range.mp hi)) _ _

-- Backspace, a character with room for it, and all that leave the line alone.
theorem typeChar_edit (s : Keyboard) {c : u8} (hc : c ≠ charNewline) :
    SameRing s (s.typeChar c) ∧ Edit s (s.typeChar c) := by
  rw [typeChar, if_neg hc]
  by_cases hback : c = charBackspace
  · rw [if_pos hback]
    by_cases hpos : s.linePos > 0
    · rw [if_pos hpos]
      exact ⟨⟨rfl, rfl, rfl⟩, .backspace (line_backspace rfl rfl)⟩
    · rw [if_neg hpos]
      exact ⟨.refl s, .same rfl⟩
  · rw [if_neg hback]
    by_cases hmapped : c ≠ charUnmapped
    · rw [if_pos hmapped]
      by_cases hroom : s.linePos < BUFFER_SIZE - 1
      · rw [if_pos hroom]
        exact ⟨⟨rfl, rfl, rfl⟩, .append c hc hroom (line_append rfl rfl)⟩
      · rw [if_neg hroom]
        exact ⟨.refl s, .same rfl⟩
    · rw [if_neg hmapped]
      exact ⟨.refl s, .same rfl⟩

-- A byte other than the make code of Enter commits nothing.
theorem keyboardCallback_edit (s : Keyboard) {data : u8} (hdata : data ≠ 0x1C) :
    SameRing s (s.keyboardCallback data) ∧ Edit s (s.keyboardCallback data) := by
  simp only [keyboardCallback]
  split
  · exact ⟨⟨rfl, rfl, rfl⟩, .same rfl⟩
  split
  · exact ⟨⟨rfl, rfl, rfl⟩, .same rfl⟩
  split
  · exact ⟨⟨rfl, rfl, rfl⟩, .same rfl⟩
  split
  · exact ⟨⟨rfl, rfl, rfl⟩, .same rfl⟩
  split
  · exact ⟨.refl s, .same rfl⟩
  · -- a key is pressed; it is not Enter, so its character is no newline
    rename_i hpressed
    apply typeChar_edit
    simp only [decide_eq_true_eq, not_not] at hpressed
    rw [pressed_eq data hpressed]
    exact mt (scancodeToAscii_eq_newline_iff data _ _).mp hdata

/-- The loop of `commit_line`. -/
theorem putLoop_spec {s : Keyboard} (hr : s.readPos < 256) (hw : s.writePos < 256) (k : Nat)
    {t : Keyboard} (ht : t = forLoop (fun i s ↦ s.putByte (s.lineBuffer i)) k 0 s) :
    t.readPos = s.readPos ∧ t.writePos < 256 ∧ (s.unread.length + k < 256 →
      t.unread = s.unread ++ (List.range k).map s.lineBuffer) := by
  let inv (i : Nat) (t : Keyboard) : Prop := t.lineBuffer = s.lineBuffer ∧ t.readPos = s.readPos ∧
    t.writePos < 256 ∧
      (s.unread.length + i < 256 → t.unread = s.unread ++ (List.range i).map s.lineBuffer)
  have hrun : inv (0 + k) t := by
    have hstart : inv 0 s := ⟨rfl, rfl, hw, fun _ ↦ by simp⟩
    rw [ht]
    refine forLoop_inv inv hstart fun i t _ _ hI ↦ ?_
    obtain ⟨hline, hread, hwrite, hunread⟩ := hI
    refine ⟨hline, hread, Nat.mod_lt _ (by decide), fun hroom ↦ ?_⟩
    have hlist := hunread (by omega)
    have hlength : t.unread.length = s.unread.length + i := by
      rw [hlist, List.length_append, List.length_map, List.length_range]
    rw [putByte_unread (by rw [hread]; exact hr) hwrite (by omega), hlist, hline, List.range_succ,
      List.map_append, List.map_singleton, List.append_assoc]
  rw [Nat.zero_add] at hrun
  exact hrun.2

-- The bytes of the line one by one, and the newline behind them.
theorem commitLine_spec {s : Keyboard} (hr : s.readPos < 256) (hw : s.writePos < 256) :
    s.commitLine.readPos = s.readPos ∧ s.commitLine.writePos < 256 ∧ s.commitLine.linePos = 0 ∧
      (s.unread.length + s.linePos + 1 < 256 →
        s.commitLine.unread = s.unread ++ s.line ++ [charNewline]) := by
  obtain ⟨hread, hwrite, hunread⟩ := putLoop_spec hr hw s.linePos rfl
  refine ⟨hread, Nat.mod_lt _ (by decide), rfl, fun hroom ↦ ?_⟩
  have hlist := hunread (by omega)
  rw [line, ← hlist]
  refine putByte_unread (by rw [hread]; exact hr) hwrite ?_ charNewline
  rw [hlist, List.length_append, List.length_map, List.length_range]
  exact hroom

theorem unread_length_lt {s : Keyboard} (hr : s.readPos < 256) : s.unread.length < 256 := by
  rw [unread, ring_length]
  exact ringLength_lt hr

theorem Valid.keyboardCallback {s : Keyboard} (h : s.Valid) (data : u8) :
    (s.keyboardCallback data).Valid := by
  by_cases hdata : data = 0x1C
  · -- Enter empties the line
    rw [hdata, keyboardCallback_enter]
    obtain ⟨hread, hwrite, hline, -⟩ := commitLine_spec (s := s.printk charNewline) h.readPos_lt
      h.writePos_lt
    refine ⟨hread ▸ h.readPos_lt, hwrite, by rw [hline]; decide, ?_⟩
    rw [line, hline]
    simp
  · -- any other byte edits it, and puts no newline in
    obtain ⟨hring, hedit⟩ := s.keyboardCallback_edit hdata
    have hlength := (s.keyboardCallback data).line_length
    have hold := s.line_length
    have hlt := h.linePos_lt
    have hnone := h.no_newline
    refine ⟨hring.readPos ▸ h.readPos_lt, hring.writePos ▸ h.writePos_lt, ?_, ?_⟩
    · cases hedit with
      | same heq =>
        rw [heq] at hlength
        omega
      | backspace heq =>
        rw [heq, List.length_dropLast] at hlength
        omega
      | append c _ hroom heq =>
        rw [heq, List.length_append, List.length_singleton] at hlength
        omega
    · cases hedit with
      | same heq => rwa [heq]
      | backspace heq =>
        rw [heq]
        exact fun hmem ↦ hnone ((List.dropLast_sublist _).subset hmem)
      | append c hc _ heq =>
        rw [heq]
        simpa using ⟨hnone, hc.symm⟩

/-! ## What a read does -/

theorem scanLine_eq {s : Keyboard} (hw : s.writePos < 256) {fuel pos : Nat} (hpos : pos < 256)
    (hfuel : ringLength 256 pos s.writePos < fuel) : s.scanLine fuel pos =
      some (decide (charNewline ∈ ring s.inputBuffer 256 pos s.writePos)) := by
  -- every turn takes one byte off the part of the ring that is still to be scanned
  induction fuel generalizing pos with
  | zero => omega
  | succ fuel ih =>
    rw [scanLine]
    by_cases hend : pos = s.writePos
    · rw [if_pos hend, (ring_eq_nil_iff hpos hw).mpr hend]
      simp
    · rw [if_neg hend, ring_pop hpos hw hend]
      by_cases hc : s.inputBuffer pos = charNewline
      · rw [if_pos hc, hc]
        simp
      · have hnext := ringLength_pop hpos hw hend
        have hlt : (pos + 1) % 256 < 256 := Nat.mod_lt _ (by decide)
        have hrest := ih hlt (by omega)
        rw [if_neg hc, BUFFER_SIZE, hrest]
        simp [Ne.symm hc]

/-- `has_complete_line` ends, and says whether there is a newline among the unread bytes. -/
theorem hasCompleteLine_eq {s : Keyboard} (h : s.Valid) :
    s.hasCompleteLine = some (decide (charNewline ∈ s.unread)) :=
  scanLine_eq h.writePos_lt h.readPos_lt (ringLength_lt h.readPos_lt)

/-- Why the loop of `keyboard_read` stops: at the first newline, at `count`, or at the end of the
ring. -/
inductive Stops (left : Nat) (chunk rest : List u8) : Prop
  | newline (l : List u8) (hl : charNewline ∉ l) (h : chunk = l ++ [charNewline])
  | full (hnone : charNewline ∉ chunk) (h : chunk.length = left)
  | empty (hnone : charNewline ∉ chunk) (h : rest = [])

/-- What the loop of `keyboard_read` takes out of the ring and stores. -/
structure Takes (left bytesRead : Nat) (s : Keyboard) (userBuf : Bytes) (r : Keyboard × Bytes × Nat)
    (chunk : List u8) : Prop where
  unread : s.unread = chunk ++ r.1.unread
  state : ∃ pos < 256, r.1 = { s with readPos := pos }
  count : r.2.2 = bytesRead + chunk.length
  stored : ∀ i (hi : i < chunk.length), r.2.1 (bytesRead + i) = chunk[i]
  others : ∀ a, a < bytesRead ∨ bytesRead + chunk.length ≤ a → r.2.1 a = userBuf a
  le : chunk.length ≤ left
  stops : Stops left chunk r.1.unread

theorem Takes.nil {left bytesRead : Nat} {s : Keyboard} {userBuf : Bytes} (hr : s.readPos < 256)
    (hstops : Stops left [] s.unread) : Takes left bytesRead s userBuf (s, userBuf, bytesRead) [] :=
  ⟨rfl, ⟨s.readPos, hr, rfl⟩, rfl, fun i hi ↦ absurd hi (Nat.not_lt_zero i), fun _ _ ↦ rfl,
    Nat.zero_le _, hstops⟩

/-- A turn that takes a byte other than a newline, and then the rest of the loop. -/
theorem Takes.cons {left bytesRead : Nat} {s : Keyboard} {userBuf : Bytes}
    {r : Keyboard × Bytes × Nat} {chunk : List u8} (hr : s.readPos < 256) (hw : s.writePos < 256)
    (hend : s.readPos ≠ s.writePos) (hc : s.inputBuffer s.readPos ≠ charNewline)
    (h : Takes left (bytesRead + 1) { s with readPos := (s.readPos + 1) % BUFFER_SIZE }
      (Function.update userBuf bytesRead (s.inputBuffer s.readPos)) r chunk) :
    Takes (left + 1) bytesRead s userBuf r (s.inputBuffer s.readPos :: chunk) := by
  have hpop : s.unread = s.inputBuffer s.readPos ::
      Keyboard.unread { s with readPos := (s.readPos + 1) % BUFFER_SIZE } := ring_pop hr hw hend
  refine ⟨?_, ?_, ?_, fun i hi ↦ ?_, fun a ha ↦ ?_, Nat.succ_le_succ h.le, ?_⟩
  · rw [hpop, h.unread, List.cons_append]
  · obtain ⟨pos, hpos, hstate⟩ := h.state
    exact ⟨pos, hpos, hstate⟩
  · rw [h.count, List.length_cons]
    omega
  · cases i with
    | zero =>
      -- the later turns store behind the byte of this one
      have hfirst := h.others bytesRead (Or.inl (Nat.lt_succ_self _))
      exact hfirst.trans (Function.update_self bytesRead _ userBuf)
    | succ i =>
      have hstored := h.stored i (Nat.lt_of_succ_lt_succ hi)
      rw [show bytesRead + (i + 1) = bytesRead + 1 + i by omega, hstored]
      rfl
  · rw [List.length_cons] at ha
    rw [h.others a (by omega)]
    exact Function.update_of_ne (by omega) _ _
  · cases h.stops with
    | newline l hl heq =>
      refine .newline (s.inputBuffer s.readPos :: l) ?_ (by rw [heq, List.cons_append])
      simp [Ne.symm hc, hl]
    | full hnone heq => exact .full (by simp [Ne.symm hc, hnone]) (by rw [List.length_cons, heq])
    | empty hnone heq => exact .empty (by simp [Ne.symm hc, hnone]) heq

/-- A turn that takes a newline is the last. -/
theorem Takes.newline {left bytesRead : Nat} {s : Keyboard} (userBuf : Bytes)
    (hr : s.readPos < 256) (hw : s.writePos < 256) (hend : s.readPos ≠ s.writePos)
    (hc : s.inputBuffer s.readPos = charNewline) :
    Takes (left + 1) bytesRead s userBuf ({ s with readPos := (s.readPos + 1) % BUFFER_SIZE },
      Function.update userBuf bytesRead (s.inputBuffer s.readPos), bytesRead + 1)
      [s.inputBuffer s.readPos] := by
  refine ⟨ring_pop hr hw hend, ⟨_, Nat.mod_lt _ (by decide), rfl⟩, rfl, fun i hi ↦ ?_, fun a ha ↦ ?_,
    Nat.succ_le_succ (Nat.zero_le _), .newline [] List.not_mem_nil (by rw [hc]; rfl)⟩
  · have hi0 : i = 0 := by simpa using hi
    subst hi0
    exact Function.update_self _ _ _
  · rw [List.length_singleton] at ha
    exact Function.update_of_ne (by omega) _ _

-- Induction on the count that is left; the ring gets shorter by a byte a turn.
theorem readLoop_takes (left : Nat) {bytesRead : Nat} {s : Keyboard} {userBuf : Bytes}
    (hr : s.readPos < 256) (hw : s.writePos < 256) :
    ∃ chunk, Takes left bytesRead s userBuf (readLoop left bytesRead s userBuf) chunk := by
  induction left generalizing bytesRead s userBuf with
  | zero => exact ⟨[], .nil hr (.full List.not_mem_nil rfl)⟩
  | succ left ih =>
    rw [readLoop]
    by_cases hend : s.readPos = s.writePos
    · rw [if_pos hend]
      exact ⟨[], .nil hr (.empty List.not_mem_nil ((ring_eq_nil_iff hr hw).mpr hend))⟩
    rw [if_neg hend]
    by_cases hc : s.inputBuffer s.readPos = charNewline
    · simp only [if_pos hc]
      exact ⟨_, .newline userBuf hr hw hend hc⟩
    · simp only [if_neg hc]
      have hnext : (s.readPos + 1) % BUFFER_SIZE < 256 := Nat.mod_lt _ (by decide)
      let rest : Keyboard := { s with readPos := (s.readPos + 1) % BUFFER_SIZE }
      let stored := Function.update userBuf bytesRead (s.inputBuffer s.readPos)
      obtain ⟨chunk, h⟩ : ∃ chunk, Takes left (bytesRead + 1) rest stored
          (readLoop left (bytesRead + 1) rest stored) chunk := ih hnext hw
      exact ⟨_, .cons hr hw hend hc h⟩

end Keyboard

end TenOs.Drivers
