import TenOs.Drivers.LineEditor
import TenOs.Drivers.VideoBounds

/-!
# The line on the screen

`keyboard_callback` echoes what it does to the line through `put_char`.  Key presses, reads and the
output of the rest of the kernel in any order: as long as such output comes while the line is empty,
the cells in front of the cursor show the line, over the ends of rows and over scrolling, and no echo
leaves video memory.
-/

namespace TenOs.Drivers

open TenOs.Base TenOs.Lib

/-! ## Cells by number -/

namespace Screen

/-- The character and the attribute in cell `k`. -/
def cell (s : Screen) (k : Nat) : u8 × u8 :=
  (s.mem (VIDEO_ADDRESS + 2 * k), s.mem (VIDEO_ADDRESS + 2 * k + 1))

theorem cell_congr {s t : Screen} (h : s.mem = t.mem) (k : Nat) : s.cell k = t.cell k := by
  rw [cell, cell, h]

theorem cell_scrolled {s t : Screen} (h : t.mem = scrolledMem s.mem) {k : Nat} (hk : k < 1920) :
    t.cell k = s.cell (k + 80) := by
  have hbyte (i : Nat) (hi : i < 2) : t.mem (VIDEO_ADDRESS + 2 * k + i) =
      s.mem (VIDEO_ADDRESS + 2 * (k + 80) + i) := by
    rw [h]
    unfold scrolledMem
    rw [if_neg (by omega), if_pos (by omega)]
    exact congrArg s.mem (by omega)
  exact Prod.ext (hbyte 0 (by decide)) (hbyte 1 (by decide))

theorem cell_stored {s t : Screen} {k : Nat} {c attr : u8}
    (h : t.mem = Function.update (Function.update s.mem (VIDEO_ADDRESS + 2 * k) c)
      (VIDEO_ADDRESS + 2 * k + 1) attr) (j : Nat) :
    t.cell j = if j = k then (c, attr) else s.cell j := by
  rw [cell, cell, h]
  by_cases hj : j = k
  · rw [if_pos hj, hj, Function.update_of_ne (by omega), Function.update_self, Function.update_self]
  · rw [if_neg hj]
    simp only [Function.update_apply]
    rw [if_neg (by omega), if_neg (by omega), if_neg (by omega), if_neg (by omega)]

-- What `print_char` does when it has stored the character and moved to cell `k`: at the end of the
-- screen everything is 80 cells further up.
theorem advance_cells (s : Screen) {k : Nat} (hk : k ≤ 2000) :
    let r := s.scroll ((2 * k : Nat) : Int)
    ∃ d, (r.1.setCursorOffset r.2).cursor + d = k ∧ (r.1.setCursorOffset r.2).cursor < 2000 ∧
      (k < 2000 → d = 0) ∧ (k = 2000 → d = 80) ∧
      ∀ j < k - d, (r.1.setCursorOffset r.2).cell j = s.cell (j + d) := by
  rw [scroll_spec]
  by_cases hfull : 2000 ≤ k
  · rw [if_pos hfull]
    obtain ⟨hmem, hcursor⟩ :=
      setCursorOffset_spec { s with mem := scrolledMem s.mem } (k := k - 80) (by omega)
    dsimp only at hmem hcursor ⊢
    refine ⟨80, by omega, by omega, fun h ↦ by omega, fun _ ↦ rfl, fun j hj ↦ ?_⟩
    exact cell_scrolled hmem (by omega)
  · rw [if_neg hfull]
    obtain ⟨hmem, hcursor⟩ := setCursorOffset_spec s (k := k) (by omega)
    dsimp only
    refine ⟨0, (Nat.add_zero _).trans hcursor, by omega, fun _ ↦ rfl, fun h ↦ by omega, fun j _ ↦ ?_⟩
    rw [Nat.add_zero]
    exact cell_congr hmem j

/-- A character goes to the cell of the cursor, and the cursor comes to stand behind it. -/
theorem putChar_cells {s : Screen} (h : s.cursor < 2000) {c : u8} (hnl : c ≠ 0x0A) (hbs : c ≠ 0x08)
    {attr : u8} (hattr : attr ≠ 0) :
    ∃ d, (s.putChar c attr).cursor + d = s.cursor + 1 ∧ (s.putChar c attr).cursor < 2000 ∧
      (s.cursor < 1999 → d = 0) ∧ (s.cursor = 1999 → d = 80) ∧
      ∀ j < s.cursor + 1 - d, (s.putChar c attr).cell j =
        if j + d = s.cursor then (c, attr) else s.cell (j + d) := by
  rw [putChar_eq, if_neg hattr, placeChar_char _ _ hnl hbs]
  obtain ⟨d, hcursor, hlt, hzero, hfull, hcells⟩ := advance_cells { s with
    select := 15
    mem := Function.update (Function.update s.mem (VIDEO_ADDRESS + 2 * s.cursor) c)
      (VIDEO_ADDRESS + 2 * s.cursor + 1) attr } (k := s.cursor + 1) (by omega)
  refine ⟨d, hcursor, hlt, fun h ↦ hzero (by omega), fun h ↦ hfull (by omega), fun j hj ↦ ?_⟩
  exact (hcells j hj).trans (cell_stored rfl (j + d))

/-- A backspace takes the cursor back and blanks the cell. -/
theorem putChar_backspace_cells {s : Screen} {k : Nat} (hk : s.cursor = k + 1) (h : k < 2000)
    (attr : u8) :
    (s.putChar 0x08 attr).cursor = k ∧
      ∀ j < k, (s.putChar 0x08 attr).cell j = s.cell j := by
  rw [putChar_eq, hk, placeChar_backspace]
  obtain ⟨d, hcursor, -, hzero, -, hcells⟩ := advance_cells { s with
    select := 15
    mem := Function.update (Function.update s.mem (VIDEO_ADDRESS + 2 * k) 0x20)
      (VIDEO_ADDRESS + 2 * k + 1) 0x0F } (k := k) (by omega)
  obtain rfl := hzero h
  refine ⟨(Nat.add_zero _).symm.trans hcursor, fun j hj ↦ (hcells j hj).trans ?_⟩
  rw [cell_stored (s := s) (t := { s with
    select := 15
    mem := Function.update (Function.update s.mem (VIDEO_ADDRESS + 2 * k) 0x20)
      (VIDEO_ADDRESS + 2 * k + 1) 0x0F }) rfl, if_neg (by omega), Nat.add_zero]

end Screen

/-! ## What the handler prints -/

/-- The line and the echo of a byte from port `0x60`. -/
inductive Echo (s s' : Keyboard) : Prop
  | quiet (line : s'.line = s.line) (printed : s'.printed = s.printed)
  | newline (line : s'.line = []) (printed : s'.printed = s.printed ++ [charNewline])
  | backspace (hpos : 0 < s.linePos) (line : s'.line = s.line.dropLast)
      (printed : s'.printed = s.printed ++ [charBackspace])
  | char (c : u8) (hnewline : c ≠ charNewline) (hback : c ≠ charBackspace) (hroom : s.linePos < 255)
      (line : s'.line = s.line ++ [c]) (printed : s'.printed = s.printed ++ [c])

theorem typeChar_echo {s : Keyboard} (h : s.Valid) (c : u8) : Echo s (s.typeChar c) := by
  rw [Keyboard.typeChar]
  by_cases hnewline : c = charNewline
  · rw [if_pos hnewline]
    obtain ⟨buf, hstores, -⟩ := putLoop_stores (s := s.printk charNewline) h.writePos_lt
      (Nat.le_of_lt h.linePos_lt)
    have hcommit : (s.printk charNewline).commitLine.printed = s.printed ++ [charNewline] := by
      rw [Keyboard.commitLine]
      change (Keyboard.putByte (forLoop _ s.linePos 0 _) charNewline).printed = _
      rw [hstores]
      rfl
    exact .newline rfl hcommit
  rw [if_neg hnewline]
  by_cases hback : c = charBackspace
  · rw [if_pos hback]
    by_cases hpos : s.linePos > 0
    · rw [if_pos hpos]
      exact .backspace hpos (Keyboard.line_backspace rfl rfl) rfl
    · rw [if_neg hpos]
      exact .quiet rfl rfl
  · rw [if_neg hback]
    by_cases hmapped : c ≠ charUnmapped
    · rw [if_pos hmapped]
      by_cases hroom : s.linePos < BUFFER_SIZE - 1
      · rw [if_pos hroom]
        exact .char c hnewline hback hroom (Keyboard.line_append rfl rfl) rfl
      · rw [if_neg hroom]
        exact .quiet rfl rfl
    · rw [if_neg hmapped]
      exact .quiet rfl rfl

theorem keyboardCallback_echo {s : Keyboard} (h : s.Valid) (data : u8) :
    Echo s (s.keyboardCallback data) := by
  simp only [Keyboard.keyboardCallback]
  split
  · exact .quiet rfl rfl
  split
  · exact .quiet rfl rfl
  split
  · exact .quiet rfl rfl
  split
  · exact .quiet rfl rfl
  split
  · exact .quiet rfl rfl
  · exact typeChar_echo h _

/-! ## Keyboard and screen -/

structure Desk where
  kbd : Keyboard
  screen : Screen

/-- A byte from port `0x60`, a call of `keyboard_read`, and other output. -/
inductive DeskEvent
  | key (data : u8)
  | read (userBuf : Bytes) (count : u32)
  | print (c : ConsoleCall)

namespace Desk

/-- The characters that the handler prints for `data`. -/
def echo (s : Keyboard) (data : u8) : List u8 :=
  (s.keyboardCallback data).printed.drop s.printed.length

def step (s : Desk) : DeskEvent → Desk
  | .key data =>
      { kbd := s.kbd.keyboardCallback data
        screen := s.screen.putChars ((echo s.kbd data).map fun c ↦ (c, WHITE_ON_BLACK)) }
  | .read userBuf count => { s with kbd := (s.kbd.keyboardRead userBuf count).1 }
  | .print c => { s with screen := s.screen.consoleStep c }

/-- Other output comes while the line is empty, and with no backspace in the first cell. -/
def ok (s : Desk) : DeskEvent → Prop
  | .print c => s.kbd.linePos = 0 ∧ s.screen.StaysOn c
  | _ => True

/-- The cells in front of the cursor are the line. -/
structure Shows (s : Desk) : Prop where
  cursor_lt : s.screen.cursor < 2000
  le : s.kbd.linePos ≤ s.screen.cursor
  cells : ∀ i (h : i < s.kbd.line.length),
    s.screen.cell (s.screen.cursor - s.kbd.linePos + i) = (s.kbd.line[i], WHITE_ON_BLACK)

variable {s : Desk}

theorem Shows.of_empty {s : Desk} (hline : s.kbd.line = []) (hcursor : s.screen.cursor < 2000) :
    s.Shows := by
  have hlen := s.kbd.line_length
  refine ⟨hcursor, ?_, fun i hi ↦ ?_⟩
  · rw [hline, List.length_nil] at hlen
    omega
  · rw [hline] at hi
    exact absurd hi (Nat.not_lt_zero i)

theorem Shows.quiet (h : s.Shows) {kbd : Keyboard} (hline : kbd.line = s.kbd.line) :
    Shows { s with kbd } := by
  have hlen := kbd.line_length
  rw [hline, s.kbd.line_length] at hlen
  refine ⟨h.cursor_lt, ?_, fun i hi ↦ ?_⟩
  · dsimp only
    rw [← hlen]
    exact h.le
  · dsimp only at hi ⊢
    simp only [hline] at hi ⊢
    rw [← hlen]
    exact h.cells i hi

-- The cell of the erased character is the first one behind the cursor.
theorem Shows.backspace (h : s.Shows) {kbd : Keyboard} (hpos : 0 < s.kbd.linePos)
    (hline : kbd.line = s.kbd.line.dropLast) :
    Shows ⟨kbd, s.screen.putChar charBackspace WHITE_ON_BLACK⟩ := by
  have hlen := kbd.line_length
  rw [hline, List.length_dropLast, s.kbd.line_length] at hlen
  have hle := h.le
  have hlt := h.cursor_lt
  obtain ⟨hcursor, hcells⟩ := Screen.putChar_backspace_cells (s := s.screen)
    (k := s.screen.cursor - 1) (by omega) (by omega) WHITE_ON_BLACK
  refine ⟨?_, ?_, fun i hi ↦ ?_⟩
  · change (s.screen.putChar 0x08 WHITE_ON_BLACK).cursor < 2000
    omega
  · change kbd.linePos ≤ (s.screen.putChar 0x08 WHITE_ON_BLACK).cursor
    omega
  · have hi' : i < s.kbd.linePos - 1 := by rw [hlen, ← kbd.line_length]; exact hi
    change (s.screen.putChar 0x08 WHITE_ON_BLACK).cell
      ((s.screen.putChar 0x08 WHITE_ON_BLACK).cursor - kbd.linePos + i) = (kbd.line[i], _)
    have hold := h.cells i (by rw [s.kbd.line_length]; omega)
    rw [hcells _ (by omega), hcursor, ← hlen,
      show s.screen.cursor - 1 - (s.kbd.linePos - 1) + i = s.screen.cursor - s.kbd.linePos + i by
        omega, hold]
    simp only [hline, List.getElem_dropLast]

-- When the screen scrolls, the line goes up with it.
theorem Shows.char (h : s.Shows) {kbd : Keyboard} {c : u8} (hnl : c ≠ charNewline)
    (hbs : c ≠ charBackspace) (hroom : s.kbd.linePos < 255) (hline : kbd.line = s.kbd.line ++ [c]) :
    Shows ⟨kbd, s.screen.putChar c WHITE_ON_BLACK⟩ := by
  have hlen := kbd.line_length
  rw [hline, List.length_append, s.kbd.line_length, List.length_singleton] at hlen
  have hle := h.le
  have hlt := h.cursor_lt
  obtain ⟨d, hcursor, hnext, hzero, hfull, hcells⟩ :=
    Screen.putChar_cells hlt hnl hbs (show WHITE_ON_BLACK ≠ 0 by decide)
  have hd : d = 0 ∨ d = 80 ∧ s.screen.cursor = 1999 := by
    rcases Nat.lt_or_ge s.screen.cursor 1999 with hin | hend
    · exact Or.inl (hzero hin)
    · exact Or.inr ⟨hfull (by omega), by omega⟩
  refine ⟨hnext, ?_, fun i hi ↦ ?_⟩
  · dsimp only
    omega
  · have hi' : i < s.kbd.linePos + 1 := by rw [hlen, ← kbd.line_length]; exact hi
    dsimp only
    rw [hcells _ (by omega)]
    rcases Nat.lt_succ_iff_lt_or_eq.mp hi' with hold | hlast
    · -- a character that was there before
      have hcell := h.cells i (by rw [s.kbd.line_length]; exact hold)
      rw [if_neg (by omega), show (s.screen.putChar c WHITE_ON_BLACK).cursor - kbd.linePos + i + d =
        s.screen.cursor - s.kbd.linePos + i by omega, hcell]
      simp only [hline]
      rw [List.getElem_append_left (by rw [s.kbd.line_length]; exact hold)]
    · -- the new one
      rw [if_pos (by omega)]
      simp only [hline]
      rw [List.getElem_append_right (by rw [s.kbd.line_length]; omega)]
      simp

theorem putChars_one (screen : Screen) (c attr : u8) :
    screen.putChars [(c, attr)] = screen.putChar c attr := rfl

theorem echo_of_printed {s : Keyboard} {data : u8} {l : List u8}
    (h : (s.keyboardCallback data).printed = s.printed ++ l) : echo s data = l := by
  rw [echo, h, List.drop_left]

/-- A key keeps the line on the screen, and its echo within video memory. -/
theorem Shows.key (h : s.Shows) (hvalid : s.kbd.Valid) (data : u8) :
    (s.step (.key data)).Shows ∧ s.screen.WithinVideo (s.step (.key data)).screen := by
  have hecho := keyboardCallback_echo hvalid data
  rw [step]
  cases hecho with
  | quiet hline hprinted =>
    have hnone : echo s.kbd data = [] :=
      echo_of_printed (hprinted.trans (List.append_nil _).symm)
    rw [hnone]
    exact ⟨h.quiet hline, fun _ _ ↦ rfl⟩
  | newline hline hprinted =>
    rw [echo_of_printed hprinted, List.map_singleton, putChars_one]
    obtain ⟨⟨hcursor, -⟩, hframe⟩ :=
      Screen.putChar_spec h.cursor_lt (c := charNewline) (by decide) WHITE_ON_BLACK
    exact ⟨.of_empty hline hcursor, hframe⟩
  | backspace hpos hline hprinted =>
    rw [echo_of_printed hprinted, List.map_singleton, putChars_one]
    have hle := h.le
    exact ⟨h.backspace hpos hline,
      (Screen.putChar_backspace h.cursor_lt (by omega) WHITE_ON_BLACK).2⟩
  | char c hnl hbs hroom hline hprinted =>
    rw [echo_of_printed hprinted, List.map_singleton, putChars_one]
    exact ⟨h.char hnl hbs hroom hline, (Screen.putChar_spec h.cursor_lt hbs WHITE_ON_BLACK).2⟩

/-- From the empty line of the boot on, the line stands in front of the cursor, and whatever key comes
next, its echo keeps to video memory. -/
theorem shows_of_run {screen : Screen} (hcursor : screen.cursor < 2000)
    (hrun : Run step ok ⟨.boot, screen⟩ s) :
    s.Shows ∧ ∀ data, s.screen.WithinVideo (s.step (.key data)).screen := by
  have hboot : Shows ⟨.boot, screen⟩ := .of_empty rfl hcursor
  have hinv := hrun.inv (fun s ↦ s.Shows ∧ s.kbd.Valid) ⟨hboot, Keyboard.valid_boot⟩
    fun s event h hok ↦ by
      obtain ⟨hshows, hvalid⟩ := h
      cases event with
      | key data => exact ⟨(hshows.key hvalid data).1, hvalid.keyboardCallback data⟩
      | read userBuf count =>
        obtain ⟨pos, hpos, hread⟩ := keyboardRead_state hvalid userBuf count
        rw [step, hread]
        exact ⟨hshows.quiet rfl,
          ⟨hpos, hvalid.writePos_lt, hvalid.linePos_lt, hvalid.no_newline⟩⟩
      | print c =>
        obtain ⟨hempty, hstays⟩ := hok
        have hline : s.kbd.line = [] := by rw [Keyboard.line, hempty]; rfl
        exact ⟨.of_empty hline ((Screen.staysOn_iff hshows.cursor_lt c).mp hstays).1, hvalid⟩
  exact ⟨hinv.1, fun data ↦ (hinv.1.key hinv.2 data).2⟩

/-- A prompt of one character, and the letter `a` behind it. -/
theorem shows_letter :
    let s := (step ⟨.boot, Screen.blank⟩ (.print (.putChar 0x3E 0))).step (.key 0x1E)
    s.Shows ∧ ∀ data, s.screen.WithinVideo (s.step (.key data)).screen :=
  shows_of_run Screen.cursor_blank
    (.step (.step .start ⟨rfl, fun h ↦ absurd h.1 (by decide)⟩) trivial)

end Desk

end TenOs.Drivers
