import TenOs.Base.Run
import TenOs.Drivers.Terminal

/-!
# The bounds of video memory

`print_char` only tests whether the cursor has gone past the end of the screen.  A backspace in the
first cell goes past its start: it writes in front of video memory, and the cell number that is stored
is that of no cell.
-/

namespace TenOs.Drivers

open TenOs.Base TenOs.Lib

inductive ConsoleCall
  | clearScreen
  | putChar (a attr : u8)

namespace Screen

def consoleStep (s : Screen) : ConsoleCall → Screen
  | .clearScreen => s.clearScreen
  | .putChar a attr => s.putChar a attr

@[simp] theorem consoleStep_clearScreen (s : Screen) :
    s.consoleStep .clearScreen = s.clearScreen := rfl

@[simp] theorem consoleStep_putChar (s : Screen) (a attr : u8) :
    s.consoleStep (.putChar a attr) = s.putChar a attr := rfl

/-- The call is no backspace in the first cell. -/
def StaysOn (s : Screen) : ConsoleCall → Prop
  | .clearScreen => True
  | .putChar a _ => ¬ (a = 0x08 ∧ s.cursor = 0)

/-- Whatever memory holds, the call leaves all of it alone but the 4000 bytes from `VIDEO_ADDRESS`:
no byte elsewhere is written, not even with the value it had. -/
def WritesVideo (s : Screen) (c : ConsoleCall) : Prop :=
  ∀ mem, WithinVideo { s with mem := mem } (consoleStep { s with mem := mem } c)

/-! ## Clearing -/

theorem clearScreen_spec (s : Screen) :
    s.clearScreen.mem = forLoop clearTurn (MAX_COLS * MAX_ROWS) 0 s.mem ∧
      s.clearScreen.cursor = 0 := by
  have hfirst : getOffset 0 0 = ((2 * 0 : Nat) : Int) := rfl
  obtain ⟨hmem, hcursor⟩ := setCursorOffset_spec
    { s with mem := forLoop clearTurn (MAX_COLS * MAX_ROWS) 0 s.mem } (k := 0) (by decide)
  dsimp only at hmem
  rw [clearScreen, hfirst]
  exact ⟨hmem, hcursor⟩

-- Every turn clears the two bytes of one cell.
theorem clearScreen_withinVideo (s : Screen) : s.WithinVideo s.clearScreen := by
  intro a ha
  rw [s.clearScreen_spec.1]
  let inv (_ : Nat) (m : Bytes) : Prop := m a = s.mem a
  have hstart : inv 0 s.mem := rfl
  refine forLoop_inv inv hstart fun i m _ hi hm ↦ ?_
  have hsize : MAX_COLS * MAX_ROWS = 2000 := rfl
  have hturn : clearTurn i m a = m a := by
    dsimp only [clearTurn]
    rw [Function.update_of_ne (by omega), Function.update_of_ne (by omega)]
  exact hturn.trans hm

/-! ## Backspace -/

theorem placeChar_backspace (s : Screen) (k : Nat) (attr : u8) :
    s.placeChar ((2 * (k + 1) : Nat) : Int) 0x08 attr =
      ({ s with
          mem := Function.update (Function.update s.mem (VIDEO_ADDRESS + 2 * k) 0x20)
            (VIDEO_ADDRESS + 2 * k + 1) 0x0F }, ((2 * k : Nat) : Int)) := by
  have hoff : ((2 * (k + 1) : Nat) : Int) - 2 = ((2 * k : Nat) : Int) := by omega
  have hattr : videoAt (((2 * k : Nat) : Int) + 1) = VIDEO_ADDRESS + 2 * k + 1 :=
    videoAt_natCast (2 * k + 1)
  unfold placeChar
  rw [if_neg (by decide), if_pos rfl]
  dsimp only [setVideo]
  rw [hoff, videoAt_natCast, hattr]

-- Behind the first cell a backspace blanks the cell before the cursor and goes there.
theorem putChar_backspace {s : Screen} (h : s.cursor < 2000) (hpos : s.cursor ≠ 0) (attr : u8) :
    (s.putChar 0x08 attr).cursor < 2000 ∧ s.WithinVideo (s.putChar 0x08 attr) := by
  obtain ⟨k, hk⟩ := Nat.exists_eq_succ_of_ne_zero hpos
  rw [putChar_eq, hk, placeChar_backspace]
  obtain ⟨⟨hcursor, -⟩, hframe⟩ := advance_spec { s with
    select := 15
    mem := Function.update (Function.update s.mem (VIDEO_ADDRESS + 2 * k) 0x20)
      (VIDEO_ADDRESS + 2 * k + 1) 0x0F } (k := k) (by omega)
  refine ⟨hcursor, fun a ha ↦ (hframe a ha).trans ?_⟩
  dsimp only
  rw [Function.update_of_ne (by omega), Function.update_of_ne (by omega)]

/-- In the first cell it writes the two bytes in front of video memory. -/
theorem putChar_backspace_first {s : Screen} (h : s.cursor = 0) (attr : u8) :
    (s.putChar 0x08 attr).mem (VIDEO_ADDRESS - 2) = 0x20 := by
  have hplace (t : Screen) (attr : u8) : t.placeChar ((2 * 0 : Nat) : Int) 0x08 attr =
      ((t.setVideo (-2) 0x20).setVideo (-1) 0x0F, -2) := rfl
  have hscroll (t : Screen) : t.scroll (-2) = (t, -2) := rfl
  have hcursor (t : Screen) : (t.setCursorOffset (-2)).mem = t.mem := rfl
  have hchar : videoAt (-2) = VIDEO_ADDRESS - 2 := rfl
  have hattr : videoAt (-1) = VIDEO_ADDRESS - 1 := rfl
  rw [putChar_eq, h, hplace]
  dsimp only
  rw [hscroll]
  dsimp only
  rw [hcursor]
  dsimp only [setVideo]
  rw [hchar, hattr, Function.update_of_ne (by decide), Function.update_self]

/-! ## Every run of calls -/

/-- From a cell of the screen, exactly the calls that are no backspace in the first cell keep to video
memory and leave the cursor on the screen. -/
theorem staysOn_iff {s : Screen} (h : s.cursor < 2000) (c : ConsoleCall) :
    s.StaysOn c ↔ (s.consoleStep c).cursor < 2000 ∧ s.WritesVideo c := by
  cases c with
  | clearScreen =>
    simp only [WritesVideo, consoleStep_clearScreen, s.clearScreen_spec.2]
    exact ⟨fun _ ↦ ⟨by decide, fun mem ↦ clearScreen_withinVideo _⟩, fun _ ↦ trivial⟩
  | putChar a attr =>
    simp only [WritesVideo, consoleStep_putChar]
    constructor
    · intro hstay
      -- the memory does not matter for where the cursor is
      have hput (t : Screen) (ht : t.cursor = s.cursor) :
          (t.putChar a attr).cursor < 2000 ∧ t.WithinVideo (t.putChar a attr) := by
        have hlt : t.cursor < 2000 := by rwa [ht]
        by_cases hbs : a = 0x08
        · have hpos : t.cursor ≠ 0 := fun h0 ↦ hstay ⟨hbs, ht.symm.trans h0⟩
          rw [hbs]
          exact putChar_backspace hlt hpos attr
        · obtain ⟨⟨hcursor, -⟩, hframe⟩ := putChar_spec hlt hbs attr
          exact ⟨hcursor, hframe⟩
      exact ⟨(hput s rfl).1, fun mem ↦ (hput { s with mem := mem } rfl).2⟩
    · intro hwrites hfirst
      obtain ⟨rfl, h0⟩ := hfirst
      have hframe := hwrites.2 (fun _ ↦ 0) (VIDEO_ADDRESS - 2) (Or.inl (by decide))
      have hwritten : (Screen.putChar { s with mem := fun _ ↦ 0 } 0x08 attr).mem
          (VIDEO_ADDRESS - 2) = 0x20 :=
        putChar_backspace_first (s := { s with mem := fun _ ↦ 0 }) h0 attr
      rw [hwritten] at hframe
      have hzero : (0x20 : u8) = 0 := hframe
      exact absurd hzero (by decide)

/-- As long as no backspace is printed in the first cell, the cursor stays on the screen, and no call
writes outside video memory; the first such backspace does. -/
theorem keepsToVideo_of_run {s₀ s : Screen} (h₀ : s₀.cursor < 2000)
    (h : Run consoleStep StaysOn s₀ s) : s.cursor < 2000 ∧
      ∀ c, s.StaysOn c ↔ (s.consoleStep c).cursor < 2000 ∧ s.WritesVideo c := by
  have hcursor : s.cursor < 2000 :=
    h.inv (fun s ↦ s.cursor < 2000) h₀ fun s c hs hok ↦ ((staysOn_iff hs c).mp hok).1
  exact ⟨hcursor, staysOn_iff hcursor⟩

/-- An `A` on a blank screen, and the backspace that takes it back. -/
def erased : Screen := (blank.consoleStep (.putChar 0x41 0)).consoleStep (.putChar 0x08 0)

theorem keepsToVideo_blank : erased.cursor < 2000 ∧
    ∀ c, erased.StaysOn c ↔ (erased.consoleStep c).cursor < 2000 ∧ erased.WritesVideo c := by
  have hletter : blank.StaysOn (.putChar 0x41 0) := fun h ↦ absurd h.1 (by decide)
  have hcursor : (blank.consoleStep (.putChar 0x41 0)).cursor = 1 := by decide +kernel
  have hback : (blank.consoleStep (.putChar 0x41 0)).StaysOn (.putChar 0x08 0) :=
    fun h ↦ absurd (hcursor.symm.trans h.2) (by decide)
  exact keepsToVideo_of_run cursor_blank ((Run.start.step hletter).step hback)

/-- A backspace printed on a blank screen changes the byte in front of video memory and leaves the
cursor in cell 65535. -/
theorem not_keepsToVideo_blank : blank.cursor < 2000 ∧
    ¬ (blank.putChar 0x08 0).cursor < 2000 ∧ ¬ blank.WithinVideo (blank.putChar 0x08 0) := by
  refine ⟨cursor_blank, by decide +kernel, fun h ↦ ?_⟩
  have hframe := h (VIDEO_ADDRESS - 2) (Or.inl (by decide))
  rw [putChar_backspace_first (by decide)] at hframe
  exact absurd hframe (by decide)

end Screen

end TenOs.Drivers
