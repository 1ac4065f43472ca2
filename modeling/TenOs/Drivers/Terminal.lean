import TenOs.Drivers.Screen

/-!
# The console as a terminal

A terminal of 25 rows and 80 columns that scrolls when it is full, and the proof that the console is
one as long as no backspace is printed.
-/

namespace TenOs.Drivers

open TenOs.Base TenOs.Lib

/-! ## The terminal -/

/-- The cells, as character and attribute, and the cell of the cursor. -/
@[ext]
structure Terminal where
  cell : Fin 25 → Fin 80 → u8 × u8
  row : Fin 25
  col : Fin 80

namespace Terminal

/-- Rows 1 to 24 move up by one, and the last row is blanked. -/
def scrolled (cell : Fin 25 → Fin 80 → u8 × u8) : Fin 25 → Fin 80 → u8 × u8 := fun r c ↦
  if h : r.val + 1 < 25 then cell ⟨r.val + 1, h⟩ c else (0, 0)

/-- The cursor goes to the start of the next row, which on the last row is made by scrolling. -/
def newline (t : Terminal) : Terminal :=
  if h : t.row.val + 1 < 25 then { t with row := ⟨t.row.val + 1, h⟩, col := 0 }
  else { cell := scrolled t.cell, row := t.row, col := 0 }

def put (t : Terminal) (c attr : u8) : Terminal :=
  if c = 0x0A then t.newline
  else
    let t := { t with cell := fun r k ↦ if r = t.row ∧ k = t.col then (c, attr) else t.cell r k }
    if h : t.col.val + 1 < 80 then { t with col := ⟨t.col.val + 1, h⟩ } else t.newline

/-- Attribute 0 stands for white on black. -/
def puts (t : Terminal) : List (u8 × u8) → Terminal
  | [] => t
  | (c, attr) :: rest => (t.put c (if attr = 0 then WHITE_ON_BLACK else attr)).puts rest

/-- The terminal that shows `cell` with its cursor in the cell numbered `k`, which scrolls when that
cell lies behind the last one. -/
def reach (cell : Fin 25 → Fin 80 → u8 × u8) (k : Nat) : Terminal :=
  if h : k < 2000 then ⟨cell, ⟨k / 80, by omega⟩, ⟨k % 80, Nat.mod_lt _ (by omega)⟩⟩
  else ⟨scrolled cell, 24, ⟨k % 80, Nat.mod_lt _ (by omega)⟩⟩

-- A newline goes to the cell that starts the next row.
theorem newline_eq_reach (t : Terminal) : t.newline = reach t.cell (80 * (t.row + 1)) := by
  unfold newline reach
  by_cases h : t.row.val + 1 < 25
  · rw [dif_pos h, dif_pos (by omega)]
    congr 1 <;> apply Fin.ext <;> simp
  · rw [dif_neg h, dif_neg (by omega)]
    congr 1 <;> apply Fin.ext
    · change t.row.val = 24
      omega
    · simp

-- A character goes to the next cell, in the next row at the end of one.
theorem put_eq_reach (t : Terminal) {c : u8} (hc : c ≠ 0x0A) (attr : u8) :
    t.put c attr =
      reach (fun r k ↦ if r = t.row ∧ k = t.col then (c, attr) else t.cell r k)
        (80 * t.row + t.col + 1) := by
  unfold put
  rw [if_neg hc]
  by_cases h : t.col.val + 1 < 80
  · -- the next cell is in the same row
    dsimp only
    rw [dif_pos h]
    unfold reach
    rw [dif_pos (by omega)]
    congr 1 <;> apply Fin.ext <;> dsimp only <;> omega
  · dsimp only
    rw [dif_neg h, newline_eq_reach]
    dsimp only
    congr 1
    omega

end Terminal

namespace Screen

/-- What video memory shows of the cell in row `r` and column `c`. -/
def cellAt (mem : Bytes) (r c : Nat) : u8 × u8 :=
  (mem (VIDEO_ADDRESS + 2 * (80 * r + c)), mem (VIDEO_ADDRESS + 2 * (80 * r + c) + 1))

/-- The terminal that the screen shows. -/
def terminal (s : Screen) (h : s.cursor < 2000) : Terminal where
  cell r c := cellAt s.mem r c
  row := ⟨s.cursor / 80, by omega⟩
  col := ⟨s.cursor % 80, by omega⟩

def putChars (s : Screen) : List (u8 × u8) → Screen
  | [] => s
  | (c, attr) :: rest => (s.putChar c attr).putChars rest

/-! ## Scrolling -/

-- Row by row from the top, so that each row is copied before it is overwritten.
theorem scroll_rows (mem : Bytes) :
    ∀ a, forLoop (fun i mem ↦ memcpyWithin mem (videoAt (getOffset 0 ((i : Int) - 1)))
        (videoAt (getOffset 0 i)) (MAX_COLS * 2)) (MAX_ROWS - 1) 1 mem a =
      if VIDEO_ADDRESS ≤ a ∧ a < VIDEO_ADDRESS + 3840 then mem (a + 160) else mem a := by
  let inv (i : Nat) (m : Bytes) : Prop := ∀ a, m a =
    if VIDEO_ADDRESS ≤ a ∧ a < VIDEO_ADDRESS + 160 * (i - 1) then mem (a + 160) else mem a
  have hstart : inv 1 mem := fun a ↦ (if_neg (by omega)).symm
  refine forLoop_inv inv hstart fun i m hlow hhigh hm a ↦ ?_
  have hdest : videoAt (getOffset 0 ((i : Int) - 1)) = VIDEO_ADDRESS + 160 * (i - 1) := by
    unfold videoAt getOffset MAX_COLS
    omega
  have hsource : videoAt (getOffset 0 i) = VIDEO_ADDRESS + 160 * i := by
    unfold videoAt getOffset MAX_COLS
    omega
  have hsize : MAX_COLS * 2 = 160 := rfl
  rw [hdest, hsource, hsize, memcpyWithin_eq _ (by omega), copyCells_apply]
  by_cases hin : VIDEO_ADDRESS + 160 * (i - 1) ≤ a ∧ a < VIDEO_ADDRESS + 160 * (i - 1) + 160
  · -- the row is copied from the next one, which is still the old one
    rw [if_pos hin, if_pos (by omega), hm, if_neg (by omega)]
    congr 1
    omega
  · rw [if_neg hin, hm]
    exact if_congr (by omega) rfl rfl

-- The last row is cleared byte by byte.
theorem scroll_blank (mem : Bytes) :
    ∀ a, forLoop (fun i mem ↦
        Function.update mem (videoAt (getOffset 0 ((MAX_ROWS : Int) - 1)) + i) 0) (MAX_COLS * 2) 0
        mem a =
      if VIDEO_ADDRESS + 3840 ≤ a ∧ a < VIDEO_ADDRESS + 4000 then 0 else mem a := by
  let inv (i : Nat) (m : Bytes) : Prop := ∀ a, m a =
    if VIDEO_ADDRESS + 3840 ≤ a ∧ a < VIDEO_ADDRESS + 3840 + i then 0 else mem a
  have hstart : inv 0 mem := fun a ↦ (if_neg (by omega)).symm
  refine forLoop_inv inv hstart fun i m _ _ hm a ↦ ?_
  have hlast : videoAt (getOffset 0 ((MAX_ROWS : Int) - 1)) = VIDEO_ADDRESS + 3840 := by
    unfold videoAt getOffset MAX_COLS MAX_ROWS
    omega
  rw [hlast, Function.update_apply]
  by_cases ha : a = VIDEO_ADDRESS + 3840 + i
  · rw [if_pos ha, if_pos (by omega)]
  · rw [if_neg ha, hm]
    exact if_congr (by omega) rfl rfl

/-- Video memory after a scroll. -/
def scrolledMem (mem : Bytes) : Bytes := fun a ↦
  if VIDEO_ADDRESS + 3840 ≤ a ∧ a < VIDEO_ADDRESS + 4000 then 0
  else if VIDEO_ADDRESS ≤ a ∧ a < VIDEO_ADDRESS + 3840 then mem (a + 160)
  else mem a

theorem scroll_spec (s : Screen) (k : Nat) : s.scroll ((2 * k : Nat) : Int) =
    if 2000 ≤ k then ({ s with mem := scrolledMem s.mem }, ((2 * (k - 80) : Nat) : Int))
    else (s, ((2 * k : Nat) : Int)) := by
  unfold scroll
  have hfull : ((2 * k : Nat) : Int) ≥ MAX_ROWS * MAX_COLS * 2 ↔ 2000 ≤ k := by
    unfold MAX_ROWS MAX_COLS
    omega
  by_cases hk : 2000 ≤ k
  · rw [if_pos (hfull.mpr hk), if_pos hk]
    have hmem := funext (scroll_blank (forLoop (fun i mem ↦ memcpyWithin mem
      (videoAt (getOffset 0 ((i : Int) - 1))) (videoAt (getOffset 0 i)) (MAX_COLS * 2))
        (MAX_ROWS - 1) 1 s.mem))
    simp only [hmem, scroll_rows, Prod.mk.injEq]
    constructor
    · rfl
    · unfold MAX_COLS
      omega
  · rw [if_neg (mt hfull.mp hk), if_neg hk]

theorem scrolledMem_outside (mem : Bytes) {a : Nat}
    (ha : a < VIDEO_ADDRESS ∨ VIDEO_ADDRESS + 4000 ≤ a) : scrolledMem mem a = mem a := by
  unfold scrolledMem
  rw [if_neg (by omega), if_neg (by omega)]

theorem cellAt_scrolledMem (mem : Bytes) (r : Fin 25) (c : Fin 80) :
    cellAt (scrolledMem mem) r c = Terminal.scrolled (fun r c ↦ cellAt mem r c) r c := by
  unfold Terminal.scrolled cellAt scrolledMem
  by_cases hlast : r.val + 1 < 25
  · rw [dif_pos hlast, if_neg (by omega), if_pos (by omega), if_neg (by omega), if_pos (by omega)]
    congr 2 <;> dsimp only <;> omega
  · rw [dif_neg hlast, if_pos (by omega), if_pos (by omega)]

/-- No byte is written outside video memory. -/
def WithinVideo (s s' : Screen) : Prop :=
  ∀ a, a < VIDEO_ADDRESS ∨ VIDEO_ADDRESS + 4000 ≤ a → s'.mem a = s.mem a

/-! ## One character -/

-- The last two steps of `print_char`, for a cursor at most one row behind the screen.
theorem advance_spec (s : Screen) {k : Nat} (hk : k < 2080) :
    let r := s.scroll ((2 * k : Nat) : Int)
    (∃ h, (r.1.setCursorOffset r.2).terminal h =
        Terminal.reach (fun r c ↦ cellAt s.mem r c) k) ∧
      s.WithinVideo (r.1.setCursorOffset r.2) := by
  rw [scroll_spec]
  by_cases hfull : 2000 ≤ k
  · -- the rows move up, and the reached cell is in the last one
    rw [if_pos hfull]
    obtain ⟨hmem, hcursor⟩ :=
      setCursorOffset_spec { s with mem := scrolledMem s.mem } (k := k - 80) (by omega)
    dsimp only at hmem hcursor ⊢
    refine ⟨⟨by omega, ?_⟩, fun a ha ↦ ?_⟩
    · unfold Terminal.reach terminal
      rw [dif_neg (by omega)]
      congr 1
      · funext r c
        rw [hmem, cellAt_scrolledMem]
      · apply Fin.ext
        change _ / 80 = 24
        omega
      · apply Fin.ext
        dsimp only
        omega
    · rw [hmem]
      exact scrolledMem_outside _ ha
  · -- the reached cell is on the screen
    rw [if_neg hfull]
    obtain ⟨hmem, hcursor⟩ := setCursorOffset_spec s (k := k) (by omega)
    dsimp only
    refine ⟨⟨by omega, ?_⟩, fun a _ ↦ congrFun hmem a⟩
    unfold Terminal.reach terminal
    rw [dif_pos (by omega)]
    simp only [hmem, hcursor]

theorem placeChar_newline (s : Screen) (k : Nat) (attr : u8) :
    s.placeChar ((2 * k : Nat) : Int) 0x0A attr = (s, ((2 * (80 * (k / 80 + 1)) : Nat) : Int)) := by
  unfold placeChar
  rw [if_pos rfl, getOffset, getOffsetRow, Int.tdiv_eq_ediv_of_nonneg (by omega)]
  unfold MAX_COLS
  congr 1
  omega

theorem placeChar_char (s : Screen) (k : Nat) {c : u8} (hnl : c ≠ 0x0A) (hbs : c ≠ 0x08)
    (attr : u8) :
    s.placeChar ((2 * k : Nat) : Int) c attr =
      ({ s with
          mem := Function.update (Function.update s.mem (VIDEO_ADDRESS + 2 * k) c)
            (VIDEO_ADDRESS + 2 * k + 1) attr }, ((2 * (k + 1) : Nat) : Int)) := by
  unfold placeChar
  have hattr : videoAt (((2 * k : Nat) : Int) + 1) = VIDEO_ADDRESS + 2 * k + 1 :=
    videoAt_natCast (2 * k + 1)
  rw [if_neg hnl, if_neg hbs, setVideo, setVideo, videoAt_natCast, hattr]
  congr 1

-- The two bytes stored are one cell.
theorem cellAt_store (mem : Bytes) (k : Nat) (c attr : u8) (r : Fin 25) (q : Fin 80) :
    cellAt (Function.update (Function.update mem (VIDEO_ADDRESS + 2 * k) c)
        (VIDEO_ADDRESS + 2 * k + 1) attr) r q =
      if r.val = k / 80 ∧ q.val = k % 80 then (c, attr) else cellAt mem r q := by
  unfold cellAt
  -- the cell with number `k` is the only one that has these two bytes
  by_cases hcell : r.val = k / 80 ∧ q.val = k % 80
  · have hpos : 80 * r.val + q.val = k := by omega
    rw [if_pos hcell, hpos, Function.update_of_ne (by omega), Function.update_self,
      Function.update_self]
  · rw [if_neg hcell]
    simp only [Function.update_apply]
    rw [if_neg (by omega), if_neg (by omega), if_neg (by omega), if_neg (by omega)]

/-- `put_char` prints in the cell of the cursor.  It replaces the attribute 0, so `print_char` finds
none to replace. -/
theorem putChar_eq (s : Screen) (c attr : u8) : s.putChar c attr =
    let r := Screen.placeChar { s with select := 15 } ((2 * s.cursor : Nat) : Int) c
      (if attr = 0 then WHITE_ON_BLACK else attr)
    let r := r.1.scroll r.2
    r.1.setCursorOffset r.2 := by
  rw [putChar]
  generalize hshown : (if attr = 0 then WHITE_ON_BLACK else attr) = shown
  have hattr : (if shown = 0 then WHITE_ON_BLACK else shown) = shown := by
    rw [← hshown]
    split_ifs <;> trivial
  rw [printChar, hattr, if_neg (by decide), if_neg (by decide), getCursorOffset_eq]

theorem putChar_spec {s : Screen} (h : s.cursor < 2000) {c : u8} (hbs : c ≠ 0x08) (attr : u8) :
    (∃ h', (s.putChar c attr).terminal h' =
        (s.terminal h).put c (if attr = 0 then WHITE_ON_BLACK else attr)) ∧
      s.WithinVideo (s.putChar c attr) := by
  have hput := s.putChar_eq c attr
  generalize (if attr = 0 then WHITE_ON_BLACK else attr) = shown at hput ⊢
  by_cases hnl : c = 0x0A
  · -- the cursor goes to the start of the next row
    subst hnl
    rw [hput, placeChar_newline]
    obtain ⟨⟨h', hterm⟩, hframe⟩ :=
      advance_spec { s with select := 15 } (k := 80 * (s.cursor / 80 + 1)) (by omega)
    have hput : (s.terminal h).put 0x0A shown = (s.terminal h).newline := if_pos rfl
    dsimp only at hterm hframe ⊢
    refine ⟨⟨h', ?_⟩, fun a ha ↦ hframe a ha⟩
    rw [hterm, hput, Terminal.newline_eq_reach]
    rfl
  · -- the cell is filled, and the cursor goes to the next one
    rw [hput, placeChar_char _ _ hnl hbs]
    obtain ⟨⟨h', hterm⟩, hframe⟩ := advance_spec { s with
      select := 15
      mem := Function.update (Function.update s.mem (VIDEO_ADDRESS + 2 * s.cursor) c)
        (VIDEO_ADDRESS + 2 * s.cursor + 1) shown } (k := s.cursor + 1) (by omega)
    refine ⟨⟨h', hterm.trans ?_⟩, fun a ha ↦ (hframe a ha).trans ?_⟩
    · have hpos : 80 * (s.terminal h).row.val + (s.terminal h).col.val = s.cursor :=
        Nat.div_add_mod s.cursor 80
      rw [Terminal.put_eq_reach _ hnl, hpos]
      congr 1
      funext r q
      dsimp only
      rw [cellAt_store]
      exact if_congr (by simp only [Fin.ext_iff, terminal]) rfl rfl
    · dsimp only
      rw [Function.update_of_ne (by omega), Function.update_of_ne (by omega)]

/-- Until a backspace is printed the console is the terminal, and it writes to nothing but video
memory. -/
theorem terminal_putChars {s : Screen} (h : s.cursor < 2000) {text : List (u8 × u8)}
    (hbs : ∀ c ∈ text, c.1 ≠ 0x08) :
    (∃ h', (s.putChars text).terminal h' = (s.terminal h).puts text) ∧
      s.WithinVideo (s.putChars text) := by
  -- every character leaves the cursor on the screen
  induction text generalizing s with
  | nil => exact ⟨⟨h, rfl⟩, fun _ _ ↦ rfl⟩
  | cons c rest ih =>
    obtain ⟨⟨hnext, hterm⟩, hframe⟩ := putChar_spec h (hbs c (List.mem_cons_self ..)) c.2
    obtain ⟨⟨hlast, hrest⟩, hframes⟩ := ih hnext fun d hd ↦ hbs d (List.mem_cons_of_mem _ hd)
    refine ⟨⟨hlast, hrest.trans ?_⟩, fun a ha ↦ (hframes a ha).trans (hframe a ha)⟩
    rw [hterm]
    rfl

/-! A blank screen and a line of one letter. -/

def blank : Screen where
  mem _ := 0
  select := 0
  regs _ := 0

theorem cursor_blank : blank.cursor < 2000 := by decide

theorem terminal_putChars_blank :
    (∃ h', (blank.putChars [(0x41, 0), (0x0A, 0)]).terminal h' =
        (blank.terminal cursor_blank).puts [(0x41, 0), (0x0A, 0)]) ∧
      blank.WithinVideo (blank.putChars [(0x41, 0), (0x0A, 0)]) :=
  terminal_putChars cursor_blank (by simp)

end Screen

end TenOs.Drivers
