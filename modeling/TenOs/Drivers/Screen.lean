import TenOs.Lib.Util

/-!
# `drivers/screen.c`

The console writes to video memory and keeps its cursor in two registers of the VGA controller, as
the number of a character cell.  Offsets are `int` in the source and stay far below its bound.
-/

namespace TenOs.Drivers

open TenOs.Base TenOs.Lib

def VIDEO_ADDRESS : Nat := 0xC00B8000
def MAX_ROWS : Nat := 25
def MAX_COLS : Nat := 80
def WHITE_ON_BLACK : u8 := 0x0F
def RED_ON_WHITE : u8 := 0xF4
def REG_SCREEN_CTRL : u16 := 0x3D4
def REG_SCREEN_DATA : u16 := 0x3D5

/-- The kernel's memory, and the VGA controller: the register that is selected, and all registers. -/
structure Screen where
  mem : Bytes
  select : u8
  regs : u8 → u8

/-! ## Offsets -/

def getOffset (col row : Int) : Int := 2 * (row * MAX_COLS + col)
def getOffsetRow (offset : Int) : Int := offset.tdiv (2 * MAX_COLS)
def getOffsetCol (offset : Int) : Int := (offset - getOffsetRow offset * 2 * MAX_COLS).tdiv 2

/-- `&vidmem[offset]`. -/
def videoAt (offset : Int) : Nat := (VIDEO_ADDRESS + offset).toNat

namespace Screen

/-! ## The cursor -/

def portByteOut (s : Screen) (port : u16) (data : u8) : Screen :=
  if port = REG_SCREEN_CTRL then { s with select := data }
  else if port = REG_SCREEN_DATA then { s with regs := Function.update s.regs s.select data }
  else s

/-- The console reads from `REG_SCREEN_DATA` only. -/
def portByteIn (s : Screen) : u8 := s.regs s.select

def getCursorOffset (s : Screen) : Screen × Int :=
  let s := s.portByteOut REG_SCREEN_CTRL 14
  let high : Int := s.portByteIn.toNat * 2 ^ 8
  let s := s.portByteOut REG_SCREEN_CTRL 15
  (s, (high + s.portByteIn.toNat) * 2)

def setCursorOffset (s : Screen) (offset : Int) : Screen :=
  let offset := offset.tdiv 2
  let s := s.portByteOut REG_SCREEN_CTRL 14
  let s := s.portByteOut REG_SCREEN_DATA (BitVec.ofInt 8 (offset / 2 ^ 8))
  let s := s.portByteOut REG_SCREEN_CTRL 15
  s.portByteOut REG_SCREEN_DATA (BitVec.ofInt 8 (offset % 2 ^ 8))

/-! ## Printing -/

/-- `vidmem[offset] = c`. -/
def setVideo (s : Screen) (offset : Int) (c : u8) : Screen :=
  { s with mem := Function.update s.mem (videoAt offset) c }

/-- The three cases of `print_char`: the screen and the new offset. -/
def placeChar (s : Screen) (offset : Int) (c attr : u8) : Screen × Int :=
  if c = 0x0A then (s, getOffset 0 (getOffsetRow offset + 1))
  else if c = 0x08 then
    let offset := offset - 2
    ((s.setVideo offset 0x20).setVideo (offset + 1) 0x0F, offset)
  else ((s.setVideo offset c).setVideo (offset + 1) attr, offset + 2)

/-- "Check if the offset is over screen size and scroll". -/
def scroll (s : Screen) (offset : Int) : Screen × Int :=
  if offset ≥ MAX_ROWS * MAX_COLS * 2 then
    let mem := forLoop (fun i mem ↦ memcpyWithin mem (videoAt (getOffset 0 ((i : Int) - 1)))
      (videoAt (getOffset 0 i)) (MAX_COLS * 2)) (MAX_ROWS - 1) 1 s.mem
    let mem := forLoop (fun i mem ↦
      Function.update mem (videoAt (getOffset 0 ((MAX_ROWS : Int) - 1)) + i) 0) (MAX_COLS * 2) 0 mem
    ({ s with mem := mem }, offset - 2 * MAX_COLS)
  else (s, offset)

/-- `print_char` with the offset it returns. -/
def printChar (s : Screen) (c : u8) (col row : Int) (attr : u8) : Screen × Int :=
  let attr := if attr = 0 then WHITE_ON_BLACK else attr
  if col ≥ MAX_COLS ∨ row ≥ MAX_ROWS then
    let last : Int := 2 * MAX_COLS * MAX_ROWS
    ((s.setVideo (last - 2) 0x45).setVideo (last - 1) RED_ON_WHITE, getOffset col row)
  else
    let r := if col ≥ 0 ∧ row ≥ 0 then (s, getOffset col row) else s.getCursorOffset
    let r := r.1.placeChar r.2 c attr
    let r := r.1.scroll r.2
    (r.1.setCursorOffset r.2, r.2)

def putChar (s : Screen) (a attr : u8) : Screen :=
  let attr := if attr = 0 then WHITE_ON_BLACK else attr
  (s.printChar a (-1) (-1) attr).1

/-- One turn of the loop of `clear_screen`: `screen[i*2]` and `screen[i*2+1]`. -/
def clearTurn (i : Nat) (mem : Bytes) : Bytes :=
  let mem := Function.update mem (VIDEO_ADDRESS + i * 2) 0x20
  Function.update mem (VIDEO_ADDRESS + (i * 2 + 1)) WHITE_ON_BLACK

def clearScreen (s : Screen) : Screen :=
  setCursorOffset { s with mem := forLoop clearTurn (MAX_COLS * MAX_ROWS) 0 s.mem } (getOffset 0 0)

/-! ## Cells -/

/-- The cell number in registers 14 and 15. -/
def cursor (s : Screen) : Nat := (s.regs 14).toNat * 256 + (s.regs 15).toNat

theorem getCursorOffset_eq (s : Screen) :
    s.getCursorOffset = ({ s with select := 15 }, ((2 * s.cursor : Nat) : Int)) := by
  have hsame : s.getCursorOffset =
      ({ s with select := 15 }, (((s.regs 14).toNat : Int) * 2 ^ 8 + (s.regs 15).toNat) * 2) := rfl
  rw [hsame, cursor]
  congr 1
  omega

-- The two bytes of the cell number, put together again.
theorem setCursorOffset_spec (s : Screen) {k : Nat} (hk : k < 2 ^ 16) :
    (s.setCursorOffset ((2 * k : Nat) : Int)).mem = s.mem ∧
      (s.setCursorOffset ((2 * k : Nat) : Int)).cursor = k := by
  have hcell : (((2 * k : Nat) : Int)).tdiv 2 = k := by
    rw [Int.tdiv_eq_ediv_of_nonneg (by omega)]
    omega
  have hregs : (s.setCursorOffset ((2 * k : Nat) : Int)).regs =
      Function.update (Function.update s.regs 14 (BitVec.ofInt 8 ((k : Int) / 2 ^ 8))) 15
        (BitVec.ofInt 8 ((k : Int) % 2 ^ 8)) := by
    simp only [setCursorOffset, hcell]
    rfl
  refine ⟨rfl, ?_⟩
  have hlow : (BitVec.ofInt 8 ((k : Int) % 2 ^ 8)).toNat = k % 256 := by
    rw [BitVec.toNat_ofInt]
    omega
  have hhigh : (BitVec.ofInt 8 ((k : Int) / 2 ^ 8)).toNat = k / 256 := by
    rw [BitVec.toNat_ofInt]
    omega
  rw [cursor, hregs, Function.update_self, Function.update_of_ne (by decide), Function.update_self,
    hlow, hhigh]
  omega

theorem videoAt_natCast (n : Nat) : videoAt (n : Int) = VIDEO_ADDRESS + n := by
  unfold videoAt
  omega

end Screen

end TenOs.Drivers
