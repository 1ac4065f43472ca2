import Mathlib.Logic.Function.Basic
import TenOs.Base.Word

/-!
# Memories as functions

A memory is a function from addresses to cells, seen from some base address on.  This file has the
block operations (copy, fill), the little-endian 16- and 32-bit words of a byte memory, and the
footprint of an operation: the addresses it reads and the addresses it writes.
-/

namespace TenOs.Base

variable {α γ : Type}

/-- The bytes from some base address on. -/
abbrev Bytes := Nat → BitVec 8

/-! ## Blocks -/

/-- Copy `n` cells of `src` from `s` on to `dst` from `d` on, lowest address first. -/
def copyCells (dst : Nat → α) (d : Nat) (src : Nat → α) (s : Nat) : Nat → Nat → α
  | 0 => dst
  | n + 1 => Function.update (copyCells dst d src s n) (d + n) (src (s + n))

-- The source is a map of its own, so the order of the copies does not show.
theorem copyCells_apply (dst src : Nat → α) (d s n a : Nat) :
    copyCells dst d src s n a = if d ≤ a ∧ a < d + n then src (s + (a - d)) else dst a := by
  induction n with
  | zero => rw [if_neg (by omega)]; rfl
  | succ n ih =>
    rw [copyCells, Function.update_apply, ih]
    by_cases ha : a = d + n
    · rw [if_pos ha, if_pos (by omega), ha, Nat.add_sub_cancel_left]
    · rw [if_neg ha]
      by_cases hin : d ≤ a ∧ a < d + n
      · rw [if_pos hin, if_pos (by omega)]
      · rw [if_neg hin, if_neg (by omega)]

theorem copyCells_inside (dst src : Nat → α) {d s n i : Nat} (h : i < n) :
    copyCells dst d src s n (d + i) = src (s + i) := by
  rw [copyCells_apply, if_pos (by omega), Nat.add_sub_cancel_left]

theorem copyCells_outside (dst src : Nat → α) {d s n a : Nat} (h : a < d ∨ d + n ≤ a) :
    copyCells dst d src s n a = dst a := by
  rw [copyCells_apply, if_neg (by omega)]

/-- Store `v` in the `n` cells from `d` on. -/
def fillCells (dst : Nat → α) (d : Nat) (v : α) : Nat → Nat → α
  | 0 => dst
  | n + 1 => Function.update (fillCells dst d v n) (d + n) v

theorem fillCells_apply (dst : Nat → α) (d : Nat) (v : α) (n a : Nat) :
    fillCells dst d v n a = if d ≤ a ∧ a < d + n then v else dst a := by
  induction n with
  | zero => rw [if_neg (by omega)]; rfl
  | succ n ih =>
    rw [fillCells, Function.update_apply, ih]
    by_cases ha : a = d + n
    · rw [if_pos ha, if_pos (by omega)]
    · rw [if_neg ha]
      by_cases hin : d ≤ a ∧ a < d + n
      · rw [if_pos hin, if_pos (by omega)]
      · rw [if_neg hin, if_neg (by omega)]

/-! ## Little-endian words -/

def read16 (m : Bytes) (a : Nat) : BitVec 16 := m (a + 1) ++ m a

def write16 (m : Bytes) (a : Nat) (v : BitVec 16) : Bytes :=
  Function.update (Function.update m a (v.extractLsb' 0 8)) (a + 1) (v.extractLsb' 8 8)

def read32 (m : Bytes) (a : Nat) : BitVec 32 := read16 m (a + 2) ++ read16 m a

def write32 (m : Bytes) (a : Nat) (v : BitVec 32) : Bytes :=
  write16 (write16 m a (v.extractLsb' 0 16)) (a + 2) (v.extractLsb' 16 16)

theorem read16_toNat (m : Bytes) (a : Nat) :
    (read16 m a).toNat = (m (a + 1)).toNat * 256 + (m a).toNat :=
  toNat_append_eq _ _

theorem write16_apply (m : Bytes) (a : Nat) (v : BitVec 16) (i : Nat) :
    write16 m a v i =
      if i = a + 1 then v.extractLsb' 8 8 else if i = a then v.extractLsb' 0 8 else m i := by
  rw [write16, Function.update_apply, Function.update_apply]

theorem write16_outside (m : Bytes) (v : BitVec 16) {a i : Nat} (h : i < a ∨ a + 2 ≤ i) :
    write16 m a v i = m i := by
  rw [write16_apply, if_neg (by omega), if_neg (by omega)]

@[simp] theorem read16_write16 (m : Bytes) (a : Nat) (v : BitVec 16) :
    read16 (write16 m a v) a = v := by
  rw [read16, write16_apply, if_pos rfl, write16_apply, if_neg (by omega), if_pos rfl]
  ext i hi
  simp only [BitVec.getElem_append, BitVec.getElem_extractLsb']
  split
  · rw [Nat.zero_add, BitVec.getLsbD_eq_getElem hi]
  · rw [show 8 + (i - 8) = i by omega, BitVec.getLsbD_eq_getElem hi]

theorem read16_congr {m m' : Bytes} {a : Nat} (h : ∀ i, a ≤ i → i < a + 2 → m i = m' i) :
    read16 m a = read16 m' a := by
  rw [read16, read16, h a (by omega) (by omega), h (a + 1) (by omega) (by omega)]

theorem read32_congr {m m' : Bytes} {a : Nat} (h : ∀ i, a ≤ i → i < a + 4 → m i = m' i) :
    read32 m a = read32 m' a := by
  rw [read32, read32, read16_congr fun i h1 h2 ↦ h i (by omega) (by omega),
    read16_congr (a := a) fun i h1 h2 ↦ h i (by omega) (by omega)]

-- A double word is made of four bytes, wherever they are.
theorem read32_shift {m m' : Bytes} {a b : Nat} (h : ∀ j < 4, m (a + j) = m' (b + j)) :
    read32 m a = read32 m' b := by
  have h0 := h 0 (by decide)
  have h1 := h 1 (by decide)
  have h2 := h 2 (by decide)
  have h3 := h 3 (by decide)
  simp only [Nat.add_zero] at h0
  simp only [read32, read16, Nat.add_assoc, Nat.reduceAdd, h0, h1, h2, h3]

/-- Bit `j` of a word is bit `j % 8` of its byte `j / 8`. -/
theorem read32_getLsbD (m : Bytes) (a : Nat) {j : Nat} (hj : j < 32) :
    (read32 m a).getLsbD j = (m (a + j / 8)).getLsbD (j % 8) := by
  unfold read32 read16
  rw [BitVec.getLsbD_append, BitVec.getLsbD_append, BitVec.getLsbD_append]
  have hbyte : j / 8 = 0 ∨ j / 8 = 1 ∨ j / 8 = 2 ∨ j / 8 = 3 := by omega
  rcases hbyte with h | h | h | h
  · rw [h, if_pos (by omega), if_pos (by omega), Nat.mod_eq_of_lt (by omega), Nat.add_zero]
  · rw [h, if_pos (by omega), if_neg (by omega), show j - 8 = j % 8 by omega]
  · rw [h, if_neg (by omega), if_pos (by omega), show j - 16 = j % 8 by omega]
  · rw [h, if_neg (by omega), if_neg (by omega), show j - 16 - 8 = j % 8 by omega, Nat.add_assoc]

theorem write32_outside (m : Bytes) (v : BitVec 32) {a i : Nat} (h : i < a ∨ a + 4 ≤ i) :
    write32 m a v i = m i := by
  rw [write32, write16_outside _ _ (by omega), write16_outside _ _ (by omega)]

@[simp] theorem read32_write32 (m : Bytes) (a : Nat) (v : BitVec 32) :
    read32 (write32 m a v) a = v := by
  have hlow : read16 (write32 m a v) a = v.extractLsb' 0 16 := by
    -- the high half is stored above the low one
    have hkeep : read16 (write32 m a v) a = read16 (write16 m a (v.extractLsb' 0 16)) a :=
      read16_congr fun i h1 h2 ↦ write16_outside _ _ (by omega)
    rw [hkeep, read16_write16]
  rw [read32, hlow, write32, read16_write16]
  ext i hi
  simp only [BitVec.getElem_append, BitVec.getElem_extractLsb']
  split
  · rw [Nat.zero_add, BitVec.getLsbD_eq_getElem hi]
  · rw [show 16 + (i - 16) = i by omega, BitVec.getLsbD_eq_getElem hi]

/-! ## Footprints -/

/-- `f` reads address `a`: some change of that one cell changes the result. -/
def Reads (f : (Nat → α) → γ) (a : Nat) : Prop :=
  ∃ m v, f (Function.update m a v) ≠ f m

/-- `f` writes address `a`: it leaves another value there than it found, on some memory. -/
def Writes (f : (Nat → α) → Nat → α) (a : Nat) : Prop :=
  ∃ m, f m a ≠ m a

/-- An operation that reads only addresses meeting `p` gives the same result on memories that agree
there. -/
theorem not_reads_of_congr {f : (Nat → α) → γ} {p : Nat → Prop}
    (h : ∀ m m', (∀ a, p a → m a = m' a) → f m = f m') {a : Nat} (ha : ¬ p a) : ¬ Reads f a := by
  rintro ⟨m, v, hne⟩
  apply hne
  apply h
  intro b hb
  have hne : b ≠ a := by rintro rfl; exact ha hb
  exact Function.update_of_ne hne _ _

end TenOs.Base
