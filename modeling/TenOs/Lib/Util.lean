import Mathlib.Data.List.GetD
import TenOs.Base.Loop
import TenOs.Base.Memory

/-!
# `lib/types.h` and `lib/util.c`

The kernel's integer types and its memory functions.  A pointer argument is modelled as the memory
from that pointer on; a block operation on `p + d` takes the memory at `p` and the offset `d`.
-/

namespace TenOs.Lib

open TenOs.Base

abbrev u8 := BitVec 8
abbrev u16 := BitVec 16
abbrev u32 := BitVec 32

/-- The memory from `p + off` on. -/
def pointerAt (p : Bytes) (off : Nat) : Bytes := fun i ↦ p (off + i)

/-- A `char` promoted to `int`: plain `char` is signed on the target. -/
def charToInt (c : u8) : Int := c.toInt

theorem charToInt_eq_zero_iff (c : u8) : charToInt c = 0 ↔ c = 0 := by
  rw [charToInt, ← BitVec.toInt_zero (w := 8)]
  exact BitVec.toInt_inj

/-- No promoted `char` reaches `0x80`, so none equals a constant from there on. -/
theorem charToInt_lt (c : u8) : charToInt c < 0x80 := by
  have h := BitVec.toInt_lt (x := c)
  rw [charToInt]
  simpa using h

def memcpy (dest : Bytes) (d : Nat) (source : Bytes) (s nbytes : Nat) : Bytes :=
  copyCells dest d source s nbytes

/-- `memcpy` where both pointers lead into one memory. -/
def memcpyWithin (mem : Bytes) (dest source nbytes : Nat) : Bytes :=
  forLoop (fun i mem ↦ Function.update mem (dest + i) (mem (source + i))) nbytes 0 mem

-- As long as the source starts behind the destination, no byte is stored before it is read.
theorem memcpyWithin_eq (mem : Bytes) {dest source : Nat} (h : dest ≤ source) (nbytes : Nat) :
    memcpyWithin mem dest source nbytes = copyCells mem dest mem source nbytes := by
  unfold memcpyWithin
  induction nbytes with
  | zero => rfl
  | succ n ih =>
    rw [forLoop_succ_last, ih, copyCells, Nat.zero_add, copyCells_outside _ _ (Or.inr (by omega))]

def memset (dest : Bytes) (d : Nat) (val : u8) (len : Nat) : Bytes := fillCells dest d val len

def memcmp (src dst : Bytes) (n : Nat) : Int :=
  (firstFrom (fun i ↦ if src i < dst i then some (-1) else if dst i < src i then some 1 else none)
    n 0).getD 0

-- The difference of two bytes is zero only when they are equal.
theorem memcmp_eq_zero_iff (src dst : Bytes) (n : Nat) :
    memcmp src dst n = 0 ↔ ∀ i < n, src i = dst i := by
  let body (i : Nat) : Option Int :=
    if src i < dst i then some (-1) else if dst i < src i then some 1 else none
  have hnone (i : Nat) : body i = none ↔ src i = dst i := by
    simp only [body]
    split
    · rename_i h
      simp only [reduceCtorEq, false_iff]
      rintro heq
      rw [heq] at h
      exact BitVec.lt_irrefl _ h
    · split
      · rename_i h
        simp only [reduceCtorEq, false_iff]
        rintro heq
        rw [heq] at h
        exact BitVec.lt_irrefl _ h
      · simp only [true_iff]
        exact BitVec.le_antisymm (BitVec.not_lt.mp ‹_›) (BitVec.not_lt.mp ‹_›)
  change (firstFrom body n 0).getD 0 = 0 ↔ _
  cases hf : firstFrom body n 0 with
  | none =>
    have hall := (firstFrom_eq_none_iff body n 0).mp hf
    simp only [Option.getD_none, true_iff]
    exact fun i hi ↦ (hnone i).mp (hall i (Nat.zero_le i) (by omega))
  | some b =>
    obtain ⟨i, -, hi, hb, -⟩ := (firstFrom_eq_some_iff body n 0 b).mp hf
    have hne : src i ≠ dst i := fun h ↦ by rw [(hnone i).mpr h] at hb; cases hb
    have hb0 : b ≠ 0 := by
      simp only [body] at hb
      split at hb
      · cases hb; decide
      · split at hb
        · cases hb; decide
        · cases hb
    simp only [Option.getD_some, hb0, false_iff]
    exact fun h ↦ hne (h i (by omega))

/-- A NUL-terminated string: the bytes from a `const char *` on, and where the NUL is.  The bytes
after the NUL are whatever memory holds there. -/
structure CString where
  byte : Bytes
  len : Nat
  nul : byte len = 0
  ne_nul : ∀ i < len, byte i ≠ 0

/-- The string literal with these characters, followed by zero bytes. -/
def CString.ofList (l : List u8) (h : ∀ c ∈ l, c ≠ 0) : CString where
  byte i := l.getD i 0
  len := l.length
  nul := List.getD_eq_default _ _ (Nat.le_refl _)
  ne_nul i hi := by
    rw [List.getD_eq_getElem _ _ hi]
    exact h _ (List.getElem_mem hi)

end TenOs.Lib
