import Mathlib.Tactic.Ring

/-!
# Machine words as numbers

The values of the bit operations that programs use to pick words apart and put them together.
-/

namespace TenOs.Base

variable {w v : Nat}

theorem toNat_append_eq (x : BitVec w) (y : BitVec v) :
    (x ++ y).toNat = x.toNat * 2 ^ v + y.toNat := by
  rw [BitVec.toNat_append, ← Nat.shiftLeft_add_eq_or_of_lt y.isLt, Nat.shiftLeft_eq]

/-- Masking with `2 ^ k - 1` keeps the low `k` bits. -/
theorem toNat_and_lowMask (x : BitVec w) {y : BitVec w} {k : Nat} (hy : y.toNat = 2 ^ k - 1) :
    (x &&& y).toNat = x.toNat % 2 ^ k := by
  rw [BitVec.toNat_and, hy, Nat.and_two_pow_sub_one_eq_mod]

theorem toNat_ushiftRight_eq (x : BitVec w) (k : Nat) : (x >>> k).toNat = x.toNat / 2 ^ k := by
  rw [BitVec.toNat_ushiftRight, Nat.shiftRight_eq_div_pow]

/-- Masking with the complement of `2 ^ k - 1` clears the low `k` bits. -/
theorem toNat_and_not_lowMask (x : BitVec w) {y : BitVec w} {k : Nat} (hy : y.toNat = 2 ^ k - 1) :
    (x &&& ~~~y).toNat = x.toNat / 2 ^ k * 2 ^ k := by
  have hsplit : x &&& ~~~y = (x >>> k) <<< k := by
    apply BitVec.eq_of_getLsbD_eq
    intro i hi
    have hmask : y.getLsbD i = decide (i < k) := by
      rw [BitVec.getLsbD, hy, Nat.testBit_two_pow_sub_one]
    rw [BitVec.getLsbD_and, BitVec.getLsbD_not, hmask, BitVec.getLsbD_shiftLeft,
      BitVec.getLsbD_ushiftRight]
    by_cases hik : i < k
    · simp only [hik, hi, decide_true, Bool.not_true, Bool.and_false, Bool.false_and]
    · simp only [hik, hi, decide_true, decide_false, Bool.not_false, Bool.and_true, Bool.true_and,
        show k + (i - k) = i by omega]
  have hle : x.toNat / 2 ^ k * 2 ^ k ≤ x.toNat := Nat.div_mul_le_self _ _
  rw [hsplit, BitVec.toNat_shiftLeft, Nat.shiftLeft_eq, BitVec.toNat_ushiftRight,
    Nat.shiftRight_eq_div_pow, Nat.mod_eq_of_lt (Nat.lt_of_le_of_lt hle x.isLt)]

theorem toNat_shiftLeft_eq (x : BitVec w) (k : Nat) :
    (x <<< k).toNat = x.toNat * 2 ^ k % 2 ^ w := by
  rw [BitVec.toNat_shiftLeft, Nat.shiftLeft_eq]

/-- Joining two words that have no bit in common adds them. -/
theorem toNat_or_of_lt {x y : BitVec w} {k : Nat} (hx : x.toNat % 2 ^ k = 0)
    (hy : y.toNat < 2 ^ k) : (x ||| y).toNat = x.toNat + y.toNat := by
  obtain ⟨q, hq⟩ := Nat.dvd_of_mod_eq_zero hx
  rw [BitVec.toNat_or, hq, Nat.mul_comm, ← Nat.shiftLeft_eq, Nat.shiftLeft_add_eq_or_of_lt hy]

end TenOs.Base
