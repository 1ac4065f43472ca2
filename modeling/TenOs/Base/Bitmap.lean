import Mathlib.Logic.Function.Basic
import Mathlib.Tactic.Common

/-!
# Bit sets in arrays of machine words

An array of `w`-bit words holds one bit for each natural number: bit `n` is bit `n % w` of word
`n / w`.
-/

namespace TenOs.Base

variable {w : Nat} {m : Nat → BitVec w}

/-- Bit `n` of the array. -/
def bitAt (m : Nat → BitVec w) (n : Nat) : Bool := (m (n / w)).getLsbD (n % w)

theorem getLsbD_one_shiftLeft {i j : Nat} (hj : j < w) :
    (1#w <<< i).getLsbD j = decide (i = j) := by
  rw [BitVec.getLsbD_shiftLeft, BitVec.getLsbD_one]
  by_cases hji : j < i
  · simp only [hj, hji, decide_true, Bool.not_true, Bool.and_false, Bool.false_and,
      show ¬ i = j by omega, decide_false]
  · simp only [hj, hji, decide_true, decide_false, Bool.not_false, Bool.and_true, Bool.true_and,
      show 0 < w by omega]
    exact decide_eq_decide.mpr (by omega)

/-- Masking one bit out of a word gives zero exactly when the bit is clear. -/
theorem and_one_shiftLeft_eq_zero_iff (x : BitVec w) {i : Nat} (hi : i < w) :
    x &&& 1#w <<< i = 0#w ↔ x.getLsbD i = false := by
  constructor
  · intro h
    have hbit := congrArg (fun y : BitVec w ↦ y.getLsbD i) h
    simpa only [BitVec.getLsbD_and, getLsbD_one_shiftLeft hi, decide_true, Bool.and_true,
      BitVec.getLsbD_zero] using hbit
  · intro h
    apply BitVec.eq_of_getLsbD_eq
    intro j hj
    rw [BitVec.getLsbD_and, getLsbD_one_shiftLeft hj, BitVec.getLsbD_zero]
    by_cases hij : i = j
    · rw [← hij, h, Bool.false_and]
    · simp only [hij, decide_false, Bool.and_false]

theorem bitAt_update (n k : Nat) (x : BitVec w) :
    bitAt (Function.update m k x) n = if n / w = k then x.getLsbD (n % w) else bitAt m n := by
  unfold bitAt
  rw [Function.update_apply]
  split <;> rfl

/-- Setting one bit changes no other. -/
theorem bitAt_set (hw : 0 < w) (b n : Nat) :
    bitAt (Function.update m (b / w) (m (b / w) ||| 1#w <<< (b % w))) n =
      (bitAt m n || decide (n = b)) := by
  rw [bitAt_update, bitAt]
  by_cases hword : n / w = b / w
  · rw [if_pos hword, BitVec.getLsbD_or, getLsbD_one_shiftLeft (Nat.mod_lt _ hw),
      hword]
    congr 1
    refine decide_eq_decide.mpr ⟨fun h ↦ ?_, fun h ↦ by rw [h]⟩
    rw [← Nat.div_add_mod n w, ← Nat.div_add_mod b w, hword, h]
  · have hne : n ≠ b := fun h ↦ hword (by rw [h])
    rw [if_neg hword, decide_eq_false hne, Bool.or_false]

/-- Clearing one bit changes no other. -/
theorem bitAt_clear (hw : 0 < w) (b n : Nat) :
    bitAt (Function.update m (b / w) (m (b / w) &&& ~~~(1#w <<< (b % w)))) n =
      (bitAt m n && !decide (n = b)) := by
  rw [bitAt_update, bitAt]
  by_cases hword : n / w = b / w
  · rw [if_pos hword, BitVec.getLsbD_and, BitVec.getLsbD_not,
      getLsbD_one_shiftLeft (Nat.mod_lt _ hw), hword]
    simp only [Nat.mod_lt _ hw, decide_true, Bool.true_and]
    congr 2
    refine decide_eq_decide.mpr ⟨fun h ↦ ?_, fun h ↦ by rw [h]⟩
    rw [← Nat.div_add_mod n w, ← Nat.div_add_mod b w, hword, h]
  · have hne : n ≠ b := fun h ↦ hword (by rw [h])
    rw [if_neg hword, decide_eq_false hne, Bool.not_false, Bool.and_true]

/-- Testing a bit of the array by a mask. -/
theorem testMask_eq_zero_iff (hw : 0 < w) (b : Nat) :
    m (b / w) &&& 1#w <<< (b % w) = 0#w ↔ bitAt m b = false :=
  and_one_shiftLeft_eq_zero_iff _ (Nat.mod_lt _ hw)

end TenOs.Base
