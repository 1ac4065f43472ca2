import Mathlib.Data.Nat.Digits.Lemmas

/-!
# Numerals

The numeral of a number in a base, most significant digit first, over any kind of characters, and the
number that a numeral stands for.
-/

namespace TenOs.Base

variable {α : Type} (b : Nat) (digit : Nat → α)

/-- The numeral of `v` without leading zeros. -/
def numeral (v : Nat) : List α :=
  if v = 0 then [digit 0] else ((Nat.digits b v).map digit).reverse

/-- The value of a list of digits. -/
def readNumeral (value : α → Nat) (l : List α) : Nat := l.foldl (fun acc c ↦ acc * b + value c) 0

variable {b digit} {value : α → Nat}

theorem numeral_of_lt {v : Nat} (h : v < b) : numeral b digit v = [digit v] := by
  by_cases hv : v = 0
  · rw [numeral, if_pos hv, hv]
  · rw [numeral, if_neg hv, Nat.digits_of_lt b v hv h]
    rfl

-- The last digit is the remainder, and those before it are the numeral of the quotient.
theorem numeral_of_le (hb : 1 < b) {v : Nat} (h : b ≤ v) :
    numeral b digit v = numeral b digit (v / b) ++ [digit (v % b)] := by
  have hdiv : v / b ≠ 0 := Nat.ne_of_gt (Nat.div_pos h (by omega))
  rw [numeral, if_neg (by omega), numeral, if_neg hdiv, Nat.digits_def' hb (by omega),
    List.map_cons, List.reverse_cons]

theorem readNumeral_reverse (l : List α) :
    readNumeral b value l.reverse = Nat.ofDigits b (l.map value) := by
  rw [readNumeral, List.foldl_reverse]
  induction l with
  | nil => rfl
  | cons c l ih => rw [List.foldr_cons, ih, List.map_cons, Nat.ofDigits_cons, Nat.mul_comm, Nat.add_comm]

/-- Reading the numeral of a number gives the number back. -/
theorem readNumeral_numeral (hb : 1 < b) (hdigit : ∀ d < b, value (digit d) = d) (v : Nat) :
    readNumeral b value (numeral b digit v) = v := by
  by_cases hv : v = 0
  · rw [numeral, if_pos hv, hv]
    have hzero : readNumeral b value [digit 0] = 0 * b + value (digit 0) := rfl
    rw [hzero, hdigit 0 (by omega), Nat.zero_mul]
  · have hdigits : ((Nat.digits b v).map digit).map value = Nat.digits b v := by
      have hid : ∀ d ∈ Nat.digits b v, (value ∘ digit) d = id d :=
        fun d hd ↦ hdigit d (Nat.digits_lt_base hb hd)
      rw [List.map_map, List.map_congr_left hid, List.map_id]
    rw [numeral, if_neg hv, readNumeral_reverse, hdigits, Nat.ofDigits_digits]

/-- The first digit of a numeral is not a zero, except in that of 0. -/
theorem numeral_head (digit : Nat → α) (hb : 1 < b) {v : Nat} (hv : v ≠ 0) :
    ∃ d rest, 0 < d ∧ d < b ∧ numeral b digit v = digit d :: rest := by
  have hne : Nat.digits b v ≠ [] := Nat.digits_ne_nil_iff_ne_zero.mpr hv
  refine ⟨(Nat.digits b v).getLast hne, ((Nat.digits b v).dropLast.map digit).reverse,
    Nat.pos_of_ne_zero (Nat.getLast_digit_ne_zero b hv),
    Nat.digits_lt_base hb (List.getLast_mem hne), ?_⟩
  rw [numeral, if_neg hv]
  conv_lhs => rw [← List.dropLast_concat_getLast hne]
  rw [List.map_append, List.reverse_append]
  rfl

theorem numeral_mem (hb : 1 < b) {v : Nat} {c : α} (hc : c ∈ numeral b digit v) :
    ∃ d < b, c = digit d := by
  unfold numeral at hc
  by_cases hv : v = 0
  · rw [if_pos hv] at hc
    exact ⟨0, by omega, List.mem_singleton.mp hc⟩
  · rw [if_neg hv, List.mem_reverse] at hc
    obtain ⟨d, hd, rfl⟩ := List.mem_map.mp hc
    exact ⟨d, Nat.digits_lt_base hb hd, rfl⟩

theorem numeral_length_le (hb : 1 < b) {v k : Nat} (hk : 0 < k) (h : v < b ^ k) :
    (numeral b digit v).length ≤ k := by
  by_cases hv : v = 0
  · rw [numeral, if_pos hv, List.length_singleton]
    exact hk
  · rw [numeral, if_neg hv, List.length_reverse, List.length_map]
    exact (Nat.digits_length_le_iff hb v).mpr h

end TenOs.Base
