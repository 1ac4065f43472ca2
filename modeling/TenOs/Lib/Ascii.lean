import TenOs.Base.Numeral
import TenOs.Lib.Util

/-!
# `lib/util.c`: strings

`strlen`, `reverse` and `int_to_ascii` on strings in memory.  An `int` is a 32-bit word in two's
complement, and its negation wraps.
-/

namespace TenOs.Lib

open TenOs.Base

/-- The index of the first NUL, as far as an `int` counts. -/
def strlen (s : Bytes) : Option Nat :=
  firstFrom (fun i ↦ if s i = 0 then some i else none) (2 ^ 31) 0

/-- A turn of `reverse` on a string of length `n`, where `j` is `n - 1 - i`. -/
def swapTurn (n i : Nat) (s : Bytes) : Bytes :=
  let j := n - 1 - i
  let c := s i
  Function.update (Function.update s i (s j)) j c

/-- The indices meet after `strlen(s) / 2` turns. -/
def reverse (s : Bytes) : Option Bytes :=
  (strlen s).map fun n ↦ forLoop (swapTurn n) (n / 2) 0 s

/-- `n % 10 + '0'`, stored in a `char`. -/
def digitChar (n : u32) : u8 := (n.srem 10 + 0x30).setWidth 8

/-- The `do` loop of `int_to_ascii`: the string and `i` after it, or `none` when there is a turn more
than `k`. -/
def asciiLoop : (k i : Nat) → (n : u32) → Bytes → Option (Bytes × Nat)
  | 0, _, _, _ => none
  | k + 1, i, n, str =>
      let str := Function.update str i (digitChar n)
      let n := n.sdiv 10
      if BitVec.slt 0 n then asciiLoop k (i + 1) n str else some (str, i + 1)

/-- A 32-bit number has at most ten digits. -/
def intToAscii (n : u32) (str : Bytes) : Option Bytes := do
  let sign := n
  let n := if n.slt 0 then -n else n
  let r ← asciiLoop 10 0 n str
  let r := if sign.slt 0 then (Function.update r.1 r.2 0x2D, r.2 + 1) else r
  reverse (Function.update r.1 r.2 0)

/-! ## Strings in memory -/

/-- The characters up to the first NUL. -/
def charsAt (s : Bytes) : Option (List u8) := (strlen s).map fun n ↦ (List.range n).map s

/-- The string `l` and its NUL are in memory from `s` on. -/
structure StringAt (s : Bytes) (l : List u8) : Prop where
  byte : ∀ j < l.length, l[j]? = some (s j)
  nul : s l.length = 0
  ne_nul : ∀ c ∈ l, c ≠ 0

section StringAt

variable {s : Bytes} {l : List u8} (h : StringAt s l) (hlen : l.length < 2 ^ 31)
include h hlen

theorem StringAt.strlen_eq : strlen s = some l.length := by
  refine (firstFrom_eq_some_iff _ _ _ _).mpr
    ⟨l.length, Nat.zero_le _, by omega, if_pos h.nul, fun j _ hj ↦ if_neg ?_⟩
  exact h.ne_nul (s j) (List.mem_of_getElem? (h.byte j hj))

theorem StringAt.charsAt_eq : charsAt s = some l := by
  rw [charsAt, h.strlen_eq hlen, Option.map_some, Option.some.injEq]
  apply List.ext_getElem?
  intro j
  by_cases hj : j < l.length
  · rw [h.byte j hj]
    simp [hj]
  · simp [hj]

omit h hlen in
/-- After `i` turns the first and the last `i` characters have changed places. -/
theorem swapTurns_eq (s : Bytes) {n i : Nat} (hi : i ≤ n / 2) (a : Nat) :
    forLoop (swapTurn n) i 0 s a = if a < i ∨ n - i ≤ a ∧ a < n then s (n - 1 - a) else s a := by
  induction i generalizing a with
  | zero => simp [forLoop, show ¬ (n ≤ a ∧ a < n) by omega]
  | succ i ih =>
    have hprev := ih (by omega)
    have hfst := hprev i
    have hsnd := hprev (n - 1 - i)
    rw [if_neg (by omega)] at hfst hsnd
    rw [forLoop_succ_last, Nat.zero_add, swapTurn, hfst, hsnd]
    by_cases hlast : a = n - 1 - i
    · rw [hlast, Function.update_self, if_pos (by omega), show n - 1 - (n - 1 - i) = i by omega]
    · rw [Function.update_of_ne hlast]
      by_cases hfirst : a = i
      · rw [hfirst, Function.update_self, if_pos (by omega)]
      · rw [Function.update_of_ne hfirst, hprev]
        by_cases hdone : a < i ∨ n - i ≤ a ∧ a < n
        · rw [if_pos hdone, if_pos (by omega)]
        · rw [if_neg hdone, if_neg (by omega)]

/-- `reverse` turns the string round and leaves the rest of memory alone. -/
theorem StringAt.reverse_eq : ∃ s', reverse s = some s' ∧ StringAt s' l.reverse ∧
    ∀ a, l.length ≤ a → s' a = s a := by
  have hbytes (a : Nat) : forLoop (swapTurn l.length) (l.length / 2) 0 s a =
      if a < l.length then s (l.length - 1 - a) else s a := by
    rw [swapTurns_eq s (Nat.le_refl _)]
    by_cases hout : l.length ≤ a
    · rw [if_neg (by omega), if_neg (by omega)]
    · by_cases hmid : a < l.length / 2 ∨ l.length - l.length / 2 ≤ a ∧ a < l.length
      · rw [if_pos hmid, if_pos (by omega)]
      · -- the character in the middle stays where it is
        rw [if_neg hmid, if_pos (by omega), show l.length - 1 - a = a by omega]
  have hkeep (a : Nat) (ha : l.length ≤ a) :
      forLoop (swapTurn l.length) (l.length / 2) 0 s a = s a := by
    rw [hbytes, if_neg (by omega)]
  refine ⟨_, by rw [reverse, h.strlen_eq hlen, Option.map_some], ⟨fun j hj ↦ ?_, ?_, fun c hc ↦ ?_⟩,
    hkeep⟩
  · rw [List.length_reverse] at hj
    rw [hbytes, if_pos hj, List.getElem?_reverse hj]
    exact h.byte _ (by omega)
  · rw [List.length_reverse, hkeep _ (Nat.le_refl _)]
    exact h.nul
  · exact h.ne_nul c (List.mem_reverse.mp hc)

end StringAt

/-! ## Digits -/

/-- Memory after the characters `l` have been stored from index `i` on. -/
def storeAt (m : Bytes) (i : Nat) (l : List u8) : Bytes :=
  fun a ↦ if i ≤ a then (l[a - i]?).getD (m a) else m a

theorem storeAt_nil (m : Bytes) (i : Nat) : storeAt m i [] = m := by
  funext a
  simp [storeAt]

theorem storeAt_cons (m : Bytes) (i : Nat) (c : u8) (l : List u8) :
    storeAt (Function.update m i c) (i + 1) l = storeAt m i (c :: l) := by
  funext a
  unfold storeAt
  by_cases ha : a = i
  · simp [ha]
  · rw [Function.update_of_ne ha]
    by_cases hle : i ≤ a
    · rw [if_pos (by omega), if_pos hle, show a - i = a - (i + 1) + 1 by omega,
        List.getElem?_cons_succ]
    · rw [if_neg (by omega), if_neg hle]

theorem storeAt_apply_of_le {m : Bytes} {i : Nat} {l : List u8} {a : Nat}
    (h : i + l.length ≤ a) : storeAt m i l a = m a := by
  rw [storeAt, if_pos (by omega), List.getElem?_eq_none (by omega)]
  rfl

theorem stringAt_storeAt {m : Bytes} {l : List u8} (hnul : m l.length = 0) (hne : ∀ c ∈ l, c ≠ 0) :
    StringAt (storeAt m 0 l) l := by
  refine ⟨fun j hj ↦ ?_, ?_, hne⟩
  · simp [storeAt, hj]
  · rw [storeAt_apply_of_le (by omega), hnul]

/-- The character of a decimal digit. -/
def decimalChar (d : Nat) : u8 := BitVec.ofNat 8 (0x30 + d)

/-- The decimal numeral of a number. -/
abbrev decimal (v : Nat) : List u8 := numeral 10 decimalChar v

theorem decimal_of_lt {v : Nat} (h : v < 10) : decimal v = [decimalChar v] := numeral_of_lt h

theorem decimal_of_le {v : Nat} (h : 10 ≤ v) :
    decimal v = decimal (v / 10) ++ [decimalChar (v % 10)] := numeral_of_le (by decide) h

theorem decimalChar_ne_zero {d : Nat} (h : d < 10) : decimalChar d ≠ 0 := by
  revert d
  decide

theorem decimal_ne_zero {v : Nat} {c : u8} (hc : c ∈ decimal v) : c ≠ 0 := by
  obtain ⟨d, hd, rfl⟩ := numeral_mem (by decide) hc
  exact decimalChar_ne_zero hd

section NonNegative

variable {n : u32} (h : n.toNat < 2 ^ 31)
include h

theorem toInt_of_lt : n.toInt = n.toNat := BitVec.toInt_eq_toNat_of_lt (by omega)

theorem msb_of_lt : n.msb = false := by
  rw [BitVec.msb_eq_decide]
  exact decide_eq_false (by omega)

theorem sdiv_ten_toNat : (n.sdiv 10).toNat = n.toNat / 10 := by
  have hten : (10 : u32).msb = false := rfl
  rw [BitVec.sdiv_eq, msb_of_lt h, hten]
  exact BitVec.toNat_udiv

theorem digitChar_of_lt : digitChar n = decimalChar (n.toNat % 10) := by
  have hten : (10 : u32).msb = false := rfl
  apply BitVec.eq_of_toNat_eq
  rw [digitChar, BitVec.srem_eq, msb_of_lt h, hten, decimalChar, BitVec.toNat_setWidth, BitVec.toNat_add,
    BitVec.toNat_ofNat]
  change ((n % 10).toNat + 0x30) % 2 ^ 32 % 2 ^ 8 = _
  rw [BitVec.toNat_umod]
  change (n.toNat % 10 + 0x30) % 2 ^ 32 % 2 ^ 8 = _
  omega

theorem slt_zero_iff : BitVec.slt 0 n = true ↔ n.toNat ≠ 0 := by
  have hzero : (0 : u32).toInt = 0 := rfl
  rw [BitVec.slt_iff_toInt_lt, toInt_of_lt h, hzero]
  omega

end NonNegative

/-- The loop stores the digits of a number that is not negative, the last digit first. -/
theorem asciiLoop_eq (k i : Nat) {n : u32} (h : n.toNat < 2 ^ 31) (hk : n.toNat < 10 ^ (k + 1))
    (str : Bytes) : asciiLoop (k + 1) i n str =
      some (storeAt str i (decimal n.toNat).reverse, i + (decimal n.toNat).length) := by
  induction k generalizing i n str with
  | zero =>
    have hstop : ¬ BitVec.slt 0 (n.sdiv 10) = true := by
      rw [slt_zero_iff (by rw [sdiv_ten_toNat h]; omega), sdiv_ten_toNat h]
      omega
    rw [asciiLoop, if_neg hstop, digitChar_of_lt h, Nat.mod_eq_of_lt (by omega),
      decimal_of_lt (by omega), List.reverse_singleton, ← storeAt_cons, storeAt_nil]
    rfl
  | succ k ih =>
    have hdiv := sdiv_ten_toNat h
    have hsmall : (n.sdiv 10).toNat < 2 ^ 31 := by omega
    rw [asciiLoop, digitChar_of_lt h]
    by_cases hlast : n.toNat < 10
    · have hstop : ¬ BitVec.slt 0 (n.sdiv 10) = true := by
        rw [slt_zero_iff hsmall]
        omega
      rw [if_neg hstop, Nat.mod_eq_of_lt hlast, decimal_of_lt hlast, List.reverse_singleton,
        ← storeAt_cons, storeAt_nil]
      rfl
    · have hgo : BitVec.slt 0 (n.sdiv 10) = true := by
        rw [slt_zero_iff hsmall]
        omega
      have hsplit := decimal_of_le (Nat.le_of_not_lt hlast)
      rw [if_pos hgo, ih (i + 1) hsmall (by omega), hdiv, storeAt_cons, hsplit, List.reverse_append,
        List.length_append]
      congr 2
      rw [List.length_singleton]
      omega

/-! ## `int_to_ascii` -/

/-- The decimal numeral of an integer, with a `-` in front of a negative one. -/
def signedDecimal (z : Int) : List u8 :=
  if z < 0 then 0x2D :: decimal z.natAbs else decimal z.natAbs

theorem signedDecimal_ne_zero {z : Int} {c : u8} (hc : c ∈ signedDecimal z) : c ≠ 0 := by
  unfold signedDecimal at hc
  split at hc
  · rcases List.mem_cons.mp hc with rfl | hc
    · decide
    · exact decimal_ne_zero hc
  · exact decimal_ne_zero hc

theorem signedDecimal_length {z : Int} (h : z.natAbs < 2 ^ 31) : (signedDecimal z).length ≤ 11 := by
  have hle : (decimal z.natAbs).length ≤ 10 := numeral_length_le (by decide) (by decide) (by omega)
  unfold signedDecimal
  split
  · rw [List.length_cons]
    omega
  · omega

/-- The number that a decimal digit stands for. -/
def decimalValue (c : u8) : Nat := c.toNat - 0x30

theorem readNumeral_decimal (v : Nat) : readNumeral 10 decimalValue (decimal v) = v := by
  refine readNumeral_numeral (by decide) (fun d hd ↦ ?_) v
  revert d
  decide

theorem decimal_leading {v : Nat} {rest : List u8} (h : decimal v = 0x30 :: rest) : v = 0 := by
  by_contra hv
  have hall : ∀ d < 10, 0 < d → decimalChar d ≠ 0x30 := by decide
  obtain ⟨d, rest', hpos, hd, hhead⟩ := numeral_head decimalChar (show 1 < 10 by decide) hv
  exact hall d hd hpos (List.cons.inj (hhead.symm.trans h)).1

/-- The integer that a decimal numeral stands for. -/
def readSigned : List u8 → Int
  | [] => 0
  | c :: rest =>
      if c = 0x2D then -(readNumeral 10 decimalValue rest) else readNumeral 10 decimalValue (c :: rest)

-- The first digit is not a sign, so the sign is read right.
theorem readSigned_signedDecimal (z : Int) : readSigned (signedDecimal z) = z := by
  unfold signedDecimal
  by_cases hneg : z < 0
  · rw [if_pos hneg, readSigned, if_pos rfl, readNumeral_decimal]
    omega
  · rw [if_neg hneg]
    cases hl : decimal z.natAbs with
    | nil =>
      have hread := readNumeral_decimal z.natAbs
      rw [hl] at hread
      change 0 = z.natAbs at hread
      rw [readSigned]
      omega
    | cons c rest =>
      have hall : ∀ d < 10, decimalChar d ≠ 0x2D := by decide
      have hmem : c ∈ decimal z.natAbs := by
        rw [hl]
        exact List.mem_cons_self
      have hdigit : c ≠ 0x2D := by
        obtain ⟨d, hd, rfl⟩ := numeral_mem (by decide) hmem
        exact hall d hd
      rw [readSigned, if_neg hdigit, ← hl, readNumeral_decimal]
      omega

theorem slt_zero_iff_neg (n : u32) : n.slt 0 = true ↔ n.toInt < 0 := by
  have hzero : (0 : u32).toInt = 0 := rfl
  rw [BitVec.slt_iff_toInt_lt, hzero]

-- The least `int` is the one whose negation wraps.
theorem negate_toNat {n : u32} (hn : n ≠ 0x80000000) :
    (if n.slt 0 then -n else n).toNat = n.toInt.natAbs ∧ n.toInt.natAbs < 2 ^ 31 := by
  have hlt := n.isLt
  have hne : n.toNat ≠ 2 ^ 31 := fun heq ↦ hn (BitVec.eq_of_toNat_eq heq)
  have hint := BitVec.toInt_eq_toNat_cond n
  by_cases hneg : n.slt 0 = true
  · have hsign := (slt_zero_iff_neg n).mp hneg
    rw [if_pos hneg, BitVec.toNat_neg]
    omega
  · have hsign := mt (slt_zero_iff_neg n).mpr hneg
    rw [if_neg hneg]
    omega

-- A character more behind those stored.
theorem update_storeAt (m : Bytes) (l : List u8) (c : u8) :
    Function.update (storeAt m 0 l) l.length c = storeAt m 0 (l ++ [c]) := by
  funext a
  unfold storeAt
  by_cases ha : a = l.length
  · simp [ha]
  · rw [Function.update_of_ne ha]
    by_cases hlt : a < l.length
    · simp [List.getElem?_append_left hlt]
    · rw [if_pos (Nat.zero_le a), if_pos (Nat.zero_le a), Nat.sub_zero,
        List.getElem?_eq_none (by omega),
        List.getElem?_eq_none (by rw [List.length_append, List.length_singleton]; omega)]

theorem stringAt_terminated (m : Bytes) {l : List u8} (hne : ∀ c ∈ l, c ≠ 0) :
    StringAt (Function.update (storeAt m 0 l) l.length 0) l := by
  refine ⟨fun j hj ↦ ?_, Function.update_self _ _ _, hne⟩
  rw [Function.update_of_ne (by omega)]
  simp [storeAt, hj]

/-- `int_to_ascii` leaves the numeral in the string, for every `int` but the least. -/
theorem intToAscii_eq {n : u32} (hn : n ≠ 0x80000000) (str : Bytes) :
    ∃ s, intToAscii n str = some s ∧ StringAt s (signedDecimal n.toInt) := by
  obtain ⟨habs, hlt⟩ := negate_toNat hn
  have hloop := asciiLoop_eq 9 0 (n := if n.slt 0 then -n else n) (by rw [habs]; exact hlt)
    (by rw [habs]; omega) str
  rw [habs, Nat.zero_add] at hloop
  have hlength := signedDecimal_length hlt
  have hsigned : (if n.slt 0 then (Function.update (storeAt str 0 (decimal n.toInt.natAbs).reverse)
      (decimal n.toInt.natAbs).length 0x2D, (decimal n.toInt.natAbs).length + 1)
      else (storeAt str 0 (decimal n.toInt.natAbs).reverse, (decimal n.toInt.natAbs).length)) =
        (storeAt str 0 (signedDecimal n.toInt).reverse, (signedDecimal n.toInt).length) := by
    have hlen := (decimal n.toInt.natAbs).length_reverse
    unfold signedDecimal
    by_cases hneg : n.toInt < 0
    · rw [if_pos ((slt_zero_iff_neg n).mpr hneg), if_pos hneg, List.reverse_cons, ← update_storeAt,
        hlen, List.length_cons]
    · rw [if_neg (mt (slt_zero_iff_neg n).mp hneg), if_neg hneg]
  have hbefore : StringAt (Function.update (storeAt str 0 (signedDecimal n.toInt).reverse)
      (signedDecimal n.toInt).length 0) (signedDecimal n.toInt).reverse := by
    have hterm := stringAt_terminated str (l := (signedDecimal n.toInt).reverse)
      fun c hc ↦ signedDecimal_ne_zero (List.mem_reverse.mp hc)
    rwa [List.length_reverse] at hterm
  obtain ⟨s, hreverse, hstring, -⟩ := hbefore.reverse_eq (by rw [List.length_reverse]; omega)
  rw [List.reverse_reverse] at hstring
  refine ⟨s, ?_, hstring⟩
  simp only [intToAscii, Option.bind_eq_bind]
  rw [hloop, Option.bind_some, hsigned]
  exact hreverse

end TenOs.Lib
