import TenOs.Lib.Ascii

/-!
# `lib/print.c`: numbers

A printing function is modelled by the characters that it hands to `put_char`, in order; the colour
goes through unchanged.  `stack` is what lies from the function's local array on before it is
initialised, and a result `none` would be a string without a NUL.
-/

namespace TenOs.Lib

open TenOs.Base

/-! ## Digits -/

structure DigitState where
  num : Bytes
  i : Nat
  value : u32

/-- The loop that stores the digits of `value`, the last one first, with `k` turns left before the
cap. -/
def digitLoop (go : u32 → Bool) (digit : u32 → u8) (next : u32 → u32) :
    (k i : Nat) → Bytes → (value : u32) → DigitState
  | 0, i, num, value => ⟨num, i, value⟩
  | k + 1, i, num, value =>
      if go value then digitLoop go digit next k (i + 1) (Function.update num i (digit value)) (next value)
      else ⟨num, i, value⟩

/-- The loop of `print_int`, over `char num[12] = {'\0'}`. -/
def intDigits (stack : Bytes) (value : u32) : DigitState :=
  digitLoop (BitVec.slt 0 ·) digitChar (·.sdiv 10) 11 0 (fillCells stack 0 0 12) value

/-- The loop of `print_uint`, over `char num[11] = {'\0'}`. -/
def uintDigits (stack : Bytes) (value : u32) : DigitState :=
  digitLoop (0 < ·) (fun value ↦ (value % 10 + 0x30).setWidth 8) (· / 10) 10 0
    (fillCells stack 0 0 11) value

def hexMap : List u8 :=
  [0x30, 0x31, 0x32, 0x33, 0x34, 0x35, 0x36, 0x37, 0x38, 0x39, 0x41, 0x42, 0x43, 0x44, 0x45, 0x46]

/-- The loop of `print_hex`, over `char hex[9] = {'\0'}`. -/
def hexDigits (stack : Bytes) (value : u32) : DigitState :=
  digitLoop (· ≠ 0) (fun value ↦ hexMap.getD (value &&& 0xF).toNat 0) (· >>> 4) 8 0
    (fillCells stack 0 0 9) value

/-! ## Printing -/

def printInt (stack : Bytes) (value : u32) : Option (List u8) :=
  if value = 0 then some [0x30]
  else
    let sign := if value.slt 0 then [0x2D] else []
    let value := if value.slt 0 then -value else value
    ((reverse (intDigits stack value).num).bind charsAt).map (sign ++ ·)

def printHex (stack : Bytes) (value : u32) : Option (List u8) :=
  if value = 0 then some [0x30, 0x78, 0x30]
  else ((reverse (hexDigits stack value).num).bind charsAt).map ([0x30, 0x78] ++ ·)

def printUint (stack : Bytes) (value : u32) : Option (List u8) :=
  if value = 0 then some [0x30] else (reverse (uintDigits stack value).num).bind charsAt

/-! ## The loop -/

/-- On the numbers in `ok` the loop takes the digits of a number in base `b` off, last digit first. -/
structure TakesDigits (ok : u32 → Prop) (b : Nat) (char : Nat → u8) (go : u32 → Bool)
    (digit : u32 → u8) (next : u32 → u32) : Prop where
  base : 1 < b
  go_iff : ∀ v, ok v → (go v = true ↔ v.toNat ≠ 0)
  digit : ∀ v, ok v → digit v = char (v.toNat % b)
  next : ∀ v, ok v → ok (next v) ∧ (next v).toNat = v.toNat / b

/-- With turns enough for all digits the loop stores them and ends with 0. -/
theorem TakesDigits.loop {ok : u32 → Prop} {b : Nat} {char : Nat → u8} {go : u32 → Bool}
    {digit : u32 → u8} {next : u32 → u32} (h : TakesDigits ok b char go digit next) (k i : Nat)
    (num : Bytes) {value : u32} (hok : ok value) (hk : value.toNat < b ^ k) :
    digitLoop go digit next k i num value =
      ⟨storeAt num i ((Nat.digits b value.toNat).map char),
        i + (Nat.digits b value.toNat).length, 0⟩ := by
  induction k generalizing i num value with
  | zero =>
    have hzero : value = 0 := BitVec.eq_of_toNat_eq (by simpa using hk)
    rw [hzero, digitLoop]
    simp [storeAt_nil]
  | succ k ih =>
    rw [digitLoop]
    by_cases hgo : go value = true
    · have hpos : 0 < value.toNat := Nat.pos_of_ne_zero ((h.go_iff value hok).mp hgo)
      obtain ⟨hok', hnext⟩ := h.next value hok
      have hlt : (next value).toNat < b ^ k := by
        rw [hnext]
        exact Nat.div_lt_of_lt_mul (by rwa [← Nat.pow_succ'])
      rw [if_pos hgo, ih (i + 1) _ hok' hlt, hnext, h.digit value hok, storeAt_cons,
        Nat.digits_def' h.base hpos, List.map_cons, List.length_cons]
      congr 1
      omega
    · have hzero : value = 0 := by
        apply BitVec.eq_of_toNat_eq
        by_contra hne
        exact hgo ((h.go_iff value hok).mpr hne)
      rw [if_neg hgo, hzero]
      simp [storeAt_nil]

theorem fillCells_zero {stack : Bytes} {size a : Nat} (h : a < size) : fillCells stack 0 0 size a = 0 := by
  rw [fillCells_apply, if_pos (by omega)]

/-- What the loop leaves in an array of `k + 1` zero bytes is printed as a numeral, and the last byte
is still NUL. -/
theorem TakesDigits.print {ok : u32 → Prop} {b : Nat} {char : Nat → u8} {go : u32 → Bool}
    {digit : u32 → u8} {next : u32 → u32} (h : TakesDigits ok b char go digit next)
    (hchar : ∀ d < b, char d ≠ 0) (stack : Bytes) {k : Nat} (hk31 : k < 2 ^ 31) {value : u32}
    (hok : ok value) (hne : value ≠ 0) (hk : value.toNat < b ^ k) :
    let r := digitLoop go digit next k 0 (fillCells stack 0 0 (k + 1)) value
    (reverse r.num).bind charsAt = some (numeral b char value.toNat) ∧
      r.value = 0 ∧ r.i ≤ k ∧ r.num k = 0 := by
  intro r
  have hr : r = ⟨storeAt (fillCells stack 0 0 (k + 1)) 0 ((Nat.digits b value.toNat).map char),
      0 + (Nat.digits b value.toNat).length, 0⟩ := h.loop k 0 _ hok hk
  have hlen : (Nat.digits b value.toNat).length ≤ k := (Nat.digits_length_le_iff h.base _).mpr hk
  have hvalue : value.toNat ≠ 0 := fun heq ↦ hne (BitVec.eq_of_toNat_eq heq)
  have hnumeral : numeral b char value.toNat = ((Nat.digits b value.toNat).map char).reverse :=
    if_neg hvalue
  have hstring : StringAt r.num ((Nat.digits b value.toNat).map char) := by
    rw [hr]
    refine stringAt_storeAt ?_ fun c hc ↦ ?_
    · rw [List.length_map, fillCells_zero (by omega)]
    · obtain ⟨d, hd, rfl⟩ := List.mem_map.mp hc
      exact hchar d (Nat.digits_lt_base h.base hd)
  obtain ⟨s, hreverse, hreversed, -⟩ := hstring.reverse_eq (by rw [List.length_map]; omega)
  refine ⟨?_, by rw [hr], by rw [hr]; exact (Nat.zero_add _).trans_le hlen, ?_⟩
  · rw [hreverse, Option.bind_some, hnumeral]
    apply hreversed.charsAt_eq
    rw [List.length_reverse, List.length_map]
    omega
  · have hbehind : 0 + ((Nat.digits b value.toNat).map char).length ≤ k := by
      rw [List.length_map]
      omega
    rw [hr]
    exact (storeAt_apply_of_le hbehind).trans (fillCells_zero (Nat.lt_succ_self k))

/-! ## The three loops -/

theorem takesDigits_int : TakesDigits (fun v ↦ v.toNat < 2 ^ 31) 10 decimalChar (BitVec.slt 0 ·)
    digitChar (·.sdiv 10) := by
  refine ⟨by decide, fun v hv ↦ slt_zero_iff hv, fun v hv ↦ digitChar_of_lt hv, fun v hv ↦ ?_⟩
  have hdiv := sdiv_ten_toNat hv
  exact ⟨by omega, hdiv⟩

theorem takesDigits_uint : TakesDigits (fun _ ↦ True) 10 decimalChar (0 < ·)
    (fun value ↦ (value % 10 + 0x30).setWidth 8) (· / 10) := by
  refine ⟨by decide, fun v _ ↦ ?_, fun v _ ↦ ?_, fun v _ ↦ ⟨trivial, BitVec.toNat_udiv⟩⟩
  · rw [decide_eq_true_iff, BitVec.lt_def]
    exact Nat.pos_iff_ne_zero
  · apply BitVec.eq_of_toNat_eq
    rw [BitVec.toNat_setWidth, BitVec.toNat_add, BitVec.toNat_umod, decimalChar, BitVec.toNat_ofNat]
    change (v.toNat % 10 + 0x30) % 2 ^ 32 % 2 ^ 8 = _
    omega

/-- The character of a hexadecimal digit. -/
def hexChar (d : Nat) : u8 := hexMap.getD d 0

theorem takesDigits_hex : TakesDigits (fun _ ↦ True) 16 hexChar (· ≠ 0)
    (fun value ↦ hexMap.getD (value &&& 0xF).toNat 0) (· >>> 4) := by
  refine ⟨by decide, fun v _ ↦ ?_, fun v _ ↦ ?_, fun v _ ↦ ⟨trivial, toNat_ushiftRight_eq v 4⟩⟩
  · rw [decide_eq_true_iff, ne_eq, ne_eq, ← BitVec.toNat_inj]
    rfl
  · rw [toNat_and_lowMask v (k := 4) rfl]
    rfl

/-- The hexadecimal numeral of a number, in capitals. -/
abbrev hexadecimal (v : Nat) : List u8 := numeral 16 hexChar v

/-- The number that a hexadecimal digit stands for. -/
def hexValue (c : u8) : Nat := if c.toNat < 0x41 then c.toNat - 0x30 else c.toNat - 0x37

theorem readNumeral_hexadecimal (v : Nat) : readNumeral 16 hexValue (hexadecimal v) = v := by
  refine readNumeral_numeral (by decide) (fun d hd ↦ ?_) v
  revert d
  decide

theorem hexChar_ne_zero : ∀ d < 16, hexChar d ≠ 0 := by decide

theorem hexadecimal_leading {v : Nat} {rest : List u8} (h : hexadecimal v = 0x30 :: rest) : v = 0 := by
  by_contra hv
  have hall : ∀ d < 16, 0 < d → hexChar d ≠ 0x30 := by decide
  obtain ⟨d, rest', hpos, hd, hhead⟩ := numeral_head hexChar (show 1 < 16 by decide) hv
  exact hall d hd hpos (List.cons.inj (hhead.symm.trans h)).1

/-! ## Signed numbers -/

/-- Both conversions of `n` give its numeral, which reads back as `n`. -/
structure SignedNumerals (stack str : Bytes) (n : u32) : Prop where
  print : printInt stack n = some (signedDecimal n.toInt)
  ascii : (intToAscii n str).bind charsAt = some (signedDecimal n.toInt)
  read : readSigned (signedDecimal n.toInt) = n.toInt
  leading : ∀ rest, decimal n.toInt.natAbs = 0x30 :: rest → n = 0

theorem printInt_eq (stack : Bytes) {n : u32} (hn : n ≠ 0x80000000) :
    printInt stack n = some (signedDecimal n.toInt) := by
  unfold printInt
  by_cases hzero : n = 0
  · rw [if_pos hzero, hzero]
    rfl
  · obtain ⟨habs, hlt⟩ := negate_toNat hn
    have hint : n.toInt ≠ 0 := fun heq ↦ hzero (BitVec.eq_of_toInt_eq heq)
    have hne : (if n.slt 0 then -n else n) ≠ 0 := by
      intro heq
      rw [heq] at habs
      exact hint (Int.natAbs_eq_zero.mp habs.symm)
    have hprint := (takesDigits_int.print (fun d hd ↦ decimalChar_ne_zero hd) stack (k := 11) (by decide)
      (habs ▸ hlt) hne (by rw [habs]; omega)).1
    rw [if_neg hzero]
    change ((reverse (digitLoop (BitVec.slt 0 ·) digitChar (·.sdiv 10) 11 0 (fillCells stack 0 0 12)
      (if n.slt 0 then -n else n)).num).bind charsAt).map _ = _
    rw [hprint, habs, Option.map_some, signedDecimal]
    by_cases hneg : n.toInt < 0
    · rw [if_pos ((slt_zero_iff_neg n).mpr hneg), if_pos hneg]
      rfl
    · rw [if_neg (mt (slt_zero_iff_neg n).mp hneg), if_neg hneg]
      rfl

/-- The least `int` stays negative, so `print_int` stops after the sign. -/
theorem printInt_least (stack : Bytes) : printInt stack 0x80000000 = some [0x2D] := by
  have hempty : StringAt (fillCells stack 0 0 12) [] :=
    ⟨fun j hj ↦ absurd hj (Nat.not_lt_zero j), fillCells_zero (by decide), fun c hc ↦ nomatch hc⟩
  obtain ⟨s, hreverse, hstring, -⟩ := hempty.reverse_eq (by decide)
  have hdigits : (intDigits stack 0x80000000).num = fillCells stack 0 0 12 := rfl
  have hchars : (reverse (fillCells stack 0 0 12)).bind charsAt = some [] := by
    rw [hreverse, Option.bind_some]
    exact hstring.charsAt_eq (by decide)
  change ((reverse (intDigits stack 0x80000000).num).bind charsAt).map ([0x2D] ++ ·) = _
  rw [hdigits, hchars]
  rfl

/-- Both conversions are right for every `int` but the least. -/
theorem signedNumerals_iff (stack str : Bytes) (n : u32) :
    SignedNumerals stack str n ↔ n ≠ 0x80000000 := by
  constructor
  · rintro h rfl
    have hprint := h.print
    rw [printInt_least, Option.some.injEq] at hprint
    have hread := h.read
    rw [← hprint] at hread
    revert hread
    decide
  · intro hn
    obtain ⟨s, hascii, hstring⟩ := intToAscii_eq hn str
    have hlength := signedDecimal_length (negate_toNat hn).2
    refine ⟨printInt_eq stack hn, ?_, readSigned_signedDecimal _, fun rest hrest ↦ ?_⟩
    · rw [hascii, Option.bind_some]
      exact hstring.charsAt_eq (by omega)
    · exact BitVec.eq_of_toInt_eq (Int.natAbs_eq_zero.mp (decimal_leading hrest))

/-- For the least `int` `print_int` prints a sign and no digit. -/
theorem not_signedNumerals_least : ¬ ∀ stack str n, SignedNumerals stack str n := by
  intro h
  have hprint := (h (fun _ ↦ 0) (fun _ ↦ 0) 0x80000000).print
  rw [printInt_least, Option.some.injEq] at hprint
  revert hprint
  decide

/-! ## Unsigned numbers -/

/-- `print_uint` and `print_hex` give the numerals of `v`, which read back as `v`; their loops take
all digits off and leave the last byte of the array alone. -/
structure UnsignedNumerals (stack : Bytes) (v : u32) : Prop where
  uint : printUint stack v = some (decimal v.toNat)
  uint_read : readNumeral 10 decimalValue (decimal v.toNat) = v.toNat
  uint_leading : ∀ rest, decimal v.toNat = 0x30 :: rest → v = 0
  uint_cap : v ≠ 0 → (uintDigits stack v).value = 0 ∧ (uintDigits stack v).i ≤ 10 ∧
    (uintDigits stack v).num 10 = 0
  hex : printHex stack v = some (0x30 :: 0x78 :: hexadecimal v.toNat)
  hex_read : readNumeral 16 hexValue (hexadecimal v.toNat) = v.toNat
  hex_leading : ∀ rest, hexadecimal v.toNat = 0x30 :: rest → v = 0
  hex_cap : v ≠ 0 → (hexDigits stack v).value = 0 ∧ (hexDigits stack v).i ≤ 8 ∧
    (hexDigits stack v).num 8 = 0

theorem uintDigits_print (stack : Bytes) {v : u32} (hv : v ≠ 0) :
    (reverse (uintDigits stack v).num).bind charsAt = some (decimal v.toNat) ∧
      (uintDigits stack v).value = 0 ∧ (uintDigits stack v).i ≤ 10 ∧ (uintDigits stack v).num 10 = 0 :=
  takesDigits_uint.print (fun d hd ↦ decimalChar_ne_zero hd) stack (k := 10) (by decide) trivial hv
    (by have hlt := v.isLt; omega)

theorem hexDigits_print (stack : Bytes) {v : u32} (hv : v ≠ 0) :
    (reverse (hexDigits stack v).num).bind charsAt = some (hexadecimal v.toNat) ∧
      (hexDigits stack v).value = 0 ∧ (hexDigits stack v).i ≤ 8 ∧ (hexDigits stack v).num 8 = 0 :=
  takesDigits_hex.print hexChar_ne_zero stack (k := 8) (by decide) trivial hv
    (by have hlt := v.isLt; omega)

theorem printUint_eq (stack : Bytes) (v : u32) : printUint stack v = some (decimal v.toNat) := by
  unfold printUint
  by_cases hv : v = 0
  · rw [if_pos hv, hv]
    rfl
  · rw [if_neg hv, (uintDigits_print stack hv).1]

theorem printHex_eq (stack : Bytes) (v : u32) :
    printHex stack v = some (0x30 :: 0x78 :: hexadecimal v.toNat) := by
  unfold printHex
  by_cases hv : v = 0
  · rw [if_pos hv, hv]
    rfl
  · rw [if_neg hv, (hexDigits_print stack hv).1]
    rfl

theorem unsignedNumerals (stack : Bytes) (v : u32) : UnsignedNumerals stack v where
  uint := printUint_eq stack v
  uint_read := readNumeral_decimal _
  uint_leading _ h := BitVec.eq_of_toNat_eq (decimal_leading h)
  uint_cap hv := (uintDigits_print stack hv).2
  hex := printHex_eq stack v
  hex_read := readNumeral_hexadecimal _
  hex_leading _ h := BitVec.eq_of_toNat_eq (hexadecimal_leading h)
  hex_cap hv := (hexDigits_print stack hv).2

end TenOs.Lib
