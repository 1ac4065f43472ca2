import Mathlib.Data.List.Forall2
import TenOs.Lib.Print

/-!
# `lib/print.c`: formats

`vformat_print` over a format in memory that goes on behind its NUL.  A run keeps the indices of the
bytes that it reads, the arguments that are left and the characters handed to `put_char`.
-/

namespace TenOs.Lib

open TenOs.Base

/-! ## The interpreter -/

/-- A variable argument: what `va_arg` is asked for. -/
inductive VaArg where
  | int (v : u32)
  | uint (v : u32)
  | str (s : CString)

/-- The cases of the `switch` that take an argument. -/
inductive Conversion where
  | char | hex | int | string | uint
  deriving DecidableEq

/-- `'c'`, `'x'`, `'d'` or `'i'`, `'s'` and `'u'`. -/
def conversionOf (c : u8) : Option Conversion :=
  if c = 0x63 then some .char
  else if c = 0x78 then some .hex
  else if c = 0x64 ∨ c = 0x69 then some .int
  else if c = 0x73 then some .string
  else if c = 0x75 then some .uint
  else none

/-- The characters of a string up to its NUL. -/
def CString.chars (s : CString) : List u8 := (List.range s.len).map s.byte

/-- What a conversion prints for its argument; an argument of another kind has no meaning. -/
def Conversion.put (stack : Bytes) : Conversion → VaArg → Option (List u8)
  | .char, .int value => some [value.setWidth 8]
  | .hex, .uint value => printHex stack value
  | .int, .int value => printInt stack value
  | .string, .str str => some str.chars
  | .uint, .uint value => printUint stack value
  | _, _ => none

/-- The `switch` on the character behind a `%`: the characters printed and the arguments left. -/
def directive (stack : Bytes) (c : u8) (args : List VaArg) : Option (List u8 × List VaArg) :=
  match conversionOf c, args with
  | some k, arg :: args => (k.put stack arg).map (·, args)
  | some _, [] => none
  | none, args => if c = 0x25 then some ([0x25], args) else some ([0x25, c], args)

/-- What a run of `vformat_print` does from some place in the format on. -/
structure FormatRun where
  stop : Nat
  reads : List Nat
  args : List VaArg
  out : List u8

/-- A turn that reads `reads` and prints `out`, before the run `r`. -/
def FormatRun.after (reads : List Nat) (out : List u8) (r : FormatRun) : FormatRun :=
  { r with reads := reads ++ r.reads, out := out ++ r.out }

/-- The loop of `vformat_print` from `p` on, or `none` when `k` turns do not end it or there is no
argument for a conversion. -/
def vformatPrint (stack fmt : Bytes) : (k p : Nat) → (args : List VaArg) → Option FormatRun
  | 0, _, _ => none
  | k + 1, p, args =>
      if fmt p = 0 then some ⟨p, [p], args, []⟩
      else if fmt p = 0x25 then
        (directive stack (fmt (p + 1)) args).bind fun r ↦
          (vformatPrint stack fmt k (p + 2) r.2).map (·.after [p, p + 1] r.1)
      else (vformatPrint stack fmt k (p + 1) args).map (·.after [p] [fmt p])

/-! ## What a format means -/

inductive FormatItem where
  | char (c : u8)
  | percent
  | unknown (c : u8)
  | conversion (k : Conversion)

/-- A `%` and the character behind it. -/
def itemOf (c : u8) : FormatItem :=
  match conversionOf c with
  | some k => .conversion k
  | none => if c = 0x25 then .percent else .unknown c

/-- The parts of a format, in order; a last `%` alone is a character. -/
def formatItems : List u8 → List FormatItem
  | [] => []
  | [c] => [.char c]
  | c :: d :: l => if c = 0x25 then itemOf d :: formatItems l else .char c :: formatItems (d :: l)

/-- The last character is a `%` that no other one belongs to. -/
def EndsInPercent : List u8 → Prop
  | [] => False
  | [c] => c = 0x25
  | c :: d :: l => if c = 0x25 then EndsInPercent l else EndsInPercent (d :: l)

def conversions : List FormatItem → List Conversion
  | [] => []
  | .conversion k :: l => k :: conversions l
  | _ :: l => conversions l

/-- An argument of the kind that a conversion asks for. -/
def Conversion.Takes : Conversion → VaArg → Prop
  | .char, .int _ | .int, .int _ | .hex, .uint _ | .uint, .uint _ | .string, .str _ => True
  | _, _ => False

/-- The value of an argument as text. -/
def Conversion.render : Conversion → VaArg → List u8
  | .char, .int value => [value.setWidth 8]
  | .hex, .uint value => 0x30 :: 0x78 :: hexadecimal value.toNat
  | .int, .int value => signedDecimal value.toInt
  | .string, .str str => str.chars
  | .uint, .uint value => decimal value.toNat
  | _, _ => []

/-- The text of a format, where `text` is the text of an argument. -/
def formatText (text : Conversion → VaArg → List u8) : List FormatItem → List VaArg → List u8
  | [], _ => []
  | .char c :: l, args => c :: formatText text l args
  | .percent :: l, args => 0x25 :: formatText text l args
  | .unknown c :: l, args => 0x25 :: c :: formatText text l args
  | .conversion k :: l, arg :: args => text k arg ++ formatText text l args
  | .conversion _ :: l, [] => formatText text l []

/-! ## One directive -/

section Directive

variable (stack : Bytes)

/-- What is printed for an argument. -/
def printedText (k : Conversion) (arg : VaArg) : List u8 := (k.put stack arg).getD []

/-- The one value that is not printed as its numeral. -/
def Conversion.Least : Conversion → VaArg → Prop
  | .int, .int value => value = 0x80000000
  | _, _ => False

/-- Every other argument is printed as its text. -/
theorem put_render {k : Conversion} {arg : VaArg} (h : k.Takes arg) (hleast : ¬ k.Least arg) :
    k.put stack arg = some (k.render arg) := by
  cases k with
  | char =>
    cases arg with
    | int value => rfl
    | _ => exact h.elim
  | hex =>
    cases arg with
    | uint value => exact printHex_eq stack value
    | _ => exact h.elim
  | int =>
    cases arg with
    | int value => exact printInt_eq stack hleast
    | _ => exact h.elim
  | string =>
    cases arg with
    | str str => rfl
    | _ => exact h.elim
  | uint =>
    cases arg with
    | uint value => exact printUint_eq stack value
    | _ => exact h.elim

theorem put_least {k : Conversion} {arg : VaArg} (hleast : k.Least arg) :
    k.put stack arg = some [0x2D] ∧ [(0x2D : u8)].length < (k.render arg).length := by
  cases k with
  | int =>
    cases arg with
    | int value =>
      subst hleast
      refine ⟨printInt_least stack, ?_⟩
      change 1 < (0x2D :: decimal 2147483648).length
      rw [decimal_of_le (by decide), List.length_cons, List.length_append, List.length_singleton]
      omega
    | _ => exact hleast.elim
  | _ => exact hleast.elim

theorem put_eq {k : Conversion} {arg : VaArg} (h : k.Takes arg) :
    k.put stack arg = some (printedText stack k arg) := by
  unfold printedText
  by_cases hleast : k.Least arg
  · rw [(put_least stack hleast).1]
    rfl
  · rw [put_render stack h hleast]
    rfl

theorem printedText_eq {k : Conversion} {arg : VaArg} (h : k.Takes arg) (hleast : ¬ k.Least arg) :
    printedText stack k arg = k.render arg := by
  rw [printedText, put_render stack h hleast]
  rfl

theorem printedText_length_lt {k : Conversion} {arg : VaArg} (hleast : k.Least arg) :
    (printedText stack k arg).length < (k.render arg).length := by
  rw [printedText, (put_least stack hleast).1]
  exact (put_least stack hleast).2

theorem printedText_length_le {k : Conversion} {arg : VaArg} (h : k.Takes arg) :
    (printedText stack k arg).length ≤ (k.render arg).length := by
  by_cases hleast : k.Least arg
  · exact (printedText_length_lt stack hleast).le
  · rw [printedText_eq stack h hleast]

/-- The arguments that the conversions of a format ask for. -/
abbrev Supplies (items : List FormatItem) (args : List VaArg) : Prop :=
  List.Forall₂ Conversion.Takes (conversions items) args

/-- A directive prints its part of the text and takes the argument of that part. -/
theorem directive_eq {c : u8} {items : List FormatItem} {args : List VaArg}
    (h : Supplies (itemOf c :: items) args) (rest : List VaArg) :
    ∃ out args', directive stack c (args ++ rest) = some (out, args' ++ rest) ∧
      Supplies items args' ∧ formatText (printedText stack) (itemOf c :: items) args =
        out ++ formatText (printedText stack) items args' := by
  cases hc : conversionOf c with
  | some k =>
    have hitem : itemOf c = .conversion k := by rw [itemOf, hc]
    rw [hitem] at h ⊢
    obtain ⟨arg, args', hk, hargs, rfl⟩ := List.forall₂_cons_left_iff.mp h
    refine ⟨printedText stack k arg, args', ?_, hargs, rfl⟩
    unfold directive
    rw [hc]
    change (k.put stack arg).map _ = _
    rw [put_eq stack hk]
    rfl
  | none =>
    by_cases hpercent : c = 0x25
    · have hitem : itemOf c = .percent := by rw [itemOf, hc]; exact if_pos hpercent
      rw [hitem] at h ⊢
      refine ⟨[0x25], args, ?_, h, rfl⟩
      unfold directive
      rw [hc]
      exact if_pos hpercent
    · have hitem : itemOf c = .unknown c := by rw [itemOf, hc]; exact if_neg hpercent
      rw [hitem] at h ⊢
      refine ⟨[0x25, c], args, ?_, h, rfl⟩
      unfold directive
      rw [hc]
      exact if_neg hpercent

end Directive

/-! ## A run -/

variable {stack fmt : Bytes} {p : Nat} {c : u8} {l : List u8}

theorem StringAt.head (h : StringAt (pointerAt fmt p) (c :: l)) : fmt p = c ∧ c ≠ 0 := by
  have hbyte := h.byte 0 (by rw [List.length_cons]; omega)
  exact ⟨(Option.some.inj hbyte).symm, h.ne_nul c List.mem_cons_self⟩

theorem StringAt.tail (h : StringAt (pointerAt fmt p) (c :: l)) :
    StringAt (pointerAt fmt (p + 1)) l := by
  have hshift (j : Nat) : pointerAt fmt (p + 1) j = pointerAt fmt p (j + 1) :=
    congrArg fmt (by omega)
  refine ⟨fun j hj ↦ ?_, ?_, fun d hd ↦ h.ne_nul d (List.mem_cons_of_mem c hd)⟩
  · rw [hshift, ← h.byte (j + 1) (by rw [List.length_cons]; omega), List.getElem?_cons_succ]
  · rw [hshift]
    exact h.nul

theorem StringAt.nil (h : StringAt (pointerAt fmt p) []) : fmt p = 0 := h.nul

theorem CString.stringAt (s : CString) : StringAt (pointerAt s.byte 0) s.chars := by
  have hbyte (j : Nat) : pointerAt s.byte 0 j = s.byte j := congrArg s.byte (Nat.zero_add j)
  have hlen : s.chars.length = s.len := by rw [CString.chars, List.length_map, List.length_range]
  refine ⟨fun j hj ↦ ?_, ?_, fun c hc ↦ ?_⟩
  · rw [hlen] at hj
    rw [hbyte, CString.chars, List.getElem?_map, List.getElem?_range hj]
    rfl
  · rw [hbyte, hlen, s.nul]
  · obtain ⟨j, hj, rfl⟩ := List.mem_map.mp hc
    exact s.ne_nul j (List.mem_range.mp hj)

theorem vformatPrint_nul (k : Nat) (hp : fmt p = 0) (args : List VaArg) :
    vformatPrint stack fmt (k + 1) p args = some ⟨p, [p], args, []⟩ := by
  rw [vformatPrint, if_pos hp]

theorem vformatPrint_percent (k : Nat) (hp : fmt p = 0x25) (args : List VaArg) :
    vformatPrint stack fmt (k + 1) p args =
      (directive stack (fmt (p + 1)) args).bind fun r ↦
        (vformatPrint stack fmt k (p + 2) r.2).map (·.after [p, p + 1] r.1) := by
  rw [vformatPrint, if_neg (by rw [hp]; decide), if_pos hp]

theorem vformatPrint_char (k : Nat) (hzero : fmt p ≠ 0) (hp : fmt p ≠ 0x25) (args : List VaArg) :
    vformatPrint stack fmt (k + 1) p args =
      (vformatPrint stack fmt k (p + 1) args).map (·.after [p] [fmt p]) := by
  rw [vformatPrint, if_neg hzero, if_neg hp]

/-- From `p` on, where `l` is the text up to the NUL, the run stops at the NUL, reads nothing behind
it, leaves `rest` of the arguments and prints the text of the format. -/
structure FormatRun.Follows (r : FormatRun) (text : Conversion → VaArg → List u8) (p : Nat)
    (l : List u8) (args rest : List VaArg) : Prop where
  stop : r.stop = p + l.length
  inside : ∀ a ∈ r.reads, a ≤ p + l.length
  left : r.args = rest
  out : r.out = formatText text (formatItems l) args

theorem FormatRun.Follows.after (front : List u8) {r : FormatRun}
    {text : Conversion → VaArg → List u8} {args args' rest : List VaArg} {reads : List Nat}
    {out : List u8} (h : r.Follows text (p + front.length) l args' rest)
    (hreads : ∀ a ∈ reads, a ≤ p + front.length)
    (hout : formatText text (formatItems (front ++ l)) args =
      out ++ formatText text (formatItems l) args') :
    (r.after reads out).Follows text p (front ++ l) args rest := by
  refine ⟨?_, fun a ha ↦ ?_, h.left, ?_⟩
  · rw [List.length_append, ← Nat.add_assoc]
    exact h.stop
  · rw [List.length_append]
    rcases List.mem_append.mp ha with ha | ha
    · exact (hreads a ha).trans (by omega)
    · exact (h.inside a ha).trans (by omega)
  · rw [hout, ← h.out]
    rfl

/-- A format in which every `%` has its second character is followed to its end. -/
theorem vformatPrint_follows (stack : Bytes) {args : List VaArg} (rest : List VaArg)
    (h : StringAt (pointerAt fmt p) l) (hend : ¬ EndsInPercent l)
    (hargs : Supplies (formatItems l) args) :
    ∃ k r, vformatPrint stack fmt k p (args ++ rest) = some r ∧
      r.Follows (printedText stack) p l args rest := by
  induction l using formatItems.induct generalizing p args with
  | case1 =>
    have hnil : args = [] := List.forall₂_nil_left_iff.mp hargs
    refine ⟨1, ⟨p, [p], rest, []⟩, ?_, rfl, fun a ha ↦ ?_, rfl, rfl⟩
    · rw [hnil]
      exact vformatPrint_nul 0 h.nil rest
    · exact (List.mem_singleton.mp ha).le
  | case2 c =>
    obtain ⟨hc, hne⟩ := h.head
    have hnil : args = [] := List.forall₂_nil_left_iff.mp hargs
    refine ⟨2, ⟨p + 1, [p, p + 1], rest, [c]⟩, ?_, rfl, fun a ha ↦ ?_, rfl, rfl⟩
    · rw [vformatPrint_char 1 (hc ▸ hne) (hc ▸ hend), vformatPrint_nul 0 h.tail.nil, hnil, hc]
      rfl
    · rw [List.length_singleton]
      rcases List.mem_pair.mp ha with rfl | rfl <;> omega
  | case3 d l ih =>
    obtain ⟨hc, -⟩ := h.head
    obtain ⟨hd, -⟩ := h.tail.head
    rw [EndsInPercent, if_pos rfl] at hend
    rw [formatItems, if_pos rfl] at hargs
    obtain ⟨out, args', hdirective, hargs', hout⟩ := directive_eq stack hargs rest
    obtain ⟨k, r, hr, hfollows⟩ := ih h.tail.tail hend hargs'
    refine ⟨k + 1, r.after [p, p + 1] out, ?_, ?_⟩
    · rw [vformatPrint_percent k hc, hd, hdirective, Option.bind_some, hr]
      rfl
    · refine FormatRun.Follows.after [0x25, d] hfollows (fun a ha ↦ ?_) ?_
      · rcases List.mem_pair.mp ha with rfl | rfl
        · exact Nat.le_add_right a 2
        · exact Nat.le_succ (p + 1)
      · change formatText _ (formatItems (0x25 :: d :: l)) args = _
        rw [formatItems, if_pos rfl]
        exact hout
  | case4 c d l hpercent ih =>
    obtain ⟨hc, hne⟩ := h.head
    rw [EndsInPercent, if_neg hpercent] at hend
    rw [formatItems, if_neg hpercent] at hargs
    obtain ⟨k, r, hr, hfollows⟩ := ih h.tail hend hargs
    refine ⟨k + 1, r.after [p] [fmt p], ?_, ?_⟩
    · rw [vformatPrint_char k (hc ▸ hne) (hc ▸ hpercent), hr]
      rfl
    · refine FormatRun.Follows.after [c] hfollows (fun a ha ↦ ?_) ?_
      · exact (List.mem_singleton.mp ha).le.trans (Nat.le_succ p)
      · change formatText _ (formatItems (c :: d :: l)) args = _
        rw [formatItems, if_neg hpercent, hc]
        rfl

/-! ## A format that ends in a `%` -/

theorem mem_reads_start {k : Nat} {args : List VaArg} {r : FormatRun}
    (h : vformatPrint stack fmt k p args = some r) : p ∈ r.reads := by
  cases k with
  | zero => cases h
  | succ k =>
    by_cases hzero : fmt p = 0
    · rw [vformatPrint_nul k hzero, Option.some.injEq] at h
      rw [← h]
      exact List.mem_cons_self
    · by_cases hpercent : fmt p = 0x25
      · rw [vformatPrint_percent k hpercent] at h
        obtain ⟨x, -, hx⟩ := Option.bind_eq_some_iff.mp h
        obtain ⟨r', -, rfl⟩ := Option.map_eq_some_iff.mp hx
        exact List.mem_cons_self
      · rw [vformatPrint_char k hzero hpercent] at h
        obtain ⟨r', -, rfl⟩ := Option.map_eq_some_iff.mp h
        exact List.mem_cons_self

-- The last `%` takes the NUL for its second character, and the loop goes on behind it.
theorem vformatPrint_reads_beyond {k : Nat} {args : List VaArg} {r : FormatRun}
    (h : StringAt (pointerAt fmt p) l) (hend : EndsInPercent l)
    (hr : vformatPrint stack fmt k p args = some r) : ∃ a ∈ r.reads, p + l.length < a := by
  induction l using formatItems.induct generalizing k p args r with
  | case1 => exact hend.elim
  | case2 c =>
    obtain ⟨hc, -⟩ := h.head
    cases k with
    | zero => cases hr
    | succ k =>
      rw [vformatPrint_percent k (hc.trans hend)] at hr
      obtain ⟨x, -, hx⟩ := Option.bind_eq_some_iff.mp hr
      obtain ⟨r', hr', rfl⟩ := Option.map_eq_some_iff.mp hx
      exact ⟨p + 2, List.mem_append_right _ (mem_reads_start hr'), Nat.lt_succ_self _⟩
  | case3 d l ih =>
    obtain ⟨hc, -⟩ := h.head
    rw [EndsInPercent, if_pos rfl] at hend
    cases k with
    | zero => cases hr
    | succ k =>
      rw [vformatPrint_percent k hc] at hr
      obtain ⟨x, -, hx⟩ := Option.bind_eq_some_iff.mp hr
      obtain ⟨r', hr', rfl⟩ := Option.map_eq_some_iff.mp hx
      obtain ⟨a, ha, hlt⟩ := ih h.tail.tail hend hr'
      exact ⟨a, List.mem_append_right _ ha, by simp only [List.length_cons]; omega⟩
  | case4 c d l hpercent ih =>
    obtain ⟨hc, hne⟩ := h.head
    rw [EndsInPercent, if_neg hpercent] at hend
    cases k with
    | zero => cases hr
    | succ k =>
      rw [vformatPrint_char k (hc ▸ hne) (hc ▸ hpercent)] at hr
      obtain ⟨r', hr', rfl⟩ := Option.map_eq_some_iff.mp hr
      obtain ⟨a, ha, hlt⟩ := ih h.tail hend hr'
      exact ⟨a, List.mem_append_right _ ha, by simp only [List.length_cons] at hlt ⊢; omega⟩

/-! ## The text that is printed -/

theorem printedText_le (stack : Bytes) {items : List FormatItem} {args : List VaArg}
    (h : Supplies items args) :
    (formatText (printedText stack) items args).length ≤
      (formatText Conversion.render items args).length := by
  induction items generalizing args with
  | nil => exact Nat.le_refl _
  | cons item items ih =>
    cases item with
    | char c => exact Nat.succ_le_succ (ih h)
    | percent => exact Nat.succ_le_succ (ih h)
    | unknown c => exact Nat.succ_le_succ (Nat.succ_le_succ (ih h))
    | conversion k =>
      obtain ⟨arg, args', hk, hargs, rfl⟩ := List.forall₂_cons_left_iff.mp h
      simp only [formatText, List.length_append]
      exact Nat.add_le_add (printedText_length_le stack hk) (ih hargs)

/-- The text printed is that of the format when no argument is the one without a numeral. -/
theorem printedText_eq_iff {items : List FormatItem} {args : List VaArg} (h : Supplies items args) :
    formatText (printedText stack) items args = formatText Conversion.render items args ↔
      List.Forall₂ (fun k arg ↦ ¬ k.Least arg) (conversions items) args := by
  induction items generalizing args with
  | nil =>
    have hnil : args = [] := List.forall₂_nil_left_iff.mp h
    rw [hnil]
    exact ⟨fun _ ↦ List.Forall₂.nil, fun _ ↦ rfl⟩
  | cons item items ih =>
    cases item with
    | char c => exact (List.cons_inj_right _).trans (ih h)
    | percent => exact (List.cons_inj_right _).trans (ih h)
    | unknown c => exact (List.cons_inj_right _).trans ((List.cons_inj_right _).trans (ih h))
    | conversion k =>
      obtain ⟨arg, args', hk, hargs, rfl⟩ := List.forall₂_cons_left_iff.mp h
      have hle := printedText_le stack hargs
      simp only [formatText, conversions, List.forall₂_cons]
      by_cases hleast : k.Least arg
      · have hlt := printedText_length_lt stack hleast
        refine ⟨fun heq ↦ ?_, fun hall ↦ absurd hleast hall.1⟩
        have hlength := congrArg List.length heq
        rw [List.length_append, List.length_append] at hlength
        omega
      · rw [printedText_eq stack hk hleast, List.append_cancel_left_eq, ih hargs]
        exact ⟨fun hall ↦ ⟨hleast, hall⟩, fun hall ↦ hall.2⟩

/-! ## Every format -/

theorem vformatPrint_mono {k : Nat} {args : List VaArg} {r : FormatRun}
    (h : vformatPrint stack fmt k p args = some r) (n : Nat) :
    vformatPrint stack fmt (k + n) p args = some r := by
  induction k generalizing p args r with
  | zero => cases h
  | succ k ih =>
    rw [Nat.succ_add]
    by_cases hzero : fmt p = 0
    · rw [vformatPrint_nul k hzero] at h
      rw [vformatPrint_nul (k + n) hzero, h]
    · by_cases hpercent : fmt p = 0x25
      · rw [vformatPrint_percent k hpercent] at h
        obtain ⟨x, hx, hr⟩ := Option.bind_eq_some_iff.mp h
        obtain ⟨r', hr', rfl⟩ := Option.map_eq_some_iff.mp hr
        rw [vformatPrint_percent (k + n) hpercent, hx, Option.bind_some, ih hr']
        rfl
      · rw [vformatPrint_char k hzero hpercent] at h
        obtain ⟨r', hr', rfl⟩ := Option.map_eq_some_iff.mp h
        rw [vformatPrint_char (k + n) hzero hpercent, ih hr']
        rfl

theorem vformatPrint_unique {k k' : Nat} {args : List VaArg} {r r' : FormatRun}
    (h : vformatPrint stack fmt k p args = some r)
    (h' : vformatPrint stack fmt k' p args = some r') : r = r' := by
  have hr := vformatPrint_mono h k'
  have hr' := vformatPrint_mono h' k
  rw [Nat.add_comm, hr, Option.some.injEq] at hr'
  exact hr'

/-- The run over `fmt` ends, stays inside it, takes `args` and prints the text of the format. -/
def FormatPrinted (stack : Bytes) (fmt : CString) (args rest : List VaArg) : Prop :=
  ∃ k r, vformatPrint stack fmt.byte k 0 (args ++ rest) = some r ∧
    r.Follows Conversion.render 0 fmt.chars args rest

/-- A format is followed unless it ends in a `%`, or is to print the `int` that has no numeral. -/
theorem formatPrinted_iff (stack : Bytes) (fmt : CString) {args : List VaArg} (rest : List VaArg)
    (hargs : Supplies (formatItems fmt.chars) args) :
    FormatPrinted stack fmt args rest ↔ ¬ EndsInPercent fmt.chars ∧
      List.Forall₂ (fun k arg ↦ ¬ k.Least arg) (conversions (formatItems fmt.chars)) args := by
  constructor
  · rintro ⟨k, r, hr, hfollows⟩
    have hend : ¬ EndsInPercent fmt.chars := by
      intro hend
      obtain ⟨a, ha, hlt⟩ := vformatPrint_reads_beyond fmt.stringAt hend hr
      exact absurd (hfollows.inside a ha) (by omega)
    obtain ⟨k', r', hr', hfollows'⟩ :=
      vformatPrint_follows stack rest fmt.stringAt hend hargs
    have hout := hfollows.out
    rw [vformatPrint_unique hr hr', hfollows'.out] at hout
    exact ⟨hend, (printedText_eq_iff hargs).mp hout⟩
  · rintro ⟨hend, hleast⟩
    obtain ⟨k, r, hr, hfollows⟩ :=
      vformatPrint_follows stack rest fmt.stringAt hend hargs
    refine ⟨k, r, hr, hfollows.stop, hfollows.inside, hfollows.left, ?_⟩
    rw [hfollows.out]
    exact (printedText_eq_iff hargs).mpr hleast

/-- `"x%d"` -/
def numberFormat : CString := CString.ofList [0x78, 0x25, 0x64] (by decide)

theorem formatPrinted_number : Supplies (formatItems numberFormat.chars) [.int (-5)] ∧
    FormatPrinted (fun _ ↦ 0) numberFormat [.int (-5)] [] := by
  have hargs : Supplies (formatItems numberFormat.chars) [.int (-5)] :=
    List.Forall₂.cons trivial List.Forall₂.nil
  have hvalue : ¬ Conversion.int.Least (.int (-5)) := by
    change ¬ (-5 : u32) = 0x80000000
    decide
  exact ⟨hargs, (formatPrinted_iff _ _ [] hargs).mpr
    ⟨fun hend ↦ hend, List.Forall₂.cons hvalue List.Forall₂.nil⟩⟩

/-- `"100%"` -/
def percentFormat : CString := CString.ofList [0x31, 0x30, 0x30, 0x25] (by decide)

-- The last `%` takes the loop behind the NUL.
theorem not_formatPrinted_percent : ¬ ∀ stack fmt args rest,
    Supplies (formatItems fmt.chars) args → FormatPrinted stack fmt args rest := by
  intro h
  have hargs : Supplies (formatItems percentFormat.chars) [] := List.Forall₂.nil
  have hend : EndsInPercent percentFormat.chars := rfl
  obtain ⟨k, r, hr, hfollows⟩ := h (fun _ ↦ 0) percentFormat [] [] hargs
  obtain ⟨a, ha, hlt⟩ := vformatPrint_reads_beyond percentFormat.stringAt hend hr
  exact absurd (hfollows.inside a ha) (by omega)

end TenOs.Lib
