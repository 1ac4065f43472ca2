import Mathlib.Data.List.TakeWhile
import TenOs.Base.While
import TenOs.Fs.File

/-!
# The 8.3 name codec

`to_dos_filename` writes the 11 bytes of a directory entry, and `fat12_list_root` turns them into a
name again.  On names of a base and an optional extension the two undo each other, but for the case of
the letters.
-/

namespace TenOs.Fs

open TenOs.Base TenOs.Lib TenOs.Drivers

/-! ## Names -/

/-- The characters before the NUL. -/
def text (s : CString) : List u8 := (List.range s.len).map s.byte

theorem text_length (s : CString) : (text s).length = s.len := by
  rw [text, List.length_map, List.length_range]

theorem byte_eq_text (s : CString) {i : Nat} (h : i ≤ s.len) : s.byte i = (text s).getD i 0 := by
  by_cases hlt : i < s.len
  · rw [List.getD_eq_getElem _ _ (by rwa [text_length])]
    simp only [text, List.getElem_map, List.getElem_range]
  · rw [show i = s.len by omega, s.nul, List.getD_eq_default _ _ (by rw [text_length])]

/-- A character that may stand in a base or an extension. -/
def Plain (c : u8) : Prop := c ≠ 0 ∧ c ≠ charDot ∧ c ≠ charSpace

/-- A name of a base of 1 to 8 characters and an extension of at most 3, which is empty when the name
has none. -/
structure ShortName where
  base : List u8
  ext : List u8
  base_pos : 0 < base.length
  base_le : base.length ≤ 8
  ext_le : ext.length ≤ 3
  plain_base : ∀ c ∈ base, Plain c
  plain_ext : ∀ c ∈ ext, Plain c

namespace ShortName

variable (n : ShortName)

/-- `base` or `base.ext`. -/
def chars : List u8 := if n.ext = [] then n.base else n.base ++ charDot :: n.ext

/-- The 11-byte field of base and extension, each followed only by padding spaces. -/
def field : DosName := fun k ↦
  if k.val < 8 then n.base.getD k charSpace else n.ext.getD (k - 8) charSpace

end ShortName

/-! ## Capitals -/

theorem toUpper_plain {c : u8} (h : Plain c) : Plain (toUpper c) := by
  unfold Plain at h ⊢
  revert h
  revert c
  decide +kernel

/-- One of the letters `a` to `z`. -/
def IsLower (c : u8) : Prop := charA.toNat ≤ c.toNat ∧ c.toNat ≤ charZ.toNat

theorem toUpper_of_lower {c : u8} (h : IsLower c) : toUpper c = c - 0x20#8 := by
  unfold IsLower at h
  revert h
  revert c
  decide +kernel

theorem toUpper_of_not_lower {c : u8} (h : ¬ IsLower c) : toUpper c = c := by
  unfold IsLower at h
  revert h
  revert c
  decide +kernel

theorem not_isLower_capital {c : u8} (h : IsLower c) : ¬ IsLower (c - 0x20#8) := by
  unfold IsLower at h ⊢
  revert h
  revert c
  decide +kernel

/-- The same character, or the same letter in lower and in upper case. -/
def SameLetter (c d : u8) : Prop :=
  c = d ∨ (IsLower c ∧ d = c - 0x20#8) ∨ (IsLower d ∧ c = d - 0x20#8)

theorem toUpper_eq_iff (c d : u8) : toUpper c = toUpper d ↔ SameLetter c d := by
  unfold SameLetter
  by_cases hc : IsLower c
  · have hcap := not_isLower_capital hc
    rw [toUpper_of_lower hc]
    by_cases hd : IsLower d
    · have hne : d ≠ c - 0x20#8 := fun h ↦ hcap (h ▸ hd)
      have hne' : c ≠ d - 0x20#8 := fun h ↦ not_isLower_capital hd (h ▸ hc)
      rw [toUpper_of_lower hd]
      simp only [hne, hne', and_false, or_false]
      exact ⟨fun h ↦ by bv_omega, fun h ↦ by rw [h]⟩
    · have hne : c ≠ d := fun h ↦ hd (h ▸ hc)
      rw [toUpper_of_not_lower hd]
      simp only [hne, hc, hd, true_and, false_and, or_false, false_or]
      exact eq_comm
  · rw [toUpper_of_not_lower hc]
    by_cases hd : IsLower d
    · have hne : c ≠ d := fun h ↦ hc (h ▸ hd)
      rw [toUpper_of_lower hd]
      simp only [hne, hc, hd, true_and, false_and, false_or]
    · rw [toUpper_of_not_lower hd]
      simp only [hc, hd, false_and, or_false]

/-! ## The encoder's loops -/

/-- The output after `n` characters from `i` on have been stored as capitals from `j` on. -/
def storedUpper (input : Bytes) (i j n : Nat) (output : Bytes) : Bytes := fun a ↦
  if j ≤ a ∧ a < j + n then toUpper (input (i + (a - j))) else output a

theorem storedUpper_zero (input : Bytes) (i j : Nat) (output : Bytes) :
    storedUpper input i j 0 output = output :=
  funext fun a ↦ if_neg (by omega)

theorem storedUpper_succ (input : Bytes) (i j n : Nat) (output : Bytes) :
    storedUpper input (i + 1) (j + 1) n (Function.update output j (toUpper (input i))) =
      storedUpper input i j (n + 1) output := by
  funext a
  unfold storedUpper
  by_cases ha : a = j
  · rw [if_neg (by omega), if_pos (by omega), ha, Function.update_self, Nat.sub_self]
    rfl
  · rw [Function.update_of_ne ha]
    by_cases hin : j + 1 ≤ a ∧ a < j + 1 + n
    · rw [if_pos hin, if_pos (by omega), show i + 1 + (a - (j + 1)) = i + (a - j) by omega]
    · rw [if_neg hin, if_neg (by omega)]

-- The loop copies up to the first NUL or dot, or until it has copied all it may.
theorem copyName_eq (input : Bytes) {k n : Nat} (i j : Nat) (output : Bytes) (hn : n ≤ k)
    (hrun : ∀ m < n, input (i + m) ≠ 0 ∧ input (i + m) ≠ charDot)
    (hstop : n = k ∨ input (i + n) = 0 ∨ input (i + n) = charDot) :
    copyName input k i j output = (i + n, storedUpper input i j n output) := by
  induction k generalizing i j n output with
  | zero =>
    rw [copyName, Nat.le_zero.mp hn, storedUpper_zero]
    rfl
  | succ k ih =>
    cases n with
    | zero =>
      have hend : ¬ (input i ≠ 0 ∧ input i ≠ charDot) := by
        rcases hstop with h | h | h
        · cases h
        · exact fun hgo ↦ hgo.1 h
        · exact fun hgo ↦ hgo.2 h
      rw [copyName, if_neg hend, storedUpper_zero]
      rfl
    | succ n =>
      have hgo : input i ≠ 0 ∧ input i ≠ charDot := hrun 0 (Nat.zero_lt_succ n)
      have hshift (m : Nat) : i + 1 + m = i + (m + 1) := by omega
      rw [copyName, if_pos hgo, ih (i + 1) (j + 1) _ (Nat.le_of_succ_le_succ hn)
        (fun m hm ↦ hshift m ▸ hrun (m + 1) (by omega))
        (hshift n ▸ hstop.imp_left Nat.succ.inj), storedUpper_succ, hshift]

theorem copyExtension_eq (input : Bytes) {k n : Nat} (i j : Nat) (output : Bytes) (hn : n ≤ k)
    (hrun : ∀ m < n, input (i + m) ≠ 0) (hstop : n = k ∨ input (i + n) = 0) :
    copyExtension input k i j output = storedUpper input i j n output := by
  induction k generalizing i j n output with
  | zero => rw [copyExtension, Nat.le_zero.mp hn, storedUpper_zero]
  | succ k ih =>
    cases n with
    | zero =>
      have hend : ¬ input i ≠ 0 := by
        rcases hstop with h | h
        · cases h
        · exact fun hgo ↦ hgo h
      rw [copyExtension, if_neg hend, storedUpper_zero]
    | succ n =>
      have hgo : input i ≠ 0 := hrun 0 (Nat.zero_lt_succ n)
      have hshift (m : Nat) : i + 1 + m = i + (m + 1) := by omega
      rw [copyExtension, if_pos hgo, ih (i + 1) (j + 1) _ (Nat.le_of_succ_le_succ hn)
        (fun m hm ↦ hshift m ▸ hrun (m + 1) (by omega))
        (hshift n ▸ hstop.imp_left Nat.succ.inj), storedUpper_succ]

theorem findExtension_eq (input : CString) {i e : Nat} (hi : i ≤ e) (he : e ≤ input.len)
    (hrun : ∀ m, i ≤ m → m < e → input.byte m ≠ 0 ∧ input.byte m ≠ charDot)
    (hstop : input.byte e = 0 ∨ input.byte e = charDot) : findExtension input i = e := by
  have hfind : firstFrom (fun i ↦ if input.byte i = 0 ∨ input.byte i = charDot then some i else none)
      (input.len + 1) i = some e := by
    refine (firstFrom_eq_some_iff _ _ _ _).mpr ⟨e, hi, by omega, if_pos hstop, fun m hm hme ↦ ?_⟩
    obtain ⟨h0, hdot⟩ := hrun m hm hme
    exact if_neg fun h ↦ h.elim h0 hdot
  rw [findExtension, hfind, Option.getD_some]

/-! ## Encoding a name -/

namespace ShortName

variable {n : ShortName} {s : CString}

theorem byte_base (h : text s = n.chars) {i : Nat} (hi : i < n.base.length) :
    s.byte i = n.base.getD i 0 := by
  have hlen := text_length s
  rw [h, chars] at hlen
  have hle : i ≤ s.len := by
    split at hlen
    · omega
    · rw [List.length_append] at hlen
      omega
  rw [byte_eq_text s hle, h, chars]
  split
  · rfl
  · rw [List.getD_append _ _ _ _ hi]

theorem byte_base_ne (h : text s = n.chars) {i : Nat} (hi : i < n.base.length) :
    s.byte i ≠ 0 ∧ s.byte i ≠ charDot := by
  have hplain := n.plain_base _ (List.getElem_mem hi)
  rw [byte_base h hi, List.getD_eq_getElem _ _ hi]
  exact ⟨hplain.1, hplain.2.1⟩

-- Behind the base comes the NUL or the dot.
theorem byte_behind_base (h : text s = n.chars) :
    s.byte n.base.length = if n.ext = [] then 0 else charDot := by
  have hlen := text_length s
  rw [h, chars] at hlen
  split
  · rename_i hext
    rw [if_pos hext] at hlen
    rw [hlen, s.nul]
  · rename_i hext
    rw [if_neg hext, List.length_append] at hlen
    rw [byte_eq_text s (by omega), h, chars, if_neg hext,
      List.getD_append_right _ _ _ _ (Nat.le_refl _), Nat.sub_self]
    rfl

theorem byte_ext (h : text s = n.chars) (hext : n.ext ≠ []) {i : Nat} (hi : i ≤ n.ext.length) :
    s.byte (n.base.length + 1 + i) = n.ext.getD i 0 := by
  have hlen := text_length s
  rw [h, chars, if_neg hext, List.length_append, List.length_cons] at hlen
  rw [byte_eq_text s (by omega), h, chars, if_neg hext,
    List.getD_append_right _ _ _ _ (by omega),
    show n.base.length + 1 + i - n.base.length = i + 1 by omega]
  rfl

theorem base_len_le (h : text s = n.chars) : n.base.length ≤ s.len := by
  have hlen := text_length s
  rw [h, chars] at hlen
  split at hlen
  · omega
  · rw [List.length_append] at hlen
    omega

/-- The name with its letters as capitals. -/
def upper (n : ShortName) : ShortName where
  base := n.base.map toUpper
  ext := n.ext.map toUpper
  base_pos := by rw [List.length_map]; exact n.base_pos
  base_le := by rw [List.length_map]; exact n.base_le
  ext_le := by rw [List.length_map]; exact n.ext_le
  plain_base c hc := by
    obtain ⟨d, hd, rfl⟩ := List.mem_map.mp hc
    exact toUpper_plain (n.plain_base d hd)
  plain_ext c hc := by
    obtain ⟨d, hd, rfl⟩ := List.mem_map.mp hc
    exact toUpper_plain (n.plain_ext d hd)

theorem chars_upper (n : ShortName) : n.upper.chars = n.chars.map toUpper := by
  unfold chars upper
  have hdot : toUpper charDot = charDot := by decide
  by_cases hext : n.ext = []
  · rw [if_pos (List.map_eq_nil_iff.mpr hext), if_pos hext]
  · rw [if_neg (mt List.map_eq_nil_iff.mp hext), if_neg hext, List.map_append, List.map_cons, hdot]

-- The capitals of the characters, and spaces behind them.
theorem map_toUpper_getD (l : List u8) (i : Nat) :
    (l.map toUpper).getD i charSpace = if i < l.length then toUpper (l.getD i 0) else charSpace := by
  by_cases hi : i < l.length
  · rw [if_pos hi, List.getD_eq_getElem _ _ (by rwa [List.length_map]), List.getElem_map,
      List.getD_eq_getElem _ _ hi]
  · rw [if_neg hi, List.getD_eq_default _ _ (by rw [List.length_map]; omega)]

/-- `to_dos_filename` on a name: the field of the capitals. -/
theorem dosName_eq (h : text s = n.chars) : dosName s = n.upper.field := by
  have hbase := n.base_le
  have hext3 := n.ext_le
  have hbehind := byte_behind_base h
  have hstop : s.byte n.base.length = 0 ∨ s.byte n.base.length = charDot := by
    rw [hbehind]
    split
    · exact Or.inl rfl
    · exact Or.inr rfl
  have hcopy (output : Bytes) : copyName s.byte 8 0 0 output =
      (n.base.length, storedUpper s.byte 0 0 n.base.length output) := by
    have hrun (m : Nat) (hm : m < n.base.length) :
        s.byte (0 + m) ≠ 0 ∧ s.byte (0 + m) ≠ charDot := by
      rw [Nat.zero_add]
      exact byte_base_ne h hm
    rw [copyName_eq s.byte 0 0 output hbase hrun (by rw [Nat.zero_add]; exact Or.inr hstop),
      Nat.zero_add]
  have hfind : findExtension s n.base.length = n.base.length :=
    findExtension_eq s (Nat.le_refl _) (base_len_le h) (fun m h1 h2 ↦ by omega) hstop
  have hspace (a : Nat) (ha : a < 11) : memset (fun _ ↦ 0) 0 charSpace 11 a = charSpace := by
    rw [memset, fillCells_apply, if_pos (by omega)]
  funext k
  have hk := k.isLt
  change toDosFilename s (fun _ ↦ 0) k = _
  simp only [toDosFilename, hcopy, hfind, field, upper, map_toUpper_getD]
  by_cases hext : n.ext = []
  · -- no extension: the bytes behind the base stay spaces
    rw [if_pos hext] at hbehind
    rw [hbehind, if_neg (by decide), hext]
    unfold storedUpper
    by_cases hin : k.val < n.base.length
    · rw [if_pos (by omega), if_pos (by omega), if_pos hin, Nat.zero_add, Nat.sub_zero,
        byte_base h hin]
    · rw [if_neg (by omega), if_neg hin, hspace _ hk]
      split <;> rfl
  · rw [if_neg hext] at hbehind
    have hcopyExt (output : Bytes) : copyExtension s.byte 3 (n.base.length + 1) 8 output =
        storedUpper s.byte (n.base.length + 1) 8 n.ext.length output := by
      refine copyExtension_eq s.byte _ 8 output hext3 (fun m hm ↦ ?_) (Or.inr ?_)
      · rw [byte_ext h hext (Nat.le_of_lt hm), List.getD_eq_getElem _ _ hm]
        exact (n.plain_ext _ (List.getElem_mem hm)).1
      · rw [byte_ext h hext (Nat.le_refl _), List.getD_eq_default _ _ (Nat.le_refl _)]
    rw [hbehind, if_pos rfl, hcopyExt]
    unfold storedUpper
    by_cases hfst : k.val < 8
    · rw [if_neg (by omega), if_pos hfst]
      by_cases hin : k.val < n.base.length
      · rw [if_pos (by omega), if_pos hin, Nat.zero_add, Nat.sub_zero, byte_base h hin]
      · rw [if_neg (by omega), if_neg hin, hspace _ hk]
    · rw [if_neg hfst]
      by_cases hin : k.val - 8 < n.ext.length
      · rw [if_pos (by omega), if_pos hin, byte_ext h hext (by omega)]
      · rw [if_neg (by omega), if_neg (by omega), if_neg hin, hspace _ hk]

/-! ## Rendering a field -/

theorem ofFn_getD (l : List u8) {m : Nat} (h : l.length ≤ m) :
    (List.ofFn fun j : Fin m ↦ l.getD j charSpace) =
      l ++ List.replicate (m - l.length) charSpace := by
  apply List.ext_getElem
  · rw [List.length_ofFn, List.length_append, List.length_replicate]
    omega
  · intro i h1 h2
    rw [List.getElem_ofFn, ← List.getD_eq_getElem (d := charSpace) _ h2]
    dsimp only
    by_cases hi : i < l.length
    · rw [List.getD_append _ _ _ _ hi]
    · rw [List.getD_append_right _ _ _ _ (by omega), List.getD_eq_default _ _ (by omega)]
      simp

theorem takeWhile_padded {l : List u8} (h : ∀ c ∈ l, Plain c) (k : Nat) :
    (l ++ List.replicate k charSpace).takeWhile (· ≠ charSpace) = l := by
  have hplain (c : u8) (hc : c ∈ l) : decide (c ≠ charSpace) = true :=
    decide_eq_true (h c hc).2.2
  rw [List.takeWhile_append_of_pos hplain, List.takeWhile_replicate]
  simp

/-- `fat12_list_root` on the field of a name: the name. -/
theorem renderName_eq (n : ShortName) {e : DirectoryEntry} (h : e.name = n.field) :
    renderName e = n.chars := by
  have hfst : (List.ofFn fun j : Fin 8 ↦ e.name (j.castAdd 3)) =
      n.base ++ List.replicate (8 - n.base.length) charSpace := by
    rw [← ofFn_getD _ n.base_le, h]
    congr 1
    funext j
    exact if_pos j.isLt
  have hsnd : (List.ofFn fun k : Fin 3 ↦ e.name (k.natAdd 8)) =
      n.ext ++ List.replicate (3 - n.ext.length) charSpace := by
    rw [← ofFn_getD _ n.ext_le, h]
    congr 1
    funext k
    have hge : ¬ (k.natAdd 8).val < 8 := by
      rw [Fin.val_natAdd]
      omega
    rw [field, if_neg hge, Fin.val_natAdd, Nat.add_sub_cancel_left]
  have hdot : e.name (Fin.natAdd 8 (0 : Fin 3)) = n.ext.getD 0 charSpace := by
    rw [h]
    rfl
  unfold renderName chars
  simp only [hfst, hsnd, hdot, takeWhile_padded n.plain_base, takeWhile_padded n.plain_ext]
  cases hext : n.ext with
  | nil => rfl
  | cons c rest =>
    have hc : c ≠ charSpace := (n.plain_ext c (by rw [hext]; exact List.mem_cons_self)).2.2
    rw [List.getD_cons_zero, if_neg hc, if_neg (List.cons_ne_nil c rest)]

end ShortName

/-! ## Any string -/

/-- The first of `k` places from `i` on that fails the test, or the end. -/
theorem exists_stop (P : Nat → Prop) (k i : Nat) :
    ∃ n ≤ k, (∀ m < n, P (i + m)) ∧ (n = k ∨ ¬ P (i + n)) := by
  induction k generalizing i with
  | zero => exact ⟨0, Nat.le_refl 0, fun m hm ↦ absurd hm (Nat.not_lt_zero m), Or.inl rfl⟩
  | succ k ih =>
    by_cases hi : P i
    · obtain ⟨n, hn, hrun, hstop⟩ := ih (i + 1)
      have hshift (m : Nat) : i + 1 + m = i + (m + 1) := by omega
      refine ⟨n + 1, Nat.succ_le_succ hn, fun m hm ↦ ?_, ?_⟩
      · cases m with
        | zero => exact hi
        | succ m => exact hshift m ▸ hrun m (Nat.lt_of_succ_lt_succ hm)
      · exact hshift n ▸ hstop.imp_left fun h ↦ by rw [h]
    · exact ⟨0, Nat.zero_le _, fun m hm ↦ absurd hm (Nat.not_lt_zero m), Or.inr hi⟩

section Loops

variable (s : CString)

/-- The turn of both copying loops, on `i`, `j` and `output`. -/
def storeTurn (st : Nat × Nat × Bytes) : Nat × Nat × Bytes :=
  (st.1 + 1, st.2.1 + 1, Function.update st.2.2 st.2.1 (toUpper (s.byte st.1)))

/-- `input[i] && input[i] != '.' && j < 8`. -/
def NameGuard (st : Nat × Nat × Bytes) : Prop :=
  s.byte st.1 ≠ 0 ∧ s.byte st.1 ≠ charDot ∧ st.2.1 < 8

/-- `input[i] && input[i] != '.'`. -/
def FindGuard (i : Nat) : Prop := s.byte i ≠ 0 ∧ s.byte i ≠ charDot

/-- `input[i] && j < 11`. -/
def ExtensionGuard (st : Nat × Nat × Bytes) : Prop := s.byte st.1 ≠ 0 ∧ st.2.1 < 11

theorem storeTurn_iterate (i j m : Nat) (output : Bytes) :
    (storeTurn s)^[m] (i, j, output) = (i + m, j + m, storedUpper s.byte i j m output) := by
  induction m generalizing i j output with
  | zero => rw [storedUpper_zero]; rfl
  | succ m ih =>
    rw [Function.iterate_succ_apply, storeTurn, ih, storedUpper_succ, Nat.add_right_comm i,
      Nat.add_right_comm j]
    rfl

/-- The first loop ends, having stored at most 8 bytes. -/
theorem copyName_ends : ∃ n ≤ 8, n ≤ s.len ∧ ∀ output,
    copyName s.byte 8 0 0 output = (n, storedUpper s.byte 0 0 n output) ∧
      ∃ trace, WhileRun (NameGuard s) (storeTurn s) (0, 0, output) trace
        (n, n, storedUpper s.byte 0 0 n output) := by
  obtain ⟨n, hn, hrun, hstop⟩ := exists_stop (FindGuard s) 8 0
  have hend : n = 8 ∨ s.byte (0 + n) = 0 ∨ s.byte (0 + n) = charDot := by
    rw [FindGuard, not_and_or, not_not, not_not] at hstop
    exact hstop
  refine ⟨n, hn, ?_, fun output ↦ ⟨?_, ?_⟩⟩
  · by_contra hlt
    have hgo := hrun s.len (by omega)
    rw [Nat.zero_add] at hgo
    exact hgo.1 s.nul
  · rw [copyName_eq s.byte 0 0 output hn hrun hend, Nat.zero_add]
  · have hiter := storeTurn_iterate s 0 0
    simp only [Nat.zero_add] at hiter hrun hstop
    rw [← hiter]
    refine WhileRun.of_iterate n (fun m hm ↦ ?_) ?_
    · rw [hiter]
      exact ⟨(hrun m hm).1, (hrun m hm).2, Nat.lt_of_lt_of_le hm hn⟩
    · rw [hiter]
      intro hgo
      rcases hstop with h | h
      · exact absurd hgo.2.2 (by dsimp only; omega)
      · exact h ⟨hgo.1, hgo.2.1⟩

/-- The second loop ends at the NUL at the latest. -/
theorem findExtension_ends {i : Nat} (hi : i ≤ s.len) :
    ∃ trace, WhileRun (FindGuard s) (· + 1) i trace (findExtension s i) := by
  obtain ⟨n, hn, hrun, hstop⟩ := exists_stop (FindGuard s) (s.len - i) i
  have hend : ¬ FindGuard s (i + n) := by
    rcases hstop with h | h
    · rw [h, Nat.add_sub_cancel' hi]
      exact fun hgo ↦ hgo.1 s.nul
    · exact h
  have hfind : findExtension s i = i + n := by
    refine findExtension_eq s (Nat.le_add_right i n) (by omega) (fun m h1 h2 ↦ ?_) ?_
    · have hgo := hrun (m - i) (by omega)
      rwa [Nat.add_sub_cancel' h1] at hgo
    · rwa [FindGuard, not_and_or, not_not, not_not] at hend
  have hiter (m : Nat) : (· + 1)^[m] i = i + m := by
    induction m with
    | zero => rfl
    | succ m ih => rw [Function.iterate_succ_apply', ih, Nat.add_assoc]
  rw [hfind, ← hiter]
  refine WhileRun.of_iterate n (fun m hm ↦ ?_) ?_
  · rw [hiter]
    exact hrun m hm
  · rw [hiter]
    exact hend

/-- The third loop ends, having stored at most 3 bytes. -/
theorem copyExtension_ends (i : Nat) : ∃ n ≤ 3, ∀ output,
    copyExtension s.byte 3 i 8 output = storedUpper s.byte i 8 n output ∧
      ∃ trace, WhileRun (ExtensionGuard s) (storeTurn s) (i, 8, output) trace
        (i + n, 8 + n, storedUpper s.byte i 8 n output) := by
  obtain ⟨n, hn, hrun, hstop⟩ := exists_stop (fun i ↦ s.byte i ≠ 0) 3 i
  refine ⟨n, hn, fun output ↦ ⟨?_, ?_⟩⟩
  · exact copyExtension_eq s.byte i 8 output hn hrun (by rwa [not_not] at hstop)
  · have hiter := storeTurn_iterate s i 8
    rw [← hiter]
    refine WhileRun.of_iterate n (fun m hm ↦ ?_) ?_
    · rw [hiter]
      exact ⟨hrun m hm, by dsimp only; omega⟩
    · rw [hiter]
      intro hgo
      rcases hstop with h | h
      · exact absurd hgo.2 (by dsimp only; omega)
      · exact h hgo.1

/-- `to_dos_filename` stores its 11 bytes, whatever they were, and no other. -/
theorem toDosFilename_apply (output : Bytes) (a : Nat) :
    toDosFilename s output a = if h : a < 11 then dosName s ⟨a, h⟩ else output a := by
  obtain ⟨n, hn, -, hname⟩ := copyName_ends s
  obtain ⟨e, he, hext⟩ := copyExtension_ends s (findExtension s n + 1)
  have hspaces (output : Bytes) : memset output 0 charSpace 11 a =
      if a < 11 then charSpace else output a := by
    rw [memset, fillCells_apply]
    exact if_congr (by omega) rfl rfl
  have hcall (output : Bytes) : toDosFilename s output a =
      if s.byte (findExtension s n) = charDot ∧ 8 ≤ a ∧ a < 8 + e then
        toUpper (s.byte (findExtension s n + 1 + (a - 8)))
      else if a < n then toUpper (s.byte a) else if a < 11 then charSpace else output a := by
    simp only [toDosFilename, (hname _).1, (hext _).1]
    by_cases hdot : s.byte (findExtension s n) = charDot
    · rw [if_pos hdot]
      simp only [storedUpper, hspaces, hdot, true_and, Nat.zero_le, Nat.zero_add, Nat.sub_zero]
    · rw [if_neg hdot]
      simp only [storedUpper, hspaces, hdot, false_and, if_false, true_and, Nat.zero_le,
        Nat.zero_add, Nat.sub_zero]
  by_cases ha : a < 11
  · rw [dif_pos ha]
    change _ = toDosFilename s (fun _ ↦ 0) a
    rw [hcall, hcall, if_pos ha, if_pos ha]
  · rw [dif_neg ha, hcall, if_neg (by omega), if_neg (by omega), if_neg ha]

/-- The loops of `to_dos_filename`, each run to its end, lead from `output` to `result`. -/
def EncodeRun (output result : Bytes) : Prop :=
  ∃ i k out j,
    (∃ trace, WhileRun (NameGuard s) (storeTurn s) (0, 0, memset output 0 charSpace 11) trace
      (i, k, out)) ∧
    (∃ trace, WhileRun (FindGuard s) (· + 1) i trace j) ∧
    if s.byte j = charDot then
      ∃ trace i' j', WhileRun (ExtensionGuard s) (storeTurn s) (j + 1, 8, out) trace (i', j', result)
    else result = out

theorem toDosFilename_ends (output : Bytes) : EncodeRun s output (toDosFilename s output) := by
  obtain ⟨n, -, hlen, hname⟩ := copyName_ends s
  obtain ⟨hcopy, hrun⟩ := hname (memset output 0 charSpace 11)
  refine ⟨n, n, _, findExtension s n, hrun, findExtension_ends s hlen, ?_⟩
  simp only [toDosFilename, hcopy]
  split
  · obtain ⟨e, -, hext⟩ := copyExtension_ends s (findExtension s n + 1)
    obtain ⟨hcopyExt, trace, hrunExt⟩ := hext (storedUpper s.byte 0 0 n
      (memset output 0 charSpace 11))
    rw [hcopyExt]
    exact ⟨trace, _, _, hrunExt⟩
  · rfl

end Loops

theorem renderName_length (e : DirectoryEntry) : (renderName e).length ≤ 12 := by
  have hfst := (List.takeWhile_sublist (p := fun c : u8 ↦ decide (c ≠ charSpace))
    (l := List.ofFn fun j : Fin 8 ↦ e.name (j.castAdd 3))).length_le
  have hsnd := (List.takeWhile_sublist (p := fun c : u8 ↦ decide (c ≠ charSpace))
    (l := List.ofFn fun k : Fin 3 ↦ e.name (k.natAdd 8))).length_le
  rw [List.length_ofFn] at hfst hsnd
  unfold renderName
  simp only
  split
  · omega
  · rw [List.length_append, List.length_cons]
    omega

/-! ## The codec -/

namespace ShortName

variable {n m : ShortName} {s t : CString}

-- The base ends at the dot, so the characters determine both parts.
theorem field_eq_of_chars (h : n.chars = m.chars) : n.field = m.field := by
  have hdot (c : u8) : decide (c ≠ charDot) = true ↔ c ≠ charDot := decide_eq_true_iff
  have hbase (n : ShortName) : n.chars.takeWhile (· ≠ charDot) = n.base := by
    have hplain (c : u8) (hc : c ∈ n.base) : decide (c ≠ charDot) = true :=
      decide_eq_true (n.plain_base c hc).2.1
    unfold chars
    split
    · exact List.takeWhile_eq_self_iff.mpr hplain
    · rw [List.takeWhile_append_of_pos hplain, List.takeWhile_cons_of_neg (by simp),
        List.append_nil]
  have hext (n : ShortName) : n.chars.drop (n.base.length + 1) = n.ext := by
    unfold chars
    split
    · rename_i hnil
      rw [hnil, List.drop_eq_nil_of_le (Nat.le_succ _)]
    · rw [List.drop_append, List.drop_eq_nil_of_le (Nat.le_succ _), Nat.add_sub_cancel_left]
      rfl
  have hb : n.base = m.base := by rw [← hbase n, h, hbase]
  have he : n.ext = m.ext := by rw [← hext n, h, hb, hext]
  unfold field
  rw [hb, he]

theorem renderName_dosName (h : text s = n.chars) {e : DirectoryEntry} (he : e.name = dosName s) :
    renderName e = n.chars.map toUpper := by
  rw [renderName_eq n.upper (he.trans (dosName_eq h)), chars_upper]

theorem map_toUpper_eq_iff (l l' : List u8) :
    l.map toUpper = l'.map toUpper ↔ List.Forall₂ SameLetter l l' := by
  rw [← List.forall₂_eq_eq_eq, List.forall₂_map_left_iff, List.forall₂_map_right_iff]
  simp only [toUpper_eq_iff]

theorem dosName_eq_iff (hs : text s = n.chars) (ht : text t = m.chars) :
    dosName s = dosName t ↔ List.Forall₂ SameLetter n.chars m.chars := by
  rw [← map_toUpper_eq_iff]
  constructor
  · intro h
    have hrender := renderName_dosName hs (e := ⟨dosName s, 0, 0, 0⟩) rfl
    rw [← hrender, renderName_dosName ht h]
  · intro h
    rw [dosName_eq hs, dosName_eq ht]
    apply field_eq_of_chars
    rw [chars_upper, chars_upper, h]

theorem field_upper (h : ∀ c ∈ n.chars, ¬ IsLower c) : n.upper.field = n.field := by
  apply field_eq_of_chars
  rw [chars_upper]
  have hsame (c : u8) (hc : c ∈ n.chars) : toUpper c = id c := toUpper_of_not_lower (h c hc)
  rw [List.map_congr_left hsame, List.map_id]

theorem chars_ne_zero (n : ShortName) : ∀ c ∈ n.chars, c ≠ 0 := by
  intro c hc
  unfold chars at hc
  split at hc
  · exact (n.plain_base c hc).1
  · rcases List.mem_append.mp hc with hb | he
    · exact (n.plain_base c hb).1
    · rcases List.mem_cons.mp he with rfl | he
      · decide
      · exact (n.plain_ext c he).1

theorem text_ofList (l : List u8) (h : ∀ c ∈ l, c ≠ 0) : text (CString.ofList l h) = l := by
  apply List.ext_getElem
  · exact text_length _
  · intro i h1 h2
    simp only [text, List.getElem_map, List.getElem_range]
    exact List.getD_eq_getElem _ _ h2

end ShortName

/-- Encoding and rendering a name gives its capitals, and two names have the same field when they
differ in the case of letters only; rendering a field without small letters and encoding that gives the
field.  The encoder ends on every string and stores 11 bytes, and no rendering needs more than 13. -/
theorem nameCodec :
    (∀ (n : ShortName) (s : CString), text s = n.chars → ∀ e : DirectoryEntry,
      e.name = dosName s → renderName e = n.chars.map toUpper) ∧
    (∀ (n m : ShortName) (s t : CString), text s = n.chars → text t = m.chars →
      (dosName s = dosName t ↔ List.Forall₂ SameLetter n.chars m.chars)) ∧
    (∀ n : ShortName, (∀ c ∈ n.chars, ¬ IsLower c) → ∀ e : DirectoryEntry, e.name = n.field →
      (∃ s, text s = renderName e) ∧ ∀ s, text s = renderName e → dosName s = e.name) ∧
    (∀ (s : CString) (output : Bytes), EncodeRun s output (toDosFilename s output) ∧
      ∀ a, toDosFilename s output a = if h : a < 11 then dosName s ⟨a, h⟩ else output a) ∧
    ∀ e : DirectoryEntry, (renderName e).length + 1 ≤ 13 := by
  refine ⟨fun n s h e he ↦ ShortName.renderName_dosName h he,
    fun n m s t hs ht ↦ ShortName.dosName_eq_iff hs ht, fun n hcap e he ↦ ?_,
    fun s output ↦ ⟨toDosFilename_ends s output, toDosFilename_apply s output⟩,
    fun e ↦ Nat.succ_le_succ (renderName_length e)⟩
  rw [n.renderName_eq he]
  refine ⟨⟨CString.ofList n.chars n.chars_ne_zero, ShortName.text_ofList _ _⟩, fun s hs ↦ ?_⟩
  rw [ShortName.dosName_eq hs, ShortName.field_upper hcap, he]

/-! ## What a name depends on -/

section Congr

variable {s t : CString}

theorem len_eq_of_text (h : text s = text t) : s.len = t.len := by
  rw [← text_length, ← text_length, h]

theorem byte_eq_of_text (h : text s = text t) {i : Nat} (hi : i ≤ s.len) : s.byte i = t.byte i := by
  rw [byte_eq_text s hi, byte_eq_text t (len_eq_of_text h ▸ hi), h]

theorem lt_len_of_byte_ne {i : Nat} (hi : i ≤ s.len) (hne : s.byte i ≠ 0) : i < s.len := by
  by_contra hge
  rw [show i = s.len by omega] at hne
  exact hne s.nul

-- Both loops stop at the NUL at the latest, so they see the same bytes.
theorem copyName_congr (h : text s = text t) (k : Nat) {i : Nat} (hi : i ≤ s.len) (j : Nat)
    (output : Bytes) : copyName s.byte k i j output = copyName t.byte k i j output := by
  induction k generalizing i j output with
  | zero => rfl
  | succ k ih =>
    rw [copyName, copyName, byte_eq_of_text h hi]
    split_ifs with hgo
    · have hlt := lt_len_of_byte_ne hi (by rw [byte_eq_of_text h hi]; exact hgo.1)
      exact ih hlt (j + 1) _
    · rfl

theorem copyExtension_congr (h : text s = text t) (k : Nat) {i : Nat} (hi : i ≤ s.len) (j : Nat)
    (output : Bytes) : copyExtension s.byte k i j output = copyExtension t.byte k i j output := by
  induction k generalizing i j output with
  | zero => rfl
  | succ k ih =>
    rw [copyExtension, copyExtension, byte_eq_of_text h hi]
    split_ifs with hgo
    · have hlt := lt_len_of_byte_ne hi (by rw [byte_eq_of_text h hi]; exact hgo)
      exact ih hlt (j + 1) _
    · rfl

/-- The name on disk only depends on the characters before the NUL. -/
theorem toDosFilename_congr (h : text s = text t) (output : Bytes) :
    toDosFilename s output = toDosFilename t output := by
  obtain ⟨n, -, hn, hname⟩ := copyName_ends s
  have hnameT (out : Bytes) : copyName t.byte 8 0 0 out = copyName s.byte 8 0 0 out :=
    (copyName_congr h 8 (Nat.zero_le _) 0 out).symm
  -- the scan for the extension ends at the first NUL or dot
  obtain ⟨m, hm, hrun, hstop⟩ :=
    exists_stop (fun i ↦ s.byte i ≠ 0 ∧ s.byte i ≠ charDot) (s.len - n) n
  have hle : n + m ≤ s.len := by omega
  have hend : s.byte (n + m) = 0 ∨ s.byte (n + m) = charDot := by
    rcases hstop with heq | hnot
    · exact Or.inl (by rw [heq, show n + (s.len - n) = s.len by omega]; exact s.nul)
    · by_cases hzero : s.byte (n + m) = 0
      · exact Or.inl hzero
      · exact Or.inr (not_not.mp fun hdot ↦ hnot ⟨hzero, hdot⟩)
  have hfind : findExtension s n = n + m := by
    refine findExtension_eq s (Nat.le_add_right n m) hle (fun i hi hi' ↦ ?_) hend
    have hgo := hrun (i - n) (by omega)
    rwa [show n + (i - n) = i by omega] at hgo
  have hfindT : findExtension t n = n + m := by
    refine findExtension_eq t (Nat.le_add_right n m) (len_eq_of_text h ▸ hle) (fun i hi hi' ↦ ?_) ?_
    · have hgo := hrun (i - n) (by omega)
      rw [show n + (i - n) = i by omega] at hgo
      rwa [← byte_eq_of_text h (by omega)]
    · rwa [← byte_eq_of_text h hle]
  simp only [toDosFilename, hnameT, (hname _).1, hfind, hfindT, byte_eq_of_text h hle]
  split_ifs with hdot
  · have hlt := lt_len_of_byte_ne hle (by rw [byte_eq_of_text h hle, hdot]; decide)
    exact copyExtension_congr h 3 hlt 8 _
  · rfl

theorem dosName_congr (h : text s = text t) : dosName s = dosName t := by
  funext k
  rw [dosName, dosName, toDosFilename_congr h]

end Congr

end TenOs.Fs
