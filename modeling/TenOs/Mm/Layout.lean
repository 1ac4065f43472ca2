import TenOs.Mm.PageAccess

/-!
# The kernel's tables

The address spaces that `vmmngr_initialize` goes through all have one shape: a directory, perhaps a
table that maps the first 4 MiB to themselves, and tables that map the first `lim` frames from
`0xC0000000` on.
-/

namespace TenOs.Mm

open TenOs.Base TenOs.Lib

/-- `table k` is the frame of the table for directory entry `768 + k`. -/
structure Layout where
  dir : Nat
  ident : Option Nat
  table : Nat → Nat
  tables : Nat
  lim : Nat

namespace Layout

def space (L : Layout) : PageSpace where
  dir := L.dir
  table := fun i ↦
    if i = 0 then L.ident
    else if 768 ≤ i ∧ i < 768 + L.tables then some (L.table (i - 768)) else none
  leaf := fun i j ↦
    if i = 0 then some j
    else if 768 ≤ i ∧ j < 1024 ∧ 1024 * (i - 768) + j < L.lim then some (1024 * (i - 768) + j)
    else none

/-- The kernel can reach its own tables, and they lie in frames of their own. -/
structure Ok (L : Layout) : Prop where
  tables_le : L.tables ≤ 256
  lim_le : L.lim ≤ 1024 * L.tables
  dir_lt : L.dir < L.lim
  table_lt : ∀ k < L.tables, L.table k < L.lim
  ident_lt : ∀ t, L.ident = some t → t < L.lim
  dir_ne : ∀ k < L.tables, L.table k ≠ L.dir
  inj : ∀ k < L.tables, ∀ k' < L.tables, L.table k = L.table k' → k = k'
  ident_ne_dir : ∀ t, L.ident = some t → t ≠ L.dir
  ident_ne_table : ∀ t, L.ident = some t → ∀ k < L.tables, L.table k ≠ t

variable {L : Layout}

theorem space_table_kernel {k : Nat} (hk : k < L.tables) :
    L.space.table (768 + k) = some (L.table k) := by
  simp only [space]
  rw [if_neg (by omega), if_pos (by omega), Nat.add_sub_cancel_left]

theorem space_table_none {i : Nat} (hi0 : i ≠ 0) (hi : i < 768 ∨ 768 + L.tables ≤ i) :
    L.space.table i = none := by
  simp only [space]
  rw [if_neg hi0, if_neg (by omega)]

theorem space_leaf_kernel {n : Nat} (hn : n < L.lim) :
    L.space.leaf (768 + n / 1024) (n % 1024) = some n := by
  have hsplit : 1024 * (768 + n / 1024 - 768) + n % 1024 = n := by omega
  simp only [space]
  rw [if_neg (by omega), hsplit, if_pos ⟨by omega, Nat.mod_lt n (by decide), hn⟩]

/-- The tables of a space of this shape. -/
theorem space_table_cases {i t : Nat} (h : L.space.table i = some t) :
    (i = 0 ∧ L.ident = some t) ∨ ∃ k < L.tables, i = 768 + k ∧ t = L.table k := by
  simp only [space] at h
  by_cases hi : i = 0
  · rw [if_pos hi] at h
    exact Or.inl ⟨hi, h⟩
  · rw [if_neg hi] at h
    by_cases hk : 768 ≤ i ∧ i < 768 + L.tables
    · rw [if_pos hk, Option.some.injEq] at h
      exact Or.inr ⟨i - 768, by omega, by omega, h.symm⟩
    · rw [if_neg hk] at h
      cases h

theorem Ok.separate (h : L.Ok) : L.space.Separate where
  dir_ne i _ heq := by
    rcases space_table_cases heq with ⟨-, hident⟩ | ⟨k, hk, -, hdir⟩
    · exact h.ident_ne_dir _ hident rfl
    · exact h.dir_ne k hk hdir.symm
  inj i _ i' _ t ht ht' := by
    rcases space_table_cases ht with ⟨hi, hident⟩ | ⟨k, hk, hi, htk⟩ <;>
      rcases space_table_cases ht' with ⟨hi', hident'⟩ | ⟨k', hk', hi', htk'⟩
    · rw [hi, hi']
    · exact absurd htk'.symm (h.ident_ne_table t hident k' hk')
    · exact absurd htk.symm (h.ident_ne_table t hident' k hk)
    · rw [hi, hi', h.inj k hk k' hk' (htk.symm.trans htk')]

theorem Ok.frame_lt (h : L.Ok) {i t : Nat} (ht : L.space.table i = some t) : t < L.lim := by
  rcases space_table_cases ht with ⟨-, hident⟩ | ⟨k, hk, -, htk⟩
  · exact h.ident_lt t hident
  · rw [htk]
    exact h.table_lt k hk

theorem Ok.small (h : L.Ok) : L.space.Small where
  table_lt i _ t ht := by
    have htables := h.tables_le
    have hlim := h.lim_le
    have htlt := h.frame_lt ht
    omega
  leaf_lt i hi j hj n hn := by
    simp only [space] at hn
    split at hn
    · cases hn
      omega
    · split at hn
      · cases hn
        omega
      · cases hn

/-- Without the identity mapping, only the window is mapped. -/
theorem page_eq (hident : L.ident = none) (hlim : L.lim ≤ 1024 * L.tables) (p : Nat) :
    L.space.page p = if 0xC0000 ≤ p ∧ p - 0xC0000 < L.lim then some (p - 0xC0000) else none := by
  unfold PageSpace.page
  by_cases hin : 0xC0000 ≤ p ∧ p - 0xC0000 < L.lim
  · have hindex : p / 1024 = 768 + (p - 0xC0000) / 1024 := by omega
    have hword : p % 1024 = (p - 0xC0000) % 1024 := by omega
    rw [if_pos hin, hindex, hword, space_table_kernel (by omega), Option.bind_some,
      space_leaf_kernel hin.2]
  · rw [if_neg hin]
    cases ht : L.space.table (p / 1024) with
    | none => rfl
    | some t =>
      rcases space_table_cases ht with ⟨-, h0⟩ | ⟨k, hk, hi, -⟩
      · rw [hident] at h0
        cases h0
      · rw [Option.bind_some]
        simp only [space]
        rw [if_neg (by omega), if_neg (by omega)]

/-- A frame that is none of the directory and the tables. -/
theorem not_holds {f : Nat} (hdir : f ≠ L.dir) (hident : L.ident ≠ some f)
    (htable : ∀ k < L.tables, L.table k ≠ f) : ¬ L.space.Holds f := by
  intro h
  rcases h with hf | ⟨i, -, ht⟩
  · exact hdir hf
  · rcases space_table_cases ht with ⟨-, hf⟩ | ⟨k, hk, -, hf⟩
    · exact hident hf
    · exact htable k hk hf.symm

/-! ## Growing -/

-- A new table maps nothing yet.
theorem space_addTable (L : Layout) (hlim : L.lim ≤ 1024 * L.tables) :
    { L with tables := L.tables + 1 }.space =
      { L.space with
        table := Function.update L.space.table (768 + L.tables) (some (L.table L.tables))
        leaf := Function.update L.space.leaf (768 + L.tables) fun _ ↦ none } := by
  simp only [space, PageSpace.mk.injEq, true_and]
  constructor
  · funext i
    rw [Function.update_apply]
    by_cases hi : i = 768 + L.tables
    · rw [if_pos hi, if_neg (by omega), if_pos (by omega), hi, Nat.add_sub_cancel_left]
    · rw [if_neg hi]
      refine if_congr Iff.rfl rfl (if_congr (by omega) rfl rfl)
  · funext i j
    rw [Function.update_apply]
    by_cases hi : i = 768 + L.tables
    · rw [if_pos hi, if_neg (by omega), if_neg (by omega)]
    · rw [if_neg hi]

-- One more page of the window.
theorem space_addLeaf (L : Layout) :
    { L with lim := L.lim + 1 }.space =
      { L.space with
        leaf := Function.update L.space.leaf (768 + L.lim / 1024)
          (Function.update (L.space.leaf (768 + L.lim / 1024)) (L.lim % 1024) (some L.lim)) } := by
  simp only [space, PageSpace.mk.injEq, true_and]
  funext i j
  rw [Function.update_apply]
  by_cases hi : i = 768 + L.lim / 1024
  · rw [if_pos hi, Function.update_apply]
    by_cases hj : j = L.lim % 1024
    · rw [if_pos hj, if_neg (by omega), if_pos (by omega)]
      congr 1
      omega
    · subst hi
      rw [if_neg hj]
      exact if_congr Iff.rfl rfl (if_congr (by omega) rfl rfl)
  · rw [if_neg hi]
    exact if_congr Iff.rfl rfl (if_congr (by omega) rfl rfl)

theorem space_dropIdent (L : Layout) :
    { L with ident := none }.space =
      { L.space with table := Function.update L.space.table 0 none } := by
  simp only [space, PageSpace.mk.injEq, true_and, and_true]
  funext i
  rw [Function.update_apply]
  by_cases hi : i = 0
  · rw [if_pos hi, if_pos hi]
  · rw [if_neg hi, if_neg hi, if_neg hi]

end Layout

end TenOs.Mm
