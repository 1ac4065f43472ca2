import Mathlib.Data.List.Perm.Basic
import Mathlib.Data.List.Nodup

/-!
# Allocations of cells

An allocator marks cells as used and hands them out in allocations.  The ledger relates the marks to
the list of the allocations that are live: no two of them share a cell, and none has a cell that was
used from the start.
-/

namespace TenOs.Base

variable {α : Type} {cells : α → Nat → Prop} {initial used used' : Nat → Prop}
  {live : List α} {a : α}

/-- `cells a n`: allocation `a` has cell `n`. -/
structure Ledger (cells : α → Nat → Prop) (initial used : Nat → Prop) (live : List α) : Prop where
  disjoint : live.Pairwise fun a b ↦ ∀ n, cells a n → ¬ cells b n
  used_iff : ∀ n, used n ↔ initial n ∨ ∃ a ∈ live, cells a n
  fresh : ∀ a ∈ live, ∀ n, cells a n → ¬ initial n

theorem Ledger.nil (cells : α → Nat → Prop) (initial : Nat → Prop) :
    Ledger cells initial initial [] :=
  ⟨.nil, fun n ↦ by simp, fun a ha ↦ absurd ha List.not_mem_nil⟩

/-- Marking unused cells and handing them out. -/
theorem Ledger.alloc (h : Ledger cells initial used live) (hfree : ∀ n, cells a n → ¬ used n)
    (hmark : ∀ n, used' n ↔ used n ∨ cells a n) : Ledger cells initial used' (a :: live) := by
  refine ⟨List.pairwise_cons.mpr ⟨fun b hb n ha hbn ↦ ?_, h.disjoint⟩, fun n ↦ ?_, fun b hb n hbn ↦ ?_⟩
  · exact hfree n ha ((h.used_iff n).mpr (Or.inr ⟨b, hb, hbn⟩))
  · rw [hmark, h.used_iff]
    constructor
    · rintro ((hi | ⟨b, hb, hbn⟩) | ha)
      · exact Or.inl hi
      · exact Or.inr ⟨b, List.mem_cons_of_mem a hb, hbn⟩
      · exact Or.inr ⟨a, List.mem_cons_self, ha⟩
    · rintro (hi | ⟨b, hb, hbn⟩)
      · exact Or.inl (Or.inl hi)
      · rcases List.mem_cons.mp hb with rfl | hb
        · exact Or.inr hbn
        · exact Or.inl (Or.inr ⟨b, hb, hbn⟩)
  · rcases List.mem_cons.mp hb with rfl | hb
    · exact fun hi ↦ hfree n hbn ((h.used_iff n).mpr (Or.inl hi))
    · exact h.fresh b hb n hbn

/-- Unmarking the cells of a live allocation. -/
theorem Ledger.free [BEq α] [LawfulBEq α] (h : Ledger cells initial used live) (ha : a ∈ live)
    (hunmark : ∀ n, used' n ↔ used n ∧ ¬ cells a n) :
    Ledger cells initial used' (live.erase a) := by
  have hperm := List.perm_cons_erase ha
  have hsymm : ∀ b c : α, (∀ n, cells b n → ¬ cells c n) → ∀ n, cells c n → ¬ cells b n :=
    fun b c hbc n hc hb ↦ hbc n hb hc
  have hpair := List.pairwise_cons.mp ((hperm.pairwise_iff (hsymm _ _ ·)).mp h.disjoint)
  refine ⟨hpair.2, fun n ↦ ?_, fun b hb ↦ h.fresh b (List.mem_of_mem_erase hb)⟩
  rw [hunmark, h.used_iff]
  constructor
  · rintro ⟨hi | ⟨b, hb, hbn⟩, hna⟩
    · exact Or.inl hi
    · rcases List.mem_cons.mp ((hperm.mem_iff).mp hb) with rfl | hb
      · exact absurd hbn hna
      · exact Or.inr ⟨b, hb, hbn⟩
  · rintro (hi | ⟨b, hb, hbn⟩)
    · exact ⟨Or.inl hi, fun han ↦ h.fresh a ha n han hi⟩
    · exact ⟨Or.inr ⟨b, List.mem_of_mem_erase hb, hbn⟩, fun han ↦ hpair.1 b hb n han hbn⟩

/-- An allocation that has a cell in use breaks the ledger, whatever the marks are afterwards. -/
theorem Ledger.not_alloc_of_used (h : Ledger cells initial used live) {n : Nat} (ha : cells a n)
    (hn : used n) : ¬ Ledger cells initial used' (a :: live) := by
  intro h'
  rcases (h.used_iff n).mp hn with hi | ⟨b, hb, hbn⟩
  · exact h'.fresh a List.mem_cons_self n ha hi
  · exact (List.pairwise_cons.mp h'.disjoint).1 b hb n ha hbn

end TenOs.Base
