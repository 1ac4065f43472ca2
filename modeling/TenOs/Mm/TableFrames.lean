import TenOs.Mm.BootTables

/-!
# What paging asks of the frame allocator

Paging changes the allocator by calls of `alloc_memory_block` and in no other way.
-/

namespace TenOs.Mm

open TenOs.Base TenOs.Lib

namespace Machine

variable {A : Type} {s s' : Machine A}

theorem store_frames {v x : u32} (h : s.store v x = some s') : s'.frames = s.frames := by
  obtain ⟨p, -, hs'⟩ := Option.map_eq_some_iff.mp h
  rw [← hs']

theorem modify_frames {e : u32} {f : u32 → u32} (h : s.modify e f = some s') :
    s'.frames = s.frames := by
  obtain ⟨x, -, hstore⟩ := Option.bind_eq_some_iff.mp h
  exact store_frames hstore

theorem memset_frames {dest : u32} {val : u8} {len : Nat} (h : s.memset dest val len = some s') :
    s'.frames = s.frames :=
  forAbort_keeps (fun t ↦ t.frames = s.frames) (fun _ _ _ ht hb ↦ (store_frames hb).trans ht) _ _ rfl h

theorem setPte_frames {e addr : u32} (h : s.setPte e addr = some s') : s'.frames = s.frames := by
  simp only [setPte, Option.bind_eq_bind, Option.bind_eq_some_iff] at h
  obtain ⟨s₁, h₁, s₂, h₂, s₃, h₃, h₄⟩ := h
  rw [modify_frames h₄, modify_frames h₃, modify_frames h₂, modify_frames h₁]

theorem mapInTable_frames {e phys virt : u32} (h : s.mapInTable e phys virt = some s') :
    s'.frames = s.frames := by
  obtain ⟨pde, -, hset⟩ := Option.bind_eq_some_iff.mp h
  exact setPte_frames hset

/-- The directory has no page table for `virt`. -/
def TableMissing (s : Machine A) (virt : u32) : Prop :=
  virt ≠ 0 ∧ ∃ pde, s.load (mEntries s.curDirectory (pageDirectoryIndex virt)) = some pde ∧
    pde &&& I86_PDE_PRESENT = 0

variable [FrameAllocator A]

/-- `vmmngr_map_page` calls the allocator when a page table is missing, and then once. -/
theorem vmmngrMapPage_frames {phys virt : u32} (h : s.vmmngrMapPage phys virt = some s') :
    (phys = 0 ∨ ¬ s.TableMissing virt) ∧ s'.frames = s.frames ∨
      s.TableMissing virt ∧ s'.frames = (FrameAllocator.allocMemoryBlock s.frames).1 := by
  unfold vmmngrMapPage at h
  by_cases hzero : phys = 0 ∨ virt = 0
  · rw [if_pos hzero] at h
    cases h
    exact Or.inl ⟨hzero.imp_right fun hv hmissing ↦ hmissing.1 hv, rfl⟩
  · rw [if_neg hzero] at h
    obtain ⟨pde, hload, hrest⟩ := Option.bind_eq_some_iff.mp h
    by_cases hpresent : pde &&& I86_PDE_PRESENT = 0
    · have hmissing : s.TableMissing virt := ⟨fun hv ↦ hzero (Or.inr hv), pde, hload, hpresent⟩
      rw [if_pos hpresent] at hrest
      by_cases htable : P2V s.allocMemoryBlock.2 = 0
      · simp only [if_pos htable] at hrest
        cases hrest
        exact Or.inr ⟨hmissing, rfl⟩
      · simp only [if_neg htable, Option.bind_eq_bind, Option.bind_eq_some_iff] at hrest
        obtain ⟨s₁, h₁, s₂, h₂, h₃⟩ := hrest
        rw [setPde_eq_setPte] at h₂
        refine Or.inr ⟨hmissing, ?_⟩
        rw [mapInTable_frames h₃, setPte_frames h₂, memset_frames h₁]
        rfl
    · rw [if_neg hpresent] at hrest
      refine Or.inl ⟨Or.inr fun ⟨_, pde', hload', habsent⟩ ↦ hpresent ?_, mapInTable_frames hrest⟩
      rwa [Option.some.inj (hload.symm.trans hload')]

section Keeps

variable (P : A → Prop) (hP : ∀ a, P a → P (FrameAllocator.allocMemoryBlock a).1)
include hP

theorem vmmngrMapPage_keeps {phys virt : u32} (h : s.vmmngrMapPage phys virt = some s')
    (hs : P s.frames) : P s'.frames := by
  rcases vmmngrMapPage_frames h with ⟨-, hsame⟩ | ⟨-, hcall⟩
  · rw [hsame]
    exact hs
  · rw [hcall]
    exact hP _ hs

-- A turn changes the allocator by at most one call.
theorem copyTable_keeps {bootPd newPd : u32} {i : Nat} (hs : P s.frames)
    (h : copyTable bootPd newPd i s = some s') : P s'.frames := by
  obtain ⟨pde, -, hrest⟩ := Option.bind_eq_some_iff.mp h
  by_cases hpresent : pde &&& I86_PDE_PRESENT = 0
  · rw [if_pos hpresent] at hrest
    cases hrest
    exact hs
  · simp only [if_neg hpresent, Option.bind_eq_bind, Option.bind_eq_some_iff] at hrest
    obtain ⟨s₁, h₁, pde₂, -, s₂, h₂, h₃⟩ := hrest
    have hcopy : s₂.frames = s₁.frames := by
      refine forAbort_keeps (fun t ↦ t.frames = s₁.frames) (fun j t t' ht hb ↦ ?_) _ _ rfl h₂
      obtain ⟨x, -, hstore⟩ := Option.bind_eq_some_iff.mp hb
      exact (store_frames hstore).trans ht
    rw [setPde_eq_setPte] at h₃
    rw [setPte_frames h₃, hcopy, memset_frames h₁]
    exact hP _ hs

theorem extendPage_keeps {phys : u32} (hs : P s.frames) (h : extendPage phys s = some s') :
    P s'.frames := by
  obtain ⟨pde, -, hrest⟩ := Option.bind_eq_some_iff.mp h
  by_cases hpde : pde &&& I86_PDE_PRESENT = 0
  · rw [if_pos hpde] at hrest
    exact vmmngrMapPage_keeps P hP hrest hs
  · rw [if_neg hpde] at hrest
    obtain ⟨pte, -, hpage⟩ := Option.bind_eq_some_iff.mp hrest
    by_cases hpte : pte &&& I86_PTE_PRESENT = 0
    · rw [if_pos hpte] at hpage
      exact vmmngrMapPage_keeps P hP hpage hs
    · rw [if_neg hpte] at hpage
      cases hpage
      exact hs

omit [FrameAllocator A] hP in
theorem removeIdentity_frames (h : s.removeIdentity = some s') : s'.frames = s.frames := by
  obtain ⟨pde, -, hrest⟩ := Option.bind_eq_some_iff.mp h
  by_cases hpresent : pde &&& I86_PDE_PRESENT = 0
  · rw [if_pos hpresent] at hrest
    cases hrest
    rfl
  · simp only [if_neg hpresent, Option.bind_eq_bind, Option.bind_eq_some_iff] at hrest
    obtain ⟨s₁, h₁, h₂⟩ := hrest
    have hclear : s₁.frames = s.frames :=
      forAbort_keeps (fun t ↦ t.frames = s.frames) (fun _ _ _ ht hb ↦ (store_frames hb).trans ht)
        _ _ rfl h₁
    rw [store_frames h₂, hclear]

/-- What `alloc_memory_block` keeps of the allocator, `vmmngr_initialize` keeps. -/
theorem vmmngrInitialize_keeps {totalMemory : u32} (h : s.vmmngrInitialize totalMemory = some s')
    (hs : P s.frames) : P s'.frames := by
  unfold vmmngrInitialize at h
  by_cases hnone : s.allocMemoryBlock.2 = 0
  · simp only [if_pos hnone] at h
    cases h
    exact hP _ hs
  · simp only [if_neg hnone, Option.bind_eq_bind, Option.bind_eq_some_iff] at h
    obtain ⟨s₁, h₁, s₂, h₂, s₃, h₃, h₄⟩ := h
    have hwiped : P s₁.frames := by
      rw [memset_frames h₁]
      exact hP _ hs
    have hcopied : P s₂.frames :=
      forAbort_keeps (fun t ↦ P t.frames) (fun _ _ _ ht hb ↦ copyTable_keeps P hP ht hb) _ _ hwiped h₂
    have hextended : P s₃.frames := by
      refine forAbort_keeps (fun t ↦ P t.frames) (fun _ _ _ ht hb ↦ extendPage_keeps P hP ht hb)
        _ _ ?_ h₃
      rw [vmmngrSwitchPdirectory_frames]
      exact hcopied
    rw [removeIdentity_frames h₄]
    exact hextended

end Keeps

end Machine

end TenOs.Mm
