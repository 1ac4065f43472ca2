import TenOs.Mm.PageAccess

/-!
# The frame field of an entry

`vmmngr_pte.c` and `vmmngr_pde.c` take bits 12 to 30 for the frame, the walk of `mm/paging.c` takes
bits 12 to 31.  What that means for an entry that gets a new frame, for a page that is mapped again
and for a page that is freed.
-/

namespace TenOs.Mm

open TenOs.Base TenOs.Lib

/-! ## Masks -/

theorem frame_field_eq (m e a : u32) : ((e &&& ~~~m) ||| a) &&& m = a &&& m := by
  have hnone : ~~~m &&& m = 0#32 := (BitVec.and_comm _ _).trans (BitVec.and_not_self m)
  rw [BitVec.and_or_distrib_right, BitVec.and_assoc, hnone, BitVec.and_zero, BitVec.zero_or]

theorem aligned_eq {a : u32} (ha : a.toNat % 4096 = 0) : a &&& ~~~0xFFF = a := by
  apply BitVec.eq_of_toNat_eq
  rw [toNat_and_not_lowMask a (k := 12) rfl]
  omega

theorem aligned_and_frame_iff {a : u32} (ha : a.toNat % 4096 = 0) :
    a &&& 0x7FFFF000 = a ↔ a.toNat < 2 ^ 31 := by
  have hmask : (0x7FFFF000 : u32) = ~~~0xFFF &&& 0x7FFFFFFF := by decide
  rw [hmask, ← BitVec.and_assoc, aligned_eq ha, ← BitVec.toNat_inj,
    toNat_and_lowMask a (k := 31) rfl]
  omega

theorem getLsbD_top (x : u32) : x.getLsbD 31 = decide (2 ^ 31 ≤ x.toNat) := by
  have hmsb := BitVec.msb_eq_decide x
  rwa [BitVec.msb_eq_getLsbD_last] at hmsb

-- Bit 31 is the one that the setter leaves alone and the walk reads.
theorem top_or_eq_iff (e a : u32) :
    (e &&& 0x80000000) ||| a = a ↔ e.toNat < 2 ^ 31 ∨ 2 ^ 31 ≤ a.toNat := by
  have hshift : (0x80000000 : u32) = 1#32 <<< 31 := rfl
  have hbit {i : Nat} (hi : i < 32) : ((e &&& 0x80000000) ||| a).getLsbD i =
      (e.getLsbD i && decide (31 = i) || a.getLsbD i) := by
    rw [BitVec.getLsbD_or, BitVec.getLsbD_and, hshift, getLsbD_one_shiftLeft hi]
  have hlast := hbit (show 31 < 32 by decide)
  simp only [decide_true, Bool.and_true, getLsbD_top e, getLsbD_top a] at hlast
  constructor
  · intro h
    by_contra hnot
    rw [not_or, Nat.not_lt] at hnot
    rw [h, getLsbD_top, decide_eq_true hnot.1, decide_eq_false hnot.2] at hlast
    cases hlast
  · intro h
    apply BitVec.eq_of_getLsbD_eq
    intro i hi
    by_cases heq : 31 = i
    · rw [← heq, hlast, getLsbD_top]
      rcases h with he | ha
      · rw [decide_eq_false (Nat.not_le.mpr he), Bool.false_or]
      · rw [decide_eq_true ha, Bool.or_true]
    · rw [hbit hi, decide_eq_false heq, Bool.and_false, Bool.false_or]

/-! ## One entry -/

theorem pageGetPhysicalAddress_setFrame {e a : u32} (ha : a.toNat % 4096 = 0) :
    pageGetPhysicalAddress (entrySetFrame 0x7FFFF000 e a) = (e &&& 0x80000000) ||| a := by
  have hmask : ~~~(0x7FFFF000 : u32) &&& ~~~0xFFF = 0x80000000 := by decide
  rw [pageGetPhysicalAddress, entrySetFrame, BitVec.and_or_distrib_right, BitVec.and_assoc, hmask,
    aligned_eq ha]

/-- What the readers of an entry should say after its frame is set. -/
structure SetFrameGives (setFrame : u32 → u32 → u32) (pfn : u32 → u32) (e a : u32) : Prop where
  pfn : pfn (setFrame e a) = a
  physical : pageGetPhysicalAddress (setFrame e a) = a
  flags : setFrame e a &&& 0xFFF = e &&& 0xFFF

/-- The two files have the same field. -/
theorem setFrameGives_iff {e a : u32} (ha : a.toNat % 4096 = 0) :
    SetFrameGives (entrySetFrame 0x7FFFF000) (entryPfn 0x7FFFF000) e a ↔
      e.toNat < 2 ^ 31 ∧ a.toNat < 2 ^ 31 := by
  constructor
  · intro h
    have hpfn : a.toNat < 2 ^ 31 := by
      rw [← aligned_and_frame_iff ha, ← frame_field_eq _ e]
      exact h.pfn
    have hphysical := h.physical
    rw [pageGetPhysicalAddress_setFrame ha, top_or_eq_iff] at hphysical
    omega
  · rintro ⟨he, hlt⟩
    refine ⟨?_, ?_, ?_⟩
    · rw [entryPfn, entrySetFrame, frame_field_eq, (aligned_and_frame_iff ha).mpr hlt]
    · rw [pageGetPhysicalAddress_setFrame ha]
      exact (top_or_eq_iff e a).mpr (Or.inl he)
    · have hmask : ~~~(0x7FFFF000 : u32) &&& 0xFFF = 0xFFF := by decide
      have hlow : a &&& 0xFFF = 0 := by
        apply BitVec.eq_of_toNat_eq
        rw [toNat_and_lowMask a (k := 12) rfl]
        exact ha
      rw [entrySetFrame, BitVec.and_or_distrib_right, BitVec.and_assoc, hmask, hlow]
      exact BitVec.or_zero

-- The flags lie below the frame.
theorem pageGetPhysicalAddress_addAttrib (e : u32) {attrib : u32} (h : attrib &&& ~~~0xFFF = 0) :
    pageGetPhysicalAddress (entryAddAttrib e attrib) = pageGetPhysicalAddress e := by
  rw [pageGetPhysicalAddress, entryAddAttrib, BitVec.and_or_distrib_right, h]
  exact BitVec.or_zero

/-! ## Changing an entry in memory -/

namespace Machine

section Modify

variable {A : Type} {s s' : Machine A} {v : u32}

/-- A change of an entry goes to the word that its address leads to at that time. -/
theorem modify_eq_some_iff {f : u32 → u32} : s.modify v f = some s' ↔
    ∃ p, s.translate v = some p ∧ s' = { s with
      mem := Function.update s.mem (p.toNat / 4) (f (s.mem (p.toNat / 4))) } := by
  cases hp : s.translate v with
  | none => simp [modify, load, hp]
  | some p =>
    simp only [modify, load, store, hp, Option.map_some, Option.bind_eq_bind, Option.bind_some,
      Option.some.injEq, exists_eq_left']
    exact eq_comm

-- Wherever a flag goes, no frame in memory changes.
theorem modify_addAttrib {attrib : u32} (hattrib : attrib &&& ~~~0xFFF = 0)
    (h : s.modify v (entryAddAttrib · attrib) = some s') (k : Nat) :
    pageGetPhysicalAddress (s'.mem k) = pageGetPhysicalAddress (s.mem k) := by
  obtain ⟨p, -, rfl⟩ := modify_eq_some_iff.mp h
  by_cases hk : k = p.toNat / 4
  · simp only [hk, Function.update_self, pageGetPhysicalAddress_addAttrib _ hattrib]
  · exact congrArg pageGetPhysicalAddress (Function.update_of_ne hk _ _)

/-- The frame that the four calls leave in the entry's word, even where the entry maps its own
table. -/
theorem setPte_frame {addr p : u32} (haddr : addr.toNat % 4096 = 0) (hp : s.translate v = some p)
    (h : s.setPte v addr = some s') :
    pageGetPhysicalAddress (s'.mem (p.toNat / 4)) =
      (s.mem (p.toNat / 4) &&& 0x80000000) ||| addr := by
  obtain ⟨s₁, h₁, h⟩ := Option.bind_eq_some_iff.mp h
  obtain ⟨s₂, h₂, h⟩ := Option.bind_eq_some_iff.mp h
  obtain ⟨s₃, h₃, h₄⟩ := Option.bind_eq_some_iff.mp h
  rw [modify_addAttrib rfl h₄, modify_addAttrib rfl h₃, modify_addAttrib rfl h₂]
  obtain ⟨q, hq, rfl⟩ := modify_eq_some_iff.mp h₁
  rw [hp, Option.some.injEq] at hq
  simp only [← hq, Function.update_self]
  exact pageGetPhysicalAddress_setFrame haddr

/-- The four calls go through when the entry does not map its own table. -/
theorem setPte_isSome {p : u32} (hp : s.translate v = some p) (hpde : p.toNat / 4 ≠ pdeAt s.cr3 v)
    (hpte : p.toNat / 4 ≠ pteAt s.mem s.cr3 v) (addr : u32) : (s.setPte v addr).isSome := by
  have hturn (x : u32) (f : u32 → u32) :
      Machine.modify { s with mem := Function.update s.mem (p.toNat / 4) x } v f =
        some { s with mem := Function.update s.mem (p.toNat / 4) (f x) } := by
    have hwalk : walk (Function.update s.mem (p.toNat / 4) x) s.cr3 v = walk s.mem s.cr3 v :=
      walk_congr (Function.update_of_ne hpde.symm _ _) (Function.update_of_ne hpte.symm _ _)
    refine modify_eq_some_iff.mpr ⟨p, ?_, ?_⟩
    · rw [translate, Base.translate, hwalk]
      exact hp
    · simp only [Function.update_self, Function.update_idem]
  have hfirst : s.modify v (ptEntrySetFrame · addr) = some { s with
      mem := Function.update s.mem (p.toNat / 4) (ptEntrySetFrame (s.mem (p.toNat / 4)) addr) } :=
    modify_eq_some_iff.mpr ⟨p, hp, rfl⟩
  simp only [setPte, Option.bind_eq_bind]
  rw [hfirst, Option.bind_some, hturn, Option.bind_some, hturn, Option.bind_some, hturn]
  rfl

end Modify

/-! ## Mapping a page again -/

/-- The page at `virt` has a table, and its entry at `v` is word `w`. -/
structure EntryOf {A : Type} (s : Machine A) (virt v : u32) (w : Nat) : Prop where
  virt_ne : virt ≠ 0
  dir : ∃ pde, s.load (mEntries s.curDirectory (pageDirectoryIndex virt)) = some pde ∧
    pde &&& I86_PDE_PRESENT ≠ 0 ∧
    v = mEntries (P2V (pageGetPhysicalAddress pde)) (pageTableIndex virt)
  word : ∃ p, s.translate v = some p ∧ p.toNat / 4 = w

theorem EntryOf.mapPage {A : Type} [FrameAllocator A] {s : Machine A} {virt v : u32} {w : Nat}
    (h : EntryOf s virt v w) {phys : u32} (hphys : phys ≠ 0) :
    s.vmmngrMapPage phys virt = s.setPte v phys := by
  obtain ⟨pde, hload, hpresent, rfl⟩ := h.dir
  have hne : ¬ (phys = 0 ∨ virt = 0) := fun hor ↦ hor.elim hphys h.virt_ne
  simp only [vmmngrMapPage, mapInTable, if_neg hne, hload, Option.bind_eq_bind, Option.bind_some,
    if_neg hpresent]

/-- `vmmngr_map_page` on a page with a table leaves the frame there that the setter leaves. -/
theorem EntryOf.mapPage_frame {A : Type} [FrameAllocator A] {s s' : Machine A} {virt v : u32}
    {w : Nat} (h : EntryOf s virt v w) {phys : u32} (hphys : phys ≠ 0)
    (haligned : phys.toNat % 4096 = 0) (hmap : s.vmmngrMapPage phys virt = some s') :
    pageGetPhysicalAddress (s'.mem w) = (s.mem w &&& 0x80000000) ||| phys := by
  obtain ⟨p, hp, rfl⟩ := h.word
  rw [h.mapPage hphys] at hmap
  exact setPte_frame haligned hp hmap

/-! ## Freeing a page -/

theorem vmmngrFreePage_eq {s : Machine MemMngr} {v p : u32} (hv : v ≠ 0)
    (hp : s.translate v = some p) : s.vmmngrFreePage v = some { s with
      frames := if ptEntryPfn (s.mem (p.toNat / 4)) = 0 then s.frames
        else s.frames.freeMemoryBlock (ptEntryPfn (s.mem (p.toNat / 4)))
      mem := Function.update s.mem (p.toNat / 4)
        (ptEntryDelAttrib (s.mem (p.toNat / 4)) I86_PTE_PRESENT) } := by
  have hload : s.load v = some (s.mem (p.toNat / 4)) := by rw [load, hp, Option.map_some]
  simp only [vmmngrFreePage, if_neg hv, hload, Option.bind_eq_bind, Option.bind_some]
  by_cases hpfn : ptEntryPfn (s.mem (p.toNat / 4)) = 0
  · simp only [if_pos hpfn]
    exact modify_eq_some_iff.mpr ⟨p, hp, rfl⟩
  · simp only [if_neg hpfn]
    exact modify_eq_some_iff.mpr ⟨p, hp, rfl⟩

end Machine

/-- An entry with old value `e` takes the frame at `a`, a page with that entry is mapped to `a` by
`vmmngr_map_page`, and `vmmngr_free_page` gives the frame at `a` back. -/
structure EntryLaw (e a : u32) : Prop where
  pte : SetFrameGives ptEntrySetFrame ptEntryPfn e a
  pde : SetFrameGives pdEntrySetFrame pdEntryPfn e a
  remap : ∀ (s s' : Machine MemMngr) virt v w, s.EntryOf virt v w → s.mem w = e →
    s.vmmngrMapPage a virt = some s' → pageGetPhysicalAddress (s'.mem w) = a
  remap_isSome : ∀ (s : Machine MemMngr) virt v w, s.EntryOf virt v w → s.mem w = e →
    w ≠ pdeAt s.cr3 v → w ≠ pteAt s.mem s.cr3 v → (s.vmmngrMapPage a virt).isSome
  free : ∀ (s : Machine MemMngr) v p, v ≠ 0 → s.translate v = some p →
    pageGetPhysicalAddress (s.mem (p.toNat / 4)) = a →
      ∃ s', s.vmmngrFreePage v = some s' ∧ s'.mem (p.toNat / 4) &&& I86_PTE_PRESENT = 0 ∧
        s'.frames = s.frames.freeMemoryBlock a

theorem ptEntryPfn_of_page {x a : u32} (hx : pageGetPhysicalAddress x = a) (ha : a.toNat < 2 ^ 31) :
    ptEntryPfn x = a := by
  have hmask : (0x7FFFF000 : u32) = ~~~0xFFF &&& 0x7FFFFFFF := by decide
  have hpage : x &&& ~~~0xFFF = a := hx
  apply BitVec.eq_of_toNat_eq
  rw [ptEntryPfn, entryPfn, I86_PTE_FRAME, hmask, ← BitVec.and_assoc, hpage,
    toNat_and_lowMask a (k := 31) rfl]
  omega

/-- A machine whose only table entry, at `0x3000`, maps frame 0. -/
def frameZeroMapped : Machine MemMngr where
  frames := { memMngr := fun _ ↦ 0, maxBlocks := 8, usedBlocks := 0, size := 32 }
  mem k := if k = 1024 then 0x2003 else if k = 2051 then 0x3003 else 1
  cr3 := 0x1000
  curDirectory := 0
  curPdbr := 0
  kernelDirectory := 0
  kernelDirectoryPhysical := 0

/-- All of it holds exactly for entries and frames below 2 GiB, frame 0 excepted. -/
theorem entryLaw_iff (e a : u32) (ha : a.toNat % 4096 = 0) :
    EntryLaw e a ↔ e.toNat < 2 ^ 31 ∧ a.toNat < 2 ^ 31 ∧ a ≠ 0 := by
  constructor
  · intro h
    obtain ⟨he, hlt⟩ := (setFrameGives_iff ha).mp h.pte
    refine ⟨he, hlt, ?_⟩
    rintro rfl
    -- `vmmngr_free_page` does not hand address 0 on
    have htranslate : frameZeroMapped.translate 0x3000 = some 0x3000 := by decide
    obtain ⟨s', hfree, -, hframes⟩ := h.free frameZeroMapped 0x3000 0x3000 (by decide) htranslate
      (by decide)
    rw [Machine.vmmngrFreePage_eq (by decide) htranslate, Option.some.injEq] at hfree
    have hused := congrArg MemMngr.usedBlocks hframes
    rw [← hfree] at hused
    revert hused
    decide
  · rintro ⟨he, hlt, hne⟩
    have hcodec := (setFrameGives_iff ha).mpr ⟨he, hlt⟩
    refine ⟨hcodec, hcodec, ?_, ?_, ?_⟩
    · rintro s s' virt v w hentry rfl hmap
      rw [hentry.mapPage_frame hne ha hmap]
      exact (top_or_eq_iff _ a).mpr (Or.inl he)
    · rintro s virt v w hentry - hpde hpte
      obtain ⟨p, hp, rfl⟩ := hentry.word
      rw [hentry.mapPage hne]
      exact Machine.setPte_isSome hp hpde hpte a
    · intro s v p hv hp hpage
      have hpfn := ptEntryPfn_of_page hpage hlt
      refine ⟨_, Machine.vmmngrFreePage_eq hv hp, ?_, ?_⟩
      · simp only [Function.update_self, ptEntryDelAttrib, entryDelAttrib, BitVec.and_assoc]
        exact BitVec.and_zero
      · simp only [hpfn, if_neg hne]

theorem entryLaw_topFrame : EntryLaw 0x00005067 0x7FFFF000 :=
  (entryLaw_iff 0x00005067 0x7FFFF000 (by decide)).mpr ⟨by decide, by decide, by decide⟩

/-- The frame at 2 GiB: the setter stores its address, and `pt_entry_pfn` reads 0 back. -/
theorem not_entryLaw_twoGiB : ¬ ∀ e a : u32, a.toNat % 4096 = 0 → EntryLaw e a := by
  intro h
  have hpfn := (h 0 0x80000000 (by decide)).pte.pfn
  revert hpfn
  decide

end TenOs.Mm
