import TenOs.Mm.EntryCodec
import TenOs.Mm.MapSequence
import TenOs.Mm.TableFrames

/-!
# Running out of frames for page tables

`vmmngr_map_page` tests the address of the new table after `P2V`, which makes `0xC0000000` of the 0
that `alloc_memory_block` returns.  So the call goes on with a table in frame 0.
-/

namespace TenOs.Mm

open TenOs.Base TenOs.Lib

namespace Machine

variable {A : Type} {s s' : Machine A}

/-! ## The present bit -/

-- Wherever the change goes, an entry that is present stays so.
theorem modify_keeps_present {v : u32} {f : u32 → u32} (hf : ∀ x, x &&& 1 ≠ 0 → f x &&& 1 ≠ 0)
    (h : s.modify v f = some s') {k : Nat} (hk : s.mem k &&& 1 ≠ 0) : s'.mem k &&& 1 ≠ 0 := by
  obtain ⟨p, -, rfl⟩ := modify_eq_some_iff.mp h
  by_cases hkp : k = p.toNat / 4
  · rw [hkp] at hk
    simp only [hkp, Function.update_self]
    exact hf _ hk
  · simp only [Function.update_of_ne hkp]
    exact hk

theorem addAttrib_keeps_present {v attrib : u32} (h : s.modify v (entryAddAttrib · attrib) = some s')
    {k : Nat} (hk : s.mem k &&& 1 ≠ 0) : s'.mem k &&& 1 ≠ 0 :=
  modify_keeps_present (fun x hx ↦ present_addAttrib x (Or.inl hx)) h hk

theorem setPte_keeps_present {v addr : u32} (h : s.setPte v addr = some s') {k : Nat}
    (hk : s.mem k &&& 1 ≠ 0) : s'.mem k &&& 1 ≠ 0 := by
  obtain ⟨s₁, h₁, h⟩ := Option.bind_eq_some_iff.mp h
  obtain ⟨s₂, h₂, h⟩ := Option.bind_eq_some_iff.mp h
  obtain ⟨s₃, h₃, h₄⟩ := Option.bind_eq_some_iff.mp h
  have hfirst := modify_keeps_present (fun _ hx ↦ present_setFrame hx) h₁ hk
  exact addAttrib_keeps_present h₄ (addAttrib_keeps_present h₃ (addAttrib_keeps_present h₂ hfirst))

/-! ## Wiping a table -/

/-- Memory in which some words have been set to 0. -/
def Wiped (m m' : Words) : Prop := ∀ k, m' k = m k ∨ m' k = 0

theorem memset_wiped {dest : u32} {len : Nat} (h : s.memset dest 0 len = some s') :
    s'.cr3 = s.cr3 ∧ Wiped s.mem s'.mem := by
  refine forAbort_keeps (fun t ↦ t.cr3 = s.cr3 ∧ Wiped s.mem t.mem) (fun i t t' ht hstore ↦ ?_) _ _
    ⟨rfl, fun _ ↦ Or.inl rfl⟩ h
  obtain ⟨p, -, rfl⟩ := Option.map_eq_some_iff.mp hstore
  refine ⟨ht.1, fun k ↦ ?_⟩
  by_cases hk : k = p.toNat / 4
  · rw [hk]
    exact Or.inr (Function.update_self _ _ _)
  · rcases ht.2 k with heq | hzero
    · exact Or.inl ((Function.update_of_ne hk _ _).trans heq)
    · exact Or.inr ((Function.update_of_ne hk _ _).trans hzero)

-- A wiped entry is absent, so a page that is still mapped is mapped as before.
theorem walk_wiped {m m' : Words} {cr3 v e : u32} (hwiped : Wiped m m')
    (h : walk m' cr3 v = some e) : walk m cr3 v = some e := by
  have hkeep {k : Nat} (hk : m' k &&& 1 ≠ 0) : m' k = m k :=
    (hwiped k).resolve_right fun hzero ↦ hk (by rw [hzero]; rfl)
  obtain ⟨hpde, hpte, rfl⟩ := walk_eq_some_iff.mp h
  have hdir := hkeep hpde
  rw [pteAt_congr hdir] at hpte
  rw [← walk_congr hdir (hkeep hpte)]
  exact h

theorem translate_wiped {v p : u32} (hcr3 : s'.cr3 = s.cr3) (hwiped : Wiped s.mem s'.mem)
    (h : s'.translate v = some p) : s.translate v = some p := by
  obtain ⟨e, hwalk, hp⟩ := Option.map_eq_some_iff.mp h
  rw [hcr3] at hwalk
  rw [translate, Base.translate, walk_wiped hwiped hwalk, Option.map_some, hp]

/-! ## Filling in an absent entry -/

-- An absent entry maps nothing, so filling it in does not move its own address.
theorem translate_update_absent {v p : u32} (hp : s.translate v = some p)
    (habsent : s.mem (p.toNat / 4) &&& 1 = 0) (x : u32) :
    Machine.translate { s with mem := Function.update s.mem (p.toNat / 4) x } v = some p := by
  obtain ⟨e, hwalk, -⟩ := Option.map_eq_some_iff.mp hp
  obtain ⟨hpde, hpte, -⟩ := walk_eq_some_iff.mp hwalk
  have hne {k : Nat} (hk : s.mem k &&& 1 ≠ 0) : k ≠ p.toNat / 4 :=
    fun heq ↦ hk (by rw [heq]; exact habsent)
  have hsame : walk (Function.update s.mem (p.toNat / 4) x) s.cr3 v = walk s.mem s.cr3 v :=
    walk_congr (Function.update_of_ne (hne hpde) _ _) (Function.update_of_ne (hne hpte) _ _)
  rw [translate, Base.translate, hsame]
  exact hp

theorem setPde_present {v p addr : u32} (hp : s.translate v = some p)
    (habsent : s.mem (p.toNat / 4) &&& 1 = 0) (h : s.setPde v addr = some s') :
    s'.mem (p.toNat / 4) &&& 1 ≠ 0 := by
  obtain ⟨s₁, h₁, h⟩ := Option.bind_eq_some_iff.mp h
  obtain ⟨s₂, h₂, h⟩ := Option.bind_eq_some_iff.mp h
  obtain ⟨s₃, h₃, h₄⟩ := Option.bind_eq_some_iff.mp h
  have hflag : s₂.mem (p.toNat / 4) &&& 1 ≠ 0 := by
    obtain ⟨q₁, hq₁, rfl⟩ := modify_eq_some_iff.mp h₁
    obtain ⟨q₂, hq₂, rfl⟩ := modify_eq_some_iff.mp h₂
    rw [hp, Option.some.injEq] at hq₁
    rw [← hq₁, translate_update_absent hp habsent, Option.some.injEq] at hq₂
    simp only [hq₂, Function.update_self]
    exact present_addAttrib _ (Or.inr (by decide))
  exact addAttrib_keeps_present h₄ (addAttrib_keeps_present h₃ hflag)

/-! ## The failing call -/

variable [FrameAllocator A]

/-- `vmmngr_map_page` needs a table for `virt`, and the allocator returns 0. -/
structure TableAllocFails (s : Machine A) (phys virt : u32) : Prop where
  phys_ne : phys ≠ 0
  missing : s.TableMissing virt
  fails : s.allocMemoryBlock.2 = 0

/-- The words of the page directory, of the tables that it has and of frame 0 are what they were. -/
structure KeepsTables (s s' : Machine A) : Prop where
  directory : ∀ (i p : u32), i.toNat < 1024 → s.translate (mEntries s.curDirectory i) = some p →
    s'.mem (p.toNat / 4) = s.mem (p.toNat / 4)
  tables : ∀ (i j pde p : u32), i.toNat < 1024 → j.toNat < 1024 →
    s.load (mEntries s.curDirectory i) = some pde → pde &&& I86_PDE_PRESENT ≠ 0 →
      s.translate (mEntries (P2V (pageGetPhysicalAddress pde)) j) = some p →
        s'.mem (p.toNat / 4) = s.mem (p.toNat / 4)
  frameZero : ∀ k < 1024, s'.mem k = s.mem k

/-- If the call comes back, the directory has an entry for the table in frame 0. -/
theorem TableAllocFails.present {phys virt : u32} (h : s.TableAllocFails phys virt)
    (hmap : s.vmmngrMapPage phys virt = some s') :
    ∃ p, s.translate (mEntries s.curDirectory (pageDirectoryIndex virt)) = some p ∧
      s.mem (p.toNat / 4) &&& 1 = 0 ∧ s'.mem (p.toNat / 4) &&& 1 ≠ 0 := by
  obtain ⟨hvirt, pde, hload, habsent⟩ := h.missing
  have hzero : ¬ (phys = 0 ∨ virt = 0) := fun hor ↦ hor.elim h.phys_ne hvirt
  have htable : P2V 0 ≠ 0 := by decide
  simp only [vmmngrMapPage, if_neg hzero, hload, Option.bind_eq_bind, Option.bind_some,
    if_pos habsent, h.fails, if_neg htable, Option.bind_eq_some_iff] at hmap
  obtain ⟨s₁, hmemset, s₂, hpde, hpte⟩ := hmap
  obtain ⟨p, hp, rfl⟩ := Option.map_eq_some_iff.mp hload
  refine ⟨p, hp, habsent, ?_⟩
  obtain ⟨hcr3, hwiped⟩ := memset_wiped hmemset
  have habsent₁ : s₁.mem (p.toNat / 4) &&& 1 = 0 := by
    rcases hwiped (p.toNat / 4) with heq | hwiped
    · rw [heq]
      exact habsent
    · rw [hwiped]
      rfl
  -- the entry's own page is still mapped, or `pd_entry_set_frame` would fault
  have hp₁ : s₁.translate (mEntries s.curDirectory (pageDirectoryIndex virt)) = some p := by
    obtain ⟨t₁, h₁, -⟩ := Option.bind_eq_some_iff.mp hpde
    obtain ⟨q, hq, -⟩ := modify_eq_some_iff.mp h₁
    have hstart : s.translate (mEntries s.curDirectory (pageDirectoryIndex virt)) = some q :=
      translate_wiped (s := s.allocMemoryBlock.1) hcr3 hwiped hq
    rw [hq, ← hstart, hp]
  obtain ⟨pde, -, hset⟩ := Option.bind_eq_some_iff.mp hpte
  exact setPte_keeps_present hset (setPde_present hp₁ habsent₁ hpde)

/-- When the table allocation fails, no call of `vmmngr_map_page` comes back with the directory
unchanged, and no call of `vmmngr_alloc_page` with 0. -/
theorem TableAllocFails.not_safe {phys virt : u32} (h : s.TableAllocFails phys virt) :
    (¬ ∃ s', s.vmmngrMapPage phys virt = some s' ∧ s.KeepsTables s') ∧
      ∀ s₀ : Machine A, s₀.allocMemoryBlock = (s, phys) → virt = P2V phys →
        ¬ ∃ s', s₀.vmmngrAllocPage = some (s', 0) := by
  constructor
  · rintro ⟨s', hmap, hkeeps⟩
    obtain ⟨p, hp, habsent, hpresent⟩ := h.present hmap
    have hindex : (pageDirectoryIndex virt).toNat < 1024 := by
      have hvirt := virt.isLt
      rw [pageDirectoryIndex_toNat]
      omega
    rw [hkeeps.directory _ p hindex hp] at hpresent
    exact hpresent habsent
  · rintro s₀ halloc hvirt ⟨s', hpage⟩
    have hret : P2V phys ≠ 0 := by
      rw [← hvirt]
      exact h.missing.1
    simp only [vmmngrAllocPage, halloc, if_neg h.phys_ne, Option.map_eq_some_iff, Prod.mk.injEq]
      at hpage
    obtain ⟨_, -, -, hzero⟩ := hpage
    exact hret hzero

end Machine

/-- Where the window reaches the directory and frame 0, the call comes back: frame 0 is wiped, it is
the new table, and its one entry maps the page. -/
theorem mapPage_intoFrameZero {A : Type} [FrameAllocator A] {d : Nat} {s : Machine A} {c : MapCall}
    (hdir : Directory s.mem d) (hcur : s.curDirectory = P2V (frameAddr d)) (hok : c.Ok)
    (hwin : Windowed d s c) (hfails : s.TableAllocFails c.1 c.2) (hd : d ≠ 0)
    (hother : ∀ i < 1024, HasTable s.mem d i → tableOf s.mem d i ≠ 0) :
    ∃ s', s.vmmngrMapPage c.1 c.2 = some s' ∧
      (s'.mem (1024 * d + c.dirIndex)).toNat / 4096 = 0 ∧ HasTable s'.mem d c.dirIndex ∧
        ∀ k < 1024, k ≠ c.tableIndex → s'.mem k = 0 := by
  have hfail : FrameAllocator.frame s.frames 0 = 0 := hfails.fails
  have hi := c.dirIndex_lt
  have habsent : ¬ HasTable s.mem d c.dirIndex := by
    obtain ⟨-, pde, hload, hpde⟩ := hfails.missing
    rw [load_dirEntry hdir hcur (hwin.dir _ List.mem_cons_self), Option.some.injEq] at hload
    rw [HasTable, hload]
    exact not_not.mpr hpde
  have hzero : 0 = (FrameAllocator.frame s.frames 0).toNat / 4096 := by rw [hfail]; rfl
  have hfresh : (FrameAllocator.frame s.frames 0).toNat % 4096 = 0 ∧
      (FrameAllocator.frame s.frames 0).toNat < 2 ^ 30 := by
    rw [hfail]
    decide
  obtain ⟨s', hmap, hmem⟩ : ∃ s', s.vmmngrMapPage c.1 c.2 = some s' ∧ ∀ k, k ≠ c.tableIndex →
      s'.mem k = Function.update (writeFrame s.mem 0 fun _ ↦ 0) (1024 * d + c.dirIndex)
        (filled (s.mem (1024 * d + c.dirIndex)) (frameAddr 0)) k := by
    obtain ⟨hmap, hmem⟩ :=
      mapPage_of_absent hdir hcur hok hwin habsent hzero ⟨hfresh.1, hfresh.2, hd.symm, hother⟩ rfl
    refine ⟨_, hmap, fun k hk ↦ ?_⟩
    change mappedMem d s c k = _
    rw [hmem, Function.update_of_ne (by omega)]
  have hj := c.tableIndex_lt
  have hentry : s'.mem (1024 * d + c.dirIndex) =
      filled (s.mem (1024 * d + c.dirIndex)) (frameAddr 0) := by
    rw [hmem _ (by omega), Function.update_self]
  refine ⟨s', hmap, ?_, ?_, fun k hk hne ↦ ?_⟩
  · rw [hentry, filled_frame _ (hdir.entry_lt _ hi), frameAddr_toNat (by decide)]
  · rw [HasTable, hentry]
    exact filled_flag _ _ (show 0 < 3 by decide) rfl
  · rw [hmem k hne, Function.update_of_ne (by omega)]
    exact if_pos (by omega)

/-- `smallSpace` when one frame is left, the first above the 4 MiB that are mapped. -/
def lastSpace : Machine MemMngr :=
  { smallSpace with frames :=
    { highMngr with
      memMngr := fun i ↦ if i = 32 then 0xFFFFFFFE else 0xFFFFFFFF
      usedBlocks := highMngr.maxBlocks - 1 } }

/-- Once the last frame is taken, all are in use. -/
def fullSpace : Machine MemMngr := lastSpace.allocMemoryBlock.1

theorem fullSpace_allocFails : fullSpace.TableAllocFails 0x400000 0xC0400000 :=
  ⟨by decide, ⟨by decide, 0, by decide +kernel, by decide⟩, by decide +kernel⟩

/-- The call of `vmmngr_alloc_page` that takes the last frame. -/
theorem lastSpace_not_safe :
    (¬ ∃ s', fullSpace.vmmngrMapPage 0x400000 0xC0400000 = some s' ∧ fullSpace.KeepsTables s') ∧
      ¬ ∃ s', lastSpace.vmmngrAllocPage = some (s', 0) := by
  obtain ⟨hmap, hpage⟩ := fullSpace_allocFails.not_safe
  have hlast : lastSpace.allocMemoryBlock.2 = 0x400000 := by decide +kernel
  exact ⟨hmap, hpage lastSpace (Prod.ext rfl hlast) rfl⟩

theorem windowed_fullSpace : Windowed 8 fullSpace (0x400000, 0xC0400000) :=
  ⟨by decide +kernel, by decide +kernel⟩

/-- Mapping the first page above the window's first 4 MiB with no frame left: the call comes back, and
frame 0 is the new table. -/
theorem not_keepsTables_fullSpace : ¬ ∀ (s : Machine MemMngr) (phys virt : u32),
    s.TableAllocFails phys virt → ∃ s', s.vmmngrMapPage phys virt = some s' ∧ s.KeepsTables s' := by
  intro h
  obtain ⟨s', hmap, hkeeps⟩ := h fullSpace 0x400000 0xC0400000 fullSpace_allocFails
  have hok : MapCall.Ok (0x400000, 0xC0400000) := by
    unfold MapCall.Ok
    decide
  obtain ⟨s'', hmap', -, hhas, -⟩ := mapPage_intoFrameZero (s := fullSpace) directory_smallMem rfl hok
    windowed_fullSpace fullSpace_allocFails (by decide) fun i hi hhas ↦ by
      rw [smallMem_hasTable hi hhas]
      decide +kernel
  rw [hmap, Option.some.injEq] at hmap'
  have htranslate : fullSpace.translate (mEntries fullSpace.curDirectory 769) = some 0x8C04 := by
    decide +kernel
  have hentry : s'.mem (1024 * 8 + 769) = 0 :=
    (hkeeps.directory 769 0x8C04 (by decide) htranslate).trans (by decide +kernel)
  rw [← hmap'] at hhas
  exact hhas (by rw [show MapCall.dirIndex (0x400000, 0xC0400000) = 769 by rfl, hentry]; rfl)

end TenOs.Mm
