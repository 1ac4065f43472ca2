import TenOs.Mm.Layout

/-!
# Mapping pages

What `vmmngr_map_page`, a turn of the loop that extends the mappings and the removal of the identity
mapping do to the layout of the tables.
-/

namespace TenOs.Mm

open TenOs.Base TenOs.Lib

variable {A : Type} {s : Machine A} {L : Layout}

/-- The processor runs on tables of this layout. -/
structure Active (s : Machine A) (L : Layout) : Prop where
  ok : L.Ok
  cr3 : s.cr3.toNat / 4096 = L.dir
  encodes : Encodes s.mem L.space

/-- The kernel edits the tables that the processor runs on. -/
structure Running (s : Machine A) (L : Layout) : Prop extends Active s L where
  kernelDirectory : s.kernelDirectory = P2V (frameAddr L.dir)
  curDirectory : s.curDirectory = P2V (frameAddr L.dir)

-- Page `0xC0000 + n` shows frame `n`, by the table that covers it.
theorem Active.window (h : Active s L) {n : Nat} (hn : n < L.lim) :
    Window s.mem s.cr3 (0xC0000 + n) n (L.table (n / 1024)) := by
  have hlim := h.ok.lim_le
  have htables := h.ok.tables_le
  have htable := h.ok.table_lt (n / 1024) (by omega)
  have hpage : (0xC0000 + n) / 1024 = 768 + n / 1024 := by omega
  have hword : (0xC0000 + n) % 1024 = n % 1024 := by omega
  refine ⟨?_, by omega, by omega, by omega⟩
  rw [h.cr3]
  apply h.encodes.reaches (by omega)
  · rw [hpage]
    exact Layout.space_table_kernel (by omega)
  · rw [hpage, hword]
    exact Layout.space_leaf_kernel hn

theorem Active.writeFrame (h : Active s L) {f : Nat} (hf : ¬ L.space.Holds f) (x : Nat → u32) :
    Active { s with mem := writeFrame s.mem f x } L where
  ok := h.ok
  cr3 := h.cr3
  encodes := h.encodes.congr fun g hg _ hj ↦
    writeFrame_other x (fun heq : g = f ↦ hf (heq ▸ hg)) hj

/-! ## One page -/

theorem frameAddr_ne_zero {n : Nat} (h : n < 2 ^ 20) (hn : n ≠ 0) : frameAddr n ≠ 0 := by
  intro heq
  have hnat := congrArg BitVec.toNat heq
  rw [frameAddr_toNat h] at hnat
  change 4096 * n = 0 at hnat
  omega

theorem P2V_ne_zero {n : Nat} (h : n < 2 ^ 18) : P2V (frameAddr n) ≠ 0 := by
  intro heq
  have hnat := congrArg BitVec.toNat heq
  rw [P2V_frameAddr h] at hnat
  change 0xC0000000 + 4096 * n = 0 at hnat
  omega

theorem directoryIndex_P2V {n : Nat} (h : n < 2 ^ 18) :
    (pageDirectoryIndex (P2V (frameAddr n))).toNat = 768 + n / 1024 := by
  rw [pageDirectoryIndex_toNat, P2V_frameAddr h]
  omega

theorem tableIndex_P2V {n : Nat} (h : n < 2 ^ 18) :
    (pageTableIndex (P2V (frameAddr n))).toNat = n % 1024 := by
  rw [pageTableIndex_toNat, P2V_frameAddr h]
  omega

namespace Running

variable (h : Running s L) {n : Nat}
include h

/-- Reading the directory entry for frame `n` in the window. -/
theorem load_pde (hn : n < 2 ^ 18) :
    s.load (mEntries s.curDirectory (pageDirectoryIndex (P2V (frameAddr n)))) =
      some (entry (L.space.table (768 + n / 1024))) := by
  have hlim := h.ok.lim_le
  have htables := h.ok.tables_le
  have hdir := h.ok.dir_lt
  have hindex := directoryIndex_P2V hn
  have hpoints := pointsTo_mEntries (show L.dir < 2 ^ 18 by omega)
    (show (pageDirectoryIndex (P2V (frameAddr n))).toNat < 1024 by omega)
  rw [h.curDirectory, Machine.load_window (h.window hdir) hpoints, hindex]
  exact congrArg some (h.encodes.table _ (by omega))

/-- With the table there, `vmmngr_map_page` goes on to the page's entry. -/
theorem mapInTable_eq (hn : n < 1024 * L.tables) (phys : u32) :
    s.mapInTable (mEntries s.curDirectory (pageDirectoryIndex (P2V (frameAddr n)))) phys
        (P2V (frameAddr n)) =
      s.setPte (mEntries (P2V (frameAddr (L.table (n / 1024)))) (pageTableIndex (P2V (frameAddr n))))
        phys := by
  have hlim := h.ok.lim_le
  have htables := h.ok.tables_le
  have htable := h.ok.table_lt (n / 1024) (by omega)
  rw [Machine.mapInTable, h.load_pde (by omega), Layout.space_table_kernel (by omega),
    Option.bind_eq_bind, Option.bind_some, pageGetPhysicalAddress_entry (by omega)]

/-- The entry for frame `n` in its table. -/
theorem pointsTo_pte (hn : n < 1024 * L.tables) :
    PointsTo (mEntries (P2V (frameAddr (L.table (n / 1024)))) (pageTableIndex (P2V (frameAddr n))))
      (0xC0000 + L.table (n / 1024)) (n % 1024) := by
  have hlim := h.ok.lim_le
  have htables := h.ok.tables_le
  have htable := h.ok.table_lt (n / 1024) (by omega)
  have hindex := tableIndex_P2V (show n < 2 ^ 18 by omega)
  have hpoints := pointsTo_mEntries (show L.table (n / 1024) < 2 ^ 18 by omega)
    (show (pageTableIndex (P2V (frameAddr n))).toNat < 1024 by omega)
  rwa [hindex] at hpoints

/-- Mapping a page that is mapped already stores what is there. -/
theorem mapInTable_old (hn : n < L.lim) :
    s.mapInTable (mEntries s.curDirectory (pageDirectoryIndex (P2V (frameAddr n)))) (frameAddr n)
      (P2V (frameAddr n)) = some s := by
  have hlim := h.ok.lim_le
  have htables := h.ok.tables_le
  have htable := h.ok.table_lt (n / 1024) (by omega)
  have hleaf := h.encodes.leaf (768 + n / 1024) (by omega) _
    (Layout.space_table_kernel (show n / 1024 < L.tables by omega)) (n % 1024) (by omega)
  rw [Layout.space_leaf_kernel hn] at hleaf
  rw [h.mapInTable_eq (by omega)]
  exact Machine.setPte_present (h.window htable) (h.pointsTo_pte (by omega)) (by omega) hleaf

theorem nextWord_eq_zero (hroom : L.lim < 1024 * L.tables) :
    s.mem (1024 * L.table (L.lim / 1024) + L.lim % 1024) = 0 := by
  have htables := h.ok.tables_le
  have hleaf := h.encodes.leaf (768 + L.lim / 1024) (by omega) _
    (Layout.space_table_kernel (show L.lim / 1024 < L.tables by omega)) (L.lim % 1024) (by omega)
  rw [hleaf]
  simp only [Layout.space]
  rw [if_neg (by omega), if_neg (by omega)]
  rfl

/-- Mapping the first page that is not mapped yet. -/
theorem mapInTable_new (hroom : L.lim < 1024 * L.tables) :
    ∃ s', s.mapInTable (mEntries s.curDirectory (pageDirectoryIndex (P2V (frameAddr L.lim))))
        (frameAddr L.lim) (P2V (frameAddr L.lim)) = some s' ∧
      Running s' { L with lim := L.lim + 1 } ∧ s'.frames = s.frames := by
  have htables := h.ok.tables_le
  have hk : L.lim / 1024 < L.tables := by omega
  have htable := h.ok.table_lt _ hk
  -- the entry is not one of the two words that map its own table
  have hapart : Apart s.cr3 (0xC0000 + L.table (L.lim / 1024))
      (L.table (L.table (L.lim / 1024) / 1024))
      (1024 * L.table (L.lim / 1024) + L.lim % 1024) := by
    have hdir := h.ok.dir_ne _ hk
    rw [← h.cr3] at hdir
    refine ⟨by omega, fun hword ↦ ?_⟩
    have hsame : L.table (L.table (L.lim / 1024) / 1024) = L.table (L.lim / 1024) := by omega
    have hindex := h.ok.inj _ (by omega) _ hk hsame
    omega
  rw [h.mapInTable_eq hroom, Machine.setPte_absent (h.window htable) (h.pointsTo_pte hroom) hapart
    (h.nextWord_eq_zero hroom) (show L.lim < 2 ^ 20 by omega)]
  refine ⟨_, rfl, ⟨⟨?_, h.cr3, ?_⟩, h.kernelDirectory, h.curDirectory⟩, rfl⟩
  · exact { h.ok with
      lim_le := hroom
      dir_lt := Nat.lt_succ_of_lt h.ok.dir_lt
      table_lt := fun k hk ↦ Nat.lt_succ_of_lt (h.ok.table_lt k hk)
      ident_lt := fun t ht ↦ Nat.lt_succ_of_lt (h.ok.ident_lt t ht) }
  · rw [Layout.space_addLeaf]
    exact h.encodes.setLeaf h.ok.separate (by omega) (Layout.space_table_kernel hk) (by omega) L.lim

variable [FrameAllocator A]

-- The directory entry is present, so no table is made.
theorem mapPage_of_table (hn : n < 1024 * L.tables) (hn0 : n ≠ 0) :
    s.vmmngrMapPage (frameAddr n) (P2V (frameAddr n)) =
      s.mapInTable (mEntries s.curDirectory (pageDirectoryIndex (P2V (frameAddr n)))) (frameAddr n)
        (P2V (frameAddr n)) := by
  have htables := h.ok.tables_le
  have htable := h.ok.small.table_lt (768 + n / 1024) (by omega) _
    (Layout.space_table_kernel (show n / 1024 < L.tables by omega))
  simp only [Machine.vmmngrMapPage, Option.bind_eq_bind]
  rw [if_neg (not_or.mpr ⟨frameAddr_ne_zero (by omega) hn0, P2V_ne_zero (by omega)⟩),
    h.load_pde (by omega), Option.bind_some, Layout.space_table_kernel (by omega)]
  exact if_neg (entry_some_present htable)

omit [FrameAllocator A] in
/-- A wiped frame becomes the next table. -/
theorem installTable (hlim : L.lim = 1024 * L.tables)
    (hnext : { L with tables := L.tables + 1 }.Ok) :
    ∃ s', (s.memset (P2V (frameAddr (L.table L.tables))) 0 4096).bind (fun s' ↦
        s'.setPde (mEntries s.curDirectory (pageDirectoryIndex (P2V (frameAddr L.lim))))
          (frameAddr (L.table L.tables))) = some s' ∧
      Running s' { L with tables := L.tables + 1 } ∧ s'.frames = s.frames := by
  have htables := hnext.tables_le
  change L.tables + 1 ≤ 256 at htables
  have hdir := h.ok.dir_lt
  have hfresh := hnext.table_lt L.tables (Nat.lt_succ_self _)
  change L.table L.tables < L.lim at hfresh
  have hne (k : Nat) (hk : k < L.tables) : L.table k ≠ L.table L.tables := fun heq ↦
    Nat.ne_of_lt hk (hnext.inj k (Nat.lt_succ_of_lt hk) L.tables (Nat.lt_succ_self _) heq)
  have hnedir := hnext.dir_ne L.tables (Nat.lt_succ_self _)
  change L.table L.tables ≠ L.dir at hnedir
  have hhold : ¬ L.space.Holds (L.table L.tables) :=
    Layout.not_holds hnedir (fun heq ↦ hnext.ident_ne_table _ heq L.tables (Nat.lt_succ_self _) rfl)
      hne
  have hindex : (pageDirectoryIndex (P2V (frameAddr L.lim))).toNat = 768 + L.tables := by
    rw [directoryIndex_P2V (by omega)]
    omega
  have hentry : PointsTo (mEntries s.curDirectory (pageDirectoryIndex (P2V (frameAddr L.lim))))
      (0xC0000 + L.dir) (768 + L.tables) := by
    rw [h.curDirectory, ← hindex]
    exact pointsTo_mEntries (by omega) (by omega)
  have hne_cr3 : L.table L.tables ≠ s.cr3.toNat / 4096 := by rwa [h.cr3]
  have hwiped := h.toActive.writeFrame hhold fun _ ↦ 0
  have habsent : writeFrame s.mem (L.table L.tables) (fun _ ↦ 0)
      (1024 * L.dir + (768 + L.tables)) = 0 := by
    have htable := hwiped.encodes.table (768 + L.tables) (by omega)
    rwa [Layout.space_table_none (by omega) (by omega)] at htable
  -- the entry is not one of the two words that map the directory
  have hapart : Apart s.cr3 (0xC0000 + L.dir) (L.table (L.dir / 1024))
      (1024 * L.dir + (768 + L.tables)) := by
    have htable := h.ok.dir_ne (L.dir / 1024) (by omega)
    have hcr3 := h.cr3
    exact ⟨by omega, by omega⟩
  rw [Machine.memset_frame (h.window hfresh) hne_cr3 (hne _ (by omega)).symm, Option.bind_some,
    Machine.setPde_eq_setPte, Machine.setPte_absent (hwiped.window hdir) hentry hapart habsent
      (by omega)]
  refine ⟨_, rfl, ⟨⟨hnext, h.cr3, ?_⟩, h.kernelDirectory, h.curDirectory⟩, rfl⟩
  rw [Layout.space_addTable L (by omega)]
  exact h.encodes.setTable h.ok.separate (by omega) hhold fun _ ↦ none

/-- Behind the last table, `vmmngr_map_page` makes a new one first. -/
theorem mapPage_newTable (hlim : L.lim = 1024 * L.tables) (hpos : 0 < L.tables)
    (hnext : { L with tables := L.tables + 1 }.Ok)
    (hframe : (FrameAllocator.allocMemoryBlock s.frames).2 = frameAddr (L.table L.tables)) :
    ∃ s', s.vmmngrMapPage (frameAddr L.lim) (P2V (frameAddr L.lim)) =
        s'.mapInTable (mEntries s'.curDirectory (pageDirectoryIndex (P2V (frameAddr L.lim))))
          (frameAddr L.lim) (P2V (frameAddr L.lim)) ∧
      Running s' { L with tables := L.tables + 1 } ∧
      s'.frames = (FrameAllocator.allocMemoryBlock s.frames).1 := by
  have htables := hnext.tables_le
  change L.tables + 1 ≤ 256 at htables
  have hfresh := hnext.table_lt L.tables (Nat.lt_succ_self _)
  change L.table L.tables < L.lim at hfresh
  have habsent : L.space.table (768 + L.lim / 1024) = none :=
    Layout.space_table_none (by omega) (by omega)
  have htaken : Running s.allocMemoryBlock.1 L :=
    ⟨⟨h.ok, h.cr3, h.encodes⟩, h.kernelDirectory, h.curDirectory⟩
  obtain ⟨s', hinstall, hrunning, hframes⟩ := htaken.installTable hlim hnext
  refine ⟨s', ?_, hrunning, hframes⟩
  have hret : s.allocMemoryBlock.2 = frameAddr (L.table L.tables) := hframe
  simp only [Machine.vmmngrMapPage, Option.bind_eq_bind]
  rw [if_neg (not_or.mpr ⟨frameAddr_ne_zero (by omega) (by omega), P2V_ne_zero (by omega)⟩),
    h.load_pde (by omega), Option.bind_some, habsent, hret]
  have hclear : entry none &&& I86_PDE_PRESENT = 0 := rfl
  rw [if_pos hclear, if_neg (P2V_ne_zero (by omega)), ← Option.bind_assoc]
  refine (congrArg (fun o ↦ Option.bind o _) hinstall).trans ?_
  rw [Option.bind_some, h.curDirectory, hrunning.curDirectory]

/-- "Extending memory mappings" by the first page that is not mapped yet. -/
theorem extendPage_step (hpos : 0 < L.tables) (hroom : L.lim < 2 ^ 18)
    (hnext : L.lim = 1024 * L.tables → { L with tables := L.tables + 1 }.Ok ∧
      (FrameAllocator.allocMemoryBlock s.frames).2 = frameAddr (L.table L.tables)) :
    ∃ s', s.extendPage (frameAddr L.lim) = some s' ∧
      Running s' { L with
        tables := if L.lim = 1024 * L.tables then L.tables + 1 else L.tables
        lim := L.lim + 1 } ∧
      s'.frames = if L.lim = 1024 * L.tables then (FrameAllocator.allocMemoryBlock s.frames).1
        else s.frames := by
  have hlim := h.ok.lim_le
  have hdir := h.ok.dir_lt
  have hvirt : 0xC0000000 + frameAddr L.lim = P2V (frameAddr L.lim) := BitVec.add_comm _ _
  have hload : s.load (mEntries s.kernelDirectory (pageDirectoryIndex (P2V (frameAddr L.lim)))) =
      some (entry (L.space.table (768 + L.lim / 1024))) := by
    rw [h.kernelDirectory, ← h.curDirectory]
    exact h.load_pde hroom
  simp only [Machine.extendPage, hvirt, hload, Option.bind_eq_bind, Option.bind_some]
  by_cases hfull : L.lim = 1024 * L.tables
  · have habsent : L.space.table (768 + L.lim / 1024) = none :=
      Layout.space_table_none (by omega) (by omega)
    obtain ⟨hok, hframe⟩ := hnext hfull
    obtain ⟨s₁, hmap, hrunning, hframes⟩ := h.mapPage_newTable hfull hpos hok hframe
    obtain ⟨s', hleaf, hdone, hsame⟩ := hrunning.mapInTable_new
      (show L.lim < 1024 * (L.tables + 1) by omega)
    rw [habsent, if_pos (show entry none &&& I86_PDE_PRESENT = 0 from rfl), if_pos hfull, if_pos hfull,
      hmap]
    exact ⟨s', hleaf, hdone, hsame.trans hframes⟩
  · have htables := h.ok.tables_le
    have hlt : L.lim < 1024 * L.tables := by omega
    have htable := h.ok.table_lt (L.lim / 1024) (by omega)
    have hpresent : ¬ entry (some (L.table (L.lim / 1024))) &&& I86_PDE_PRESENT = 0 :=
      entry_some_present (by omega)
    obtain ⟨s', hleaf, hdone, hsame⟩ := h.mapInTable_new hlt
    rw [Layout.space_table_kernel (by omega), if_neg hpresent, pageGetPhysicalAddress_entry (by omega),
      Machine.load_window (h.window htable) (h.pointsTo_pte hlt), Option.bind_some,
      h.nextWord_eq_zero hlt, if_pos (show 0 &&& I86_PTE_PRESENT = 0 from rfl), if_neg hfull,
      if_neg hfull, h.mapPage_of_table hlt (by omega)]
    exact ⟨s', hleaf, hdone, hsame⟩

omit [FrameAllocator A] in
/-- "Removing identity mapping". -/
theorem removeIdentity_eq {t : Nat} (hident : L.ident = some t) :
    ∃ s', s.removeIdentity = some s' ∧ Running s' { L with ident := none } ∧
      s'.frames = s.frames := by
  have hlim := h.ok.lim_le
  have htables := h.ok.tables_le
  have hdir := h.ok.dir_lt
  have hlt := h.ok.ident_lt t hident
  have htable : L.space.table 0 = some t := hident
  have hindex : (0 : u32).toNat = 0 := rfl
  have hentry : PointsTo (mEntries s.kernelDirectory 0) (0xC0000 + L.dir) 0 := by
    rw [h.kernelDirectory]
    exact pointsTo_mEntries (i := 0) (by omega) (by omega)
  have hword := h.encodes.table 0 (by omega)
  rw [htable] at hword
  have hpresent : ¬ entry (some t) &&& I86_PDE_PRESENT = 0 := entry_some_present (by omega)
  have hnedir : t ≠ s.cr3.toNat / 4096 := by
    rw [h.cr3]
    exact h.ok.ident_ne_dir t hident
  have hnetable : t ≠ L.table (t / 1024) := (h.ok.ident_ne_table t hident _ (by omega)).symm
  have hwipe : forAbort (fun i s ↦
      s.store (mEntries (P2V (frameAddr t)) (BitVec.ofNat 32 i)) 0) 1024 0 s =
        some { s with mem := writeFrame s.mem t fun _ ↦ 0 } :=
    Machine.forAbort_fill (h.window hlt) hnedir hnetable _ _ fun j hj m _ ↦
      ⟨_, pointsTo_mEntries_ofNat (by omega) hj, rfl⟩
  -- the directory is reached through tables that are not wiped
  have hdirtable := h.ok.ident_ne_table t hident (L.dir / 1024) (by omega)
  have hwindow : Window (writeFrame s.mem t fun _ ↦ 0) s.cr3 (0xC0000 + L.dir) L.dir
      (L.table (L.dir / 1024)) :=
    { h.window hdir with
      reaches := (h.window hdir).reaches.congr (writeFrame_other _ hnedir.symm (by omega))
        (writeFrame_other _ hdirtable (by omega)) }
  have hstore := Machine.store_window (s := { s with mem := writeFrame s.mem t fun _ ↦ 0 }) hwindow
    hentry 0
  simp only [Machine.removeIdentity, Machine.load_window (h.window hdir) hentry, Option.bind_eq_bind,
    Option.bind_some]
  rw [show s.mem (1024 * L.dir + 0) = entry (some t) from hword, if_neg hpresent,
    pageGetPhysicalAddress_entry (by omega), hwipe, Option.bind_some, hstore]
  refine ⟨_, rfl, ⟨⟨?_, h.cr3, ?_⟩, h.kernelDirectory, h.curDirectory⟩, rfl⟩
  · exact { h.ok with
      ident_lt := fun _ hnone ↦ nomatch hnone
      ident_ne_dir := fun _ hnone ↦ nomatch hnone
      ident_ne_table := fun _ hnone ↦ nomatch hnone }
  · rw [Layout.space_dropIdent]
    exact h.encodes.dropTable h.ok.separate (by omega) htable fun _ ↦ 0

end Running

end TenOs.Mm
