import TenOs.Mm.Mapping

/-!
# The boot tables and their copy
-/

namespace TenOs.Mm

open TenOs.Base TenOs.Lib

/-- The tables of `setup_paging`. -/
def bootLayout : Layout where
  dir := 0x9C
  ident := some 0x9D
  table := fun _ ↦ 0x9E
  tables := 1
  lim := 1024

theorem bootLayout_ok : bootLayout.Ok where
  tables_le := by decide
  lim_le := by decide
  dir_lt := by decide
  table_lt k hk := by decide +revert
  ident_lt t ht := by cases ht; decide
  dir_ne k hk := by decide +revert
  inj k hk k' hk' _ := by
    change k < 1 at hk
    change k' < 1 at hk'
    omega
  ident_ne_dir t ht := by cases ht; decide
  ident_ne_table t ht k hk := by
    cases ht
    change 0x9E ≠ 0x9D
    decide

theorem bootTable_none {i : Nat} (hi0 : i ≠ 0) (hi768 : i ≠ 768) :
    bootLayout.space.table i = none := by
  have htables : bootLayout.tables = 1 := rfl
  exact Layout.space_table_none hi0 (by omega)

/-! ## `setup_paging` -/

theorem priv_add_eq {i : Nat} (hi : i < 1024) : PRIV + BitVec.ofNat 32 i * 4096 = entry (some i) := by
  have hpriv : PRIV.toNat = 7 := rfl
  have hpage : (4096 : u32).toNat = 4096 := rfl
  apply BitVec.eq_of_toNat_eq
  rw [entry_some_toNat (by omega), BitVec.toNat_add, BitVec.toNat_mul, BitVec.toNat_ofNat, hpriv, hpage]
  omega

theorem setupTables_eq (mem : Words) : setupTables mem =
    Function.update (Function.update (writeFrame (writeFrame mem 0x9C fun _ ↦ 0) 0x9D
      fun i ↦ PRIV + BitVec.ofNat 32 i * 4096) (1024 * 0x9C) (entry (some 0x9D)))
        (1024 * 0x9C + 768) (entry (some 0x9E)) := by
  rw [← forLoop_fill mem 0x9C, ← forLoop_fill _ 0x9D]
  rfl

theorem setupTables_ident (mem : Words) : setupTables mem (1024 * 0x9C) = entry (some 0x9D) := by
  rw [setupTables_eq, Function.update_of_ne (by omega), Function.update_self]

theorem setupTables_leaf (mem : Words) {j : Nat} (hj : j < 1024) :
    setupTables mem (1024 * 0x9D + j) = entry (some j) := by
  rw [setupTables_eq, Function.update_of_ne (by omega), Function.update_of_ne (by omega),
    writeFrame_same _ _ hj, priv_add_eq hj]

-- The two present entries of the directory, the others, and then the two tables.
theorem encodes_bootTables (mem : Words) :
    Encodes (writeFrame (setupTables mem) 0x9E fun i ↦ PRIV + BitVec.ofNat 32 i * 4096)
      bootLayout.space := by
  have hdir : bootLayout.space.dir = 0x9C := rfl
  constructor
  · intro i hi
    rw [hdir, writeFrame_other _ (by decide) hi]
    by_cases hi0 : i = 0
    · rw [hi0]
      exact setupTables_ident mem
    · by_cases hi768 : i = 768
      · rw [hi768, setupTables_eq, Function.update_self]
        rfl
      · rw [setupTables_eq, Function.update_of_ne (by omega), Function.update_of_ne (by omega),
          writeFrame_other _ (by decide) hi, writeFrame_same _ _ hi, bootTable_none hi0 hi768]
        rfl
  · intro i hi t ht j hj
    rcases Layout.space_table_cases ht with ⟨hi0, hident⟩ | ⟨k, hk, hi768, htk⟩
    · cases hident
      rw [writeFrame_other _ (by decide) hj, setupTables_leaf mem hj, hi0]
      rfl
    · change k < 1 at hk
      have hk0 : k = 0 := by omega
      subst hk0
      have hpage : bootLayout.space.leaf 768 j = some j := by
        have hkernel := Layout.space_leaf_kernel (L := bootLayout) (n := j) hj
        rwa [show 768 + j / 1024 = 768 by omega, Nat.mod_eq_of_lt hj] at hkernel
      change t = 0x9E at htk
      rw [htk, hi768, writeFrame_same _ _ hj, priv_add_eq hj]
      exact (congrArg entry hpage).symm

theorem setupPaging_spec {A : Type} (frames : A) (mem : Words) :
    ∃ s, setupPaging frames mem = some s ∧ s.frames = frames ∧ s.cr3 = PAGE_DIR ∧
      Active s bootLayout := by
  let s₀ : Machine A :=
    { frames, mem := setupTables mem, cr3 := PAGE_DIR, curDirectory := 0, curPdbr := 0,
      kernelDirectory := 0, kernelDirectoryPhysical := 0 }
  have hdir : s₀.cr3.toNat / 4096 = 0x9C := by
    change (0x9C000#32).toNat / 4096 = 0x9C
    decide
  -- the second table is filled through the identity mapping
  have hreaches : Reaches (setupTables mem) 0x9C 0x9E 0x9E 0x9D := by
    constructor
    · rw [show 1024 * 0x9C + 0x9E / 1024 = 1024 * 0x9C by decide, setupTables_ident]
    · rw [show 0x9E % 1024 = 0x9E by decide, setupTables_leaf mem (by decide)]
  have hwindow : Window s₀.mem s₀.cr3 0x9E 0x9E 0x9D :=
    ⟨by rw [hdir]; exact hreaches, by decide, by decide, by decide⟩
  have hfill := Machine.forAbort_fill hwindow (by rw [hdir]; decide) (by decide)
    (fun i s ↦ s.store (PAGE_TABLE_768 + 4 * BitVec.ofNat 32 i) (PRIV + BitVec.ofNat 32 i * 4096))
    (fun i ↦ PRIV + BitVec.ofNat 32 i * 4096) fun j hj m _ ↦ by
      refine ⟨PAGE_TABLE_768 + 4 * BitVec.ofNat 32 j, ⟨?_, hj⟩, rfl⟩
      have hbase : PAGE_TABLE_768.toNat = 4096 * 0x9E := rfl
      have hfour : (4 : u32).toNat = 4 := rfl
      rw [BitVec.toNat_add, BitVec.toNat_mul, BitVec.toNat_ofNat, hbase, hfour]
      omega
  exact ⟨_, hfill, rfl, rfl, bootLayout_ok, hdir, encodes_bootTables mem⟩

/-! ## Copying -/

/-- The first `i` entries of the new directory are made. -/
def Layout.copied (L : Layout) (i : Nat) : PageSpace :=
  { L.space with table := fun q ↦ if q < i then L.space.table q else none }

theorem Layout.copied_table {L : Layout} {i q t : Nat} (h : (L.copied i).table q = some t) :
    q < i ∧ L.space.table q = some t := by
  simp only [Layout.copied] at h
  by_cases hq : q < i
  · rw [if_pos hq] at h
    exact ⟨hq, h⟩
  · rw [if_neg hq] at h
    cases h

theorem Layout.Ok.copied_separate {L : Layout} (h : L.Ok) (i : Nat) : (L.copied i).Separate where
  dir_ne q hq ht := h.separate.dir_ne q hq (Layout.copied_table ht).2
  inj q hq q' hq' t ht ht' :=
    h.separate.inj q hq q' hq' t (Layout.copied_table ht).2 (Layout.copied_table ht').2

theorem Layout.copied_succ (L : Layout) {i f : Nat} (h : L.space.table i = some f) :
    L.copied (i + 1) = { L.copied i with
      table := Function.update (L.copied i).table i (some f)
      leaf := Function.update (L.copied i).leaf i (L.space.leaf i) } := by
  simp only [Layout.copied, PageSpace.mk.injEq, true_and]
  refine ⟨?_, (Function.update_eq_self i L.space.leaf).symm⟩
  funext q
  rw [Function.update_apply]
  by_cases hq : q = i
  · rw [if_pos hq, if_pos (by omega), hq, h]
  · rw [if_neg hq]
    exact if_congr (by omega) rfl rfl

theorem Layout.copied_succ_of_none (L : Layout) {i : Nat} (h : L.space.table i = none) :
    L.copied (i + 1) = L.copied i := by
  simp only [Layout.copied, PageSpace.mk.injEq, true_and, and_true]
  funext q
  by_cases hq : q = i
  · rw [if_pos (by omega), if_neg (by omega), hq, h]
  · exact if_congr (by omega) rfl rfl

theorem Layout.copied_zero (L : Layout) (i : Nat) : (L.copied 0).table i = none := by
  simp only [Layout.copied]
  rw [if_neg (Nat.not_lt_zero i)]

theorem Layout.Ok.copied_all {L : Layout} (h : L.Ok) : L.copied 1024 = L.space := by
  have htables := h.tables_le
  have htable : (L.copied 1024).table = L.space.table := by
    funext q
    simp only [Layout.copied]
    by_cases hq : q < 1024
    · rw [if_pos hq]
    · rw [if_neg hq, Layout.space_table_none (by omega) (by omega)]
  exact congrArg (fun table ↦ { L.space with table := table }) htable

variable {A : Type} {s : Machine A} {L : Layout}

/-- The processor still runs on the boot tables, and the first `i` entries are copied to `L`. -/
structure Copying (L : Layout) (i : Nat) (s : Machine A) : Prop extends Active s bootLayout where
  copied : Encodes s.mem (L.copied i)

/-- The new tables lie in frames that the boot tables map and do not use. -/
structure Fits (L : Layout) : Prop where
  ok : L.Ok
  lim_eq : L.lim = 1024
  tables_eq : L.tables = 1
  dir_fresh : ¬ bootLayout.space.Holds L.dir
  table_fresh : ∀ i < 1024, ∀ f, L.space.table i = some f → ¬ bootLayout.space.Holds f

theorem bootWindow (h : Active s bootLayout) {n : Nat} (hn : n < 1024) :
    Window s.mem s.cr3 (0xC0000 + n) n 0x9E := h.window hn

/-- Before the first turn the new directory is wiped. -/
theorem copying_zero (h : Active s bootLayout) {d : Nat} (hd : d = L.dir)
    (hfresh : ¬ bootLayout.space.Holds L.dir) :
    Copying L 0 { s with mem := writeFrame s.mem d fun _ ↦ 0 } := by
  subst hd
  refine ⟨h.writeFrame hfresh _, ?_, ?_⟩
  · intro i hi
    rw [L.copied_zero]
    exact writeFrame_same (fun _ ↦ 0) L.dir hi
  · intro i _ t ht
    exact absurd (Layout.copied_table ht).1 (Nat.not_lt_zero i)

theorem Machine.vmmngrSwitchPdirectory_frames (s : Machine A) (dirPhys : u32) :
    (s.vmmngrSwitchPdirectory dirPhys).frames = s.frames := by
  unfold Machine.vmmngrSwitchPdirectory
  split <;> rfl

/-- The switch to the new directory. -/
theorem running_of_copied (hL : L.Ok) (h : Copying L 1024 s) {d : Nat} (hd : d = L.dir)
    (hne : ¬ frameAddr d = 0) :
    Running (Machine.vmmngrSwitchPdirectory { s with
      kernelDirectory := P2V (frameAddr d)
      kernelDirectoryPhysical := frameAddr d
      curDirectory := P2V (frameAddr d)
      curPdbr := frameAddr d } (frameAddr d)) L := by
  subst hd
  have hdir := hL.dir_lt
  have hlim := hL.lim_le
  have htables := hL.tables_le
  unfold Machine.vmmngrSwitchPdirectory
  rw [if_neg hne]
  refine ⟨⟨hL, ?_, ?_⟩, rfl, rfl⟩
  · change (frameAddr L.dir).toNat / 4096 = L.dir
    rw [frameAddr_toNat (by omega)]
    omega
  · rw [← hL.copied_all]
    exact h.copied

variable [FrameAllocator A]

-- An absent entry of the boot directory leaves everything alone.
theorem copyTable_skip {i : Nat} (h : Copying L i s) (hi : i < 1024)
    (hboot : bootLayout.space.table i = none) (hnone : L.space.table i = none) :
    Machine.copyTable (P2V (frameAddr 0x9C)) (P2V (frameAddr L.dir)) i s = some s ∧
      Copying L (i + 1) s := by
  have hload := Machine.load_window (bootWindow h.toActive (show 0x9C < 1024 by decide))
    (pointsTo_mEntries_ofNat (by decide) hi)
  have hword := h.encodes.table i hi
  rw [hboot] at hword
  change s.mem (1024 * 0x9C + i) = _ at hword
  constructor
  · rw [Machine.copyTable, hload, hword]
    rfl
  · refine ⟨h.toActive, ?_⟩
    rw [L.copied_succ_of_none hnone]
    exact h.copied

omit [FrameAllocator A] in
theorem bootHolds {g : Nat} (hg : ¬ bootLayout.space.Holds g) : g ≠ 0x9C ∧ g ≠ 0x9E :=
  ⟨fun heq ↦ hg (Or.inl heq), fun heq ↦ hg (Or.inr ⟨768, by decide, heq ▸ rfl⟩)⟩

omit [FrameAllocator A] in
/-- The inner loop copies the boot table in frame `t` to frame `f`. -/
theorem copyRow (h : Active s bootLayout) {i t f : Nat} (hi : i < 1024)
    (hboot : bootLayout.space.table i = some t) (hf : f < 1024) (hfresh : ¬ bootLayout.space.Holds f) :
    forAbort (fun j s ↦ (s.load (mEntries (P2V (frameAddr t)) (BitVec.ofNat 32 j))).bind fun x ↦
        s.store (mEntries (P2V (frameAddr f)) (BitVec.ofNat 32 j)) x) 1024 0 s =
      some { s with mem := writeFrame s.mem f fun j ↦ entry (bootLayout.space.leaf i j) } := by
  have ht : t < 1024 := bootLayout_ok.frame_lt hboot
  have htf : t ≠ f := fun heq ↦ hfresh (Or.inr ⟨i, hi, heq ▸ hboot⟩)
  have hcr3 : f ≠ s.cr3.toNat / 4096 := by
    rw [h.cr3]
    exact (bootHolds hfresh).1
  refine Machine.forAbort_fill (bootWindow h hf) hcr3 (bootHolds hfresh).2 _ _ fun j hj m hm ↦
    ⟨_, pointsTo_mEntries_ofNat (by omega) hj, ?_⟩
  -- the old table reads the same while the new one is written
  have hactive : Active { s with mem := m } bootLayout :=
    { h with
      encodes := h.encodes.congr fun g hg q hq ↦ by
        have hgf : g ≠ f := fun heq : g = f ↦ hfresh (heq ▸ hg)
        exact hm _ (by omega) }
  have hread := Machine.load_window (bootWindow hactive ht)
    (pointsTo_mEntries_ofNat (show t < 2 ^ 18 by omega) hj)
  have hword : m (1024 * t + j) = entry (bootLayout.space.leaf i j) :=
    hactive.encodes.leaf i hi t hboot j hj
  rw [hread, Option.bind_some]
  exact congrArg _ hword

-- A present entry takes a new frame, copies the table into it and points the entry to it.
theorem copyTable_copy (hL : Fits L) {i t f : Nat} (h : Copying L i s) (hi : i < 1024)
    (hboot : bootLayout.space.table i = some t) (hnew : L.space.table i = some f)
    (hleaf : L.space.leaf i = bootLayout.space.leaf i)
    (hframe : (FrameAllocator.allocMemoryBlock s.frames).2 = frameAddr f) :
    ∃ s', Machine.copyTable (P2V (frameAddr 0x9C)) (P2V (frameAddr L.dir)) i s = some s' ∧
      Copying L (i + 1) s' ∧ s'.frames = (FrameAllocator.allocMemoryBlock s.frames).1 := by
  have hfresh := hL.table_fresh i hi f hnew
  have hlim := hL.lim_eq
  have hf := hL.ok.frame_lt hnew
  have hdir := hL.ok.dir_lt
  have hdirne := bootHolds hL.dir_fresh
  have hne_fdir : f ≠ L.dir := fun heq ↦ hL.ok.separate.dir_ne i hi (heq ▸ hnew : _ = some L.dir)
  have ht : t < 1024 := bootLayout_ok.frame_lt hboot
  have hpresent : ¬ entry (some t) &&& I86_PDE_PRESENT = 0 := entry_some_present (by omega)
  -- the boot entry reads the same before and after the new table is wiped
  have hload (s' : Machine A) (hs' : Active s' bootLayout) :
      s'.load (mEntries (P2V (frameAddr 0x9C)) (BitVec.ofNat 32 i)) = some (entry (some t)) := by
    rw [Machine.load_window (bootWindow hs' (show 0x9C < 1024 by decide))
      (pointsTo_mEntries_ofNat (by decide) hi), ← hboot]
    exact congrArg some (hs'.encodes.table i hi)
  have hret : s.allocMemoryBlock.2 = frameAddr f := hframe
  have htaken : Active s.allocMemoryBlock.1 bootLayout := ⟨h.ok, h.cr3, h.encodes⟩
  have hcr3 : s.allocMemoryBlock.1.cr3.toNat / 4096 = 0x9C := htaken.cr3
  have hwipe := Machine.memset_frame (bootWindow htaken (show f < 1024 by omega))
    (by rw [hcr3]; exact (bootHolds hfresh).1) (bootHolds hfresh).2
  have hwiped := htaken.writeFrame hfresh fun _ ↦ 0
  have hcopy := copyRow hwiped hi hboot (show f < 1024 by omega) hfresh
  rw [writeFrame_twice] at hcopy
  have hcopied := htaken.writeFrame hfresh fun j ↦ entry (bootLayout.space.leaf i j)
  -- the entry of the new directory
  have habsent : writeFrame s.mem f (fun j ↦ entry (bootLayout.space.leaf i j))
      (1024 * L.dir + i) = 0 := by
    have htable := h.copied.table i hi
    simp only [Layout.copied] at htable
    rw [if_neg (Nat.lt_irrefl i)] at htable
    rw [writeFrame_other _ hne_fdir.symm hi]
    exact htable
  have hapart : Apart s.allocMemoryBlock.1.cr3 (0xC0000 + L.dir) 0x9E (1024 * L.dir + i) :=
    ⟨by omega, by omega⟩
  have hset := Machine.setPte_absent (bootWindow hcopied (show L.dir < 1024 by omega))
    (pointsTo_mEntries_ofNat (by omega) hi) hapart habsent (show f < 2 ^ 20 by omega)
  have hhold : ¬ (L.copied i).Holds f := by
    intro hheld
    rcases hheld with hd | ⟨q, hq, hqf⟩
    · exact hne_fdir hd
    · obtain ⟨hlt, hsame⟩ := Layout.copied_table hqf
      exact Nat.ne_of_lt hlt (hL.ok.separate.inj q hq i hi f hsame hnew)
  have hrun : Machine.copyTable (P2V (frameAddr 0x9C)) (P2V (frameAddr L.dir)) i s =
      some { s.allocMemoryBlock.1 with
        mem := Function.update (writeFrame s.mem f fun j ↦ entry (bootLayout.space.leaf i j))
          (1024 * L.dir + i) (entry (some f)) } := by
    simp only [Machine.copyTable, Option.bind_eq_bind]
    rw [hload s h.toActive, Option.bind_some, if_neg hpresent, hret, hwipe, Option.bind_some,
      hload _ hwiped, Option.bind_some, pageGetPhysicalAddress_entry (by omega), hcopy,
      Option.bind_some, Machine.setPde_eq_setPte]
    exact hset
  refine ⟨_, hrun, ⟨{ hcopied with encodes := ?_ }, ?_⟩, rfl⟩
  · -- the boot tables are as they were
    refine hcopied.encodes.congr fun g hg j hj ↦ Function.update_of_ne ?_ _ _
    have hgdir : g ≠ L.dir := fun heq : g = L.dir ↦ hL.dir_fresh (heq ▸ hg)
    omega
  · rw [L.copied_succ hnew, hleaf]
    exact h.copied.setTable (hL.ok.copied_separate i) hi hhold (bootLayout.space.leaf i)

end TenOs.Mm
