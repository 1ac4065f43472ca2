import TenOs.Mm.BootTables
import TenOs.Mm.Frames

/-!
# The address space that `vmmngr_initialize` sets up

The whole of `vmmngr_initialize`, from the boot tables on and over any frame allocator.
-/

namespace TenOs.Mm

open TenOs.Base TenOs.Lib FrameAllocator

variable {A : Type} [FrameAllocator A]

/-- The pages of the kernel's window at the end. -/
def mappedPages (totalMemory : u32) : Nat :=
  (max 0x400000 (min totalMemory.toNat 0x40000000) + 4095) / 4096

/-- The tables for a window of `lim` pages. -/
def tablesFor (lim : Nat) : Nat := (lim + 1023) / 1024

/-- The calls of `alloc_memory_block`: the directory, the copy of the identity table, and a table for
each 4 MiB of the window. -/
def initCalls (totalMemory : u32) : Nat := 2 + tablesFor (mappedPages totalMemory)

/-- What the first `n` calls return are frames of their own below 1 GiB. -/
structure FramesGiven (a : A) (n : Nat) : Prop where
  aligned : ∀ i < n, (frame a i).toNat % 4096 = 0
  ne_zero : ∀ i < n, frame a i ≠ 0
  below : ∀ i < n, (frame a i).toNat < 0x40000000
  distinct : ∀ i < n, ∀ j < n, frame a i = frame a j → i = j
  notBoot : ∀ i < n, frame a i ≠ PAGE_DIR ∧ frame a i ≠ PAGE_TABLE_0 ∧ frame a i ≠ PAGE_TABLE_768

/-- Each frame is mapped when it is handed out: the boot tables map 4 MiB, and before the table for
block `k` of 4 MiB is made, the window has all that lies below that block. -/
def FramesMapped (a : A) (n : Nat) : Prop := ∀ i < n, (frame a i).toNat < 0x400000 * max 1 (i - 2)

/-! ## The layouts on the way -/

def frameNo (a : A) (i : Nat) : Nat := (frame a i).toNat / 4096

def layoutOf (a : A) (tables lim : Nat) : Layout where
  dir := frameNo a 0
  ident := some (frameNo a 1)
  table := fun k ↦ frameNo a (k + 2)
  tables := tables
  lim := lim

section Frames

variable {a : A} {n : Nat} (hgiven : FramesGiven a n)
include hgiven

theorem frame_eq {i : Nat} (hi : i < n) : frame a i = frameAddr (frameNo a i) := by
  have haligned := hgiven.aligned i hi
  have hbelow := hgiven.below i hi
  apply BitVec.eq_of_toNat_eq
  rw [frameAddr_toNat (by unfold frameNo; omega), frameNo]
  omega

theorem frameNo_inj {i j : Nat} (hi : i < n) (hj : j < n) (h : frameNo a i = frameNo a j) : i = j := by
  apply hgiven.distinct i hi j hj
  rw [frame_eq hgiven hi, frame_eq hgiven hj, h]

theorem frameNo_fresh {i : Nat} (hi : i < n) : ¬ bootLayout.space.Holds (frameNo a i) := by
  have hne := hgiven.notBoot i hi
  rw [frame_eq hgiven hi] at hne
  refine Layout.not_holds (fun h ↦ hne.1 (h ▸ rfl)) (fun h ↦ ?_) fun k _ h ↦ ?_
  · exact hne.2.1 (Option.some.inj h ▸ rfl)
  · exact hne.2.2 (h ▸ rfl)

variable (hmapped : FramesMapped a n)
include hmapped

omit hgiven in
theorem frameNo_lt {i : Nat} (hi : i < n) : frameNo a i < 1024 * max 1 (i - 2) := by
  have hlt := hmapped i hi
  unfold frameNo
  omega

-- The frames are the directory, the kernel's two tables, and one for every further 4 MiB.
theorem layoutOf_ok {tables lim : Nat} (hn : 2 + tables ≤ n) (htables : tables ≤ 256)
    (hlow : 1024 * (tables - 1) ≤ lim) (hstart : 1024 ≤ lim) (hlim : lim ≤ 1024 * tables) :
    (layoutOf a tables lim).Ok where
  tables_le := htables
  lim_le := hlim
  dir_lt := by
    have hlt := frameNo_lt hmapped (show 0 < n by omega)
    change frameNo a 0 < lim
    omega
  table_lt k hk := by
    change k < tables at hk
    have hlt := frameNo_lt hmapped (show k + 2 < n by omega)
    change frameNo a (k + 2) < lim
    omega
  ident_lt t ht := by
    cases ht
    have hlt := frameNo_lt hmapped (show 1 < n by omega)
    change frameNo a 1 < lim
    omega
  dir_ne k hk h := by
    change k < tables at hk
    have hsame := frameNo_inj hgiven (show k + 2 < n by omega) (show 0 < n by omega) h
    omega
  inj k hk k' hk' h := by
    change k < tables at hk
    change k' < tables at hk'
    have hsame := frameNo_inj hgiven (show k + 2 < n by omega) (show k' + 2 < n by omega) h
    omega
  ident_ne_dir t ht h := by
    cases ht
    have hsame := frameNo_inj hgiven (show 1 < n by omega) (show 0 < n by omega) h
    omega
  ident_ne_table t ht k hk h := by
    cases ht
    change k < tables at hk
    have hsame := frameNo_inj hgiven (show k + 2 < n by omega) (show 1 < n by omega) h
    omega

theorem layoutOf_fits (hn : 3 ≤ n) : Fits (layoutOf a 1 1024) where
  ok := layoutOf_ok hgiven hmapped (by omega) (by decide) (by decide) (by decide) (by decide)
  lim_eq := rfl
  tables_eq := rfl
  dir_fresh := frameNo_fresh hgiven (by omega)
  table_fresh i _ f hf := by
    rcases Layout.space_table_cases hf with ⟨-, hident⟩ | ⟨k, hk, -, htk⟩
    · cases hident
      exact frameNo_fresh hgiven (by omega)
    · change k < 1 at hk
      rw [htk]
      exact frameNo_fresh hgiven (show k + 2 < n by omega)

end Frames

/-! ## Copying the boot tables -/

/-- The calls of `alloc_memory_block` before directory entry `i` is copied. -/
def copyCalls (i : Nat) : Nat := if i = 0 then 1 else if i ≤ 768 then 2 else 3

-- Only the entries 0 and 768 of the boot directory are present, so two frames are taken.
theorem copyTables_spec {a : A} {s : Machine A} (hL : Fits (layoutOf a 1 1024))
    (hident : frame a 1 = frameAddr (frameNo a 1)) (hkernel : frame a 2 = frameAddr (frameNo a 2))
    (hstart : Copying (layoutOf a 1 1024) 0 s) (hframes : s.frames = after a 1) :
    ∃ s', forAbort (Machine.copyTable (P2V (frameAddr 0x9C)) (P2V (frameAddr (frameNo a 0)))) 1024 0 s =
        some s' ∧ Copying (layoutOf a 1 1024) 1024 s' ∧ s'.frames = after a 3 := by
  have hleaf (i : Nat) : (layoutOf a 1 1024).space.leaf i = bootLayout.space.leaf i := rfl
  have hrun : ∃ s', forAbort (Machine.copyTable (P2V (frameAddr 0x9C)) (P2V (frameAddr (frameNo a 0))))
      1024 0 s = some s' ∧ Copying (layoutOf a 1 1024) (0 + 1024) s' ∧
        s'.frames = after a (copyCalls (0 + 1024)) := by
    refine forAbort_inv (fun i s ↦ Copying (layoutOf a 1 1024) i s ∧ s.frames = after a (copyCalls i))
      ⟨hstart, hframes⟩ fun i s _ hi ⟨hcopying, hcalls⟩ ↦ ?_
    by_cases hi0 : i = 0
    · subst hi0
      have hframe : (allocMemoryBlock s.frames).2 = frameAddr (frameNo a 1) := by
        rw [hcalls]
        exact hident
      obtain ⟨s', hcopy, hnext, hsame⟩ := copyTable_copy hL hcopying (by omega) rfl rfl (hleaf 0) hframe
      exact ⟨s', hcopy, hnext, by rw [hsame, hcalls]; rfl⟩
    · by_cases hi768 : i = 768
      · subst hi768
        have hframe : (allocMemoryBlock s.frames).2 = frameAddr (frameNo a 2) := by
          rw [hcalls]
          exact hkernel
        obtain ⟨s', hcopy, hnext, hsame⟩ :=
          copyTable_copy hL hcopying (by omega) rfl rfl (hleaf 768) hframe
        exact ⟨s', hcopy, hnext, by rw [hsame, hcalls]; rfl⟩
      · have hnone : (layoutOf a 1 1024).space.table i = none := by
          have htables : (layoutOf a 1 1024).tables = 1 := rfl
          exact Layout.space_table_none hi0 (by omega)
        obtain ⟨hskip, hnext⟩ := copyTable_skip hcopying (by omega) (bootTable_none hi0 hi768) hnone
        have hsame : copyCalls (i + 1) = copyCalls i := by
          unfold copyCalls
          rw [if_neg hi0, if_neg (by omega)]
          exact if_congr (by omega) rfl rfl
        exact ⟨s, hskip, hnext, hcalls.trans (congrArg (after a) hsame.symm)⟩
  exact hrun

/-! ## Extending the window -/

-- Turn by turn the layout grows by one page, and by a table when all are full.
theorem extend_spec {a : A} {s : Machine A} (turns : Nat) (hturns : 1024 + turns ≤ 2 ^ 18)
    (hgiven : FramesGiven a (2 + tablesFor (1024 + turns)))
    (hmapped : FramesMapped a (2 + tablesFor (1024 + turns)))
    (hstart : Running s (layoutOf a 1 1024)) (hframes : s.frames = after a 3) :
    ∃ s', forAbort (fun i s ↦ s.extendPage (0x400000 + BitVec.ofNat 32 i * PAGE_SIZE)) turns 0 s =
        some s' ∧ Running s' (layoutOf a (tablesFor (1024 + turns)) (1024 + turns)) ∧
      s'.frames = after a (2 + tablesFor (1024 + turns)) := by
  have hrun : ∃ s', forAbort (fun i s ↦
      Machine.extendPage (0x400000 + BitVec.ofNat 32 i * PAGE_SIZE) s) turns 0 s = some s' ∧
        Running s' (layoutOf a (tablesFor (1024 + (0 + turns))) (1024 + (0 + turns))) ∧
        s'.frames = after a (2 + tablesFor (1024 + (0 + turns))) := by
    refine forAbort_inv (fun i s ↦ Running s (layoutOf a (tablesFor (1024 + i)) (1024 + i)) ∧
      s.frames = after a (2 + tablesFor (1024 + i))) ⟨hstart, hframes⟩
        fun i s _ hi ⟨hrunning, hcalls⟩ ↦ ?_
    have hphys : 0x400000 + BitVec.ofNat 32 i * PAGE_SIZE = frameAddr (1024 + i) := by
      apply BitVec.eq_of_toNat_eq
      have hbase : (0x400000 : u32).toNat = 0x400000 := rfl
      have hpage : PAGE_SIZE.toNat = 4096 := rfl
      rw [frameAddr_toNat (by omega), BitVec.toNat_add, BitVec.toNat_mul, BitVec.toNat_ofNat, hbase,
        hpage]
      omega
    have htables : tablesFor (1024 + (i + 1)) =
        if 1024 + i = 1024 * tablesFor (1024 + i) then tablesFor (1024 + i) + 1
        else tablesFor (1024 + i) := by
      unfold tablesFor
      split <;> omega
    have hle : tablesFor (1024 + (i + 1)) ≤ tablesFor (1024 + turns) := by
      unfold tablesFor
      omega
    have hcount : tablesFor (1024 + i) = (1024 + i + 1023) / 1024 := rfl
    -- a new table is due when the window ends where the tables do
    have hnext (hfull : 1024 + i = 1024 * tablesFor (1024 + i)) :
        (layoutOf a (tablesFor (1024 + i) + 1) (1024 + i)).Ok ∧
          (allocMemoryBlock s.frames).2 = frameAddr (frameNo a (tablesFor (1024 + i) + 2)) := by
      rw [if_pos hfull] at htables
      constructor
      · exact layoutOf_ok hgiven hmapped (by omega) (by omega) (by omega) (by omega) (by omega)
      · rw [hcalls, Nat.add_comm 2]
        exact frame_eq hgiven (by omega)
    obtain ⟨s', hextend, hdone, hsame⟩ :=
      hrunning.extendPage_step (show 0 < tablesFor (1024 + i) by omega)
        (show 1024 + i < 2 ^ 18 by omega) hnext
    refine ⟨s', by rw [hphys]; exact hextend, ?_, ?_⟩
    · rw [htables]
      exact hdone
    · rw [hsame, htables]
      change (if 1024 + i = 1024 * tablesFor (1024 + i) then _ else _) = _
      by_cases hfull : 1024 + i = 1024 * tablesFor (1024 + i)
      · rw [if_pos hfull, if_pos hfull, hcalls]
        rfl
      · rw [if_neg hfull, if_neg hfull, hcalls]
  rw [Nat.zero_add] at hrun
  exact hrun

/-! ## `vmmngr_initialize` -/

theorem extendTurns_eq (totalMemory : u32) :
    1024 + Machine.extendTurns (if totalMemory > 0x40000000 then 0x40000000 else totalMemory) =
      mappedPages totalMemory := by
  have hcapped : (if totalMemory > 0x40000000 then 0x40000000 else totalMemory).toNat =
      min totalMemory.toNat 0x40000000 := by
    split
    · rename_i hbig
      exact (Nat.min_eq_right (Nat.le_of_lt hbig)).symm
    · rename_i hbig
      exact (Nat.min_eq_left (Nat.le_of_not_lt hbig)).symm
  unfold Machine.extendTurns mappedPages
  rw [hcapped]
  omega

-- The parts in the order of the source: copy, load the directory, extend, drop the identity map.
theorem vmmngrInitialize_spec {s : Machine A} (totalMemory : u32) (hboot : Active s bootLayout)
    (hcr3 : s.cr3 = PAGE_DIR) (hgiven : FramesGiven s.frames (initCalls totalMemory))
    (hmapped : FramesMapped s.frames (initCalls totalMemory)) :
    ∃ s', s.vmmngrInitialize totalMemory = some s' ∧
      Running s' { layoutOf s.frames (tablesFor (mappedPages totalMemory)) (mappedPages totalMemory)
        with ident := none } ∧
      s'.frames = after s.frames (initCalls totalMemory) := by
  have hpages := extendTurns_eq totalMemory
  have hcalls : 3 ≤ initCalls totalMemory := by
    unfold initCalls tablesFor
    omega
  have hbound : mappedPages totalMemory ≤ 2 ^ 18 := by
    unfold mappedPages
    omega
  have hfits := layoutOf_fits hgiven hmapped hcalls
  have hdirlt := frameNo_lt hmapped (show 0 < initCalls totalMemory by omega)
  have hret : s.allocMemoryBlock.2 = frameAddr (frameNo s.frames 0) :=
    frame_eq hgiven (show 0 < initCalls totalMemory by omega)
  have hne : ¬ frameAddr (frameNo s.frames 0) = 0 := by
    rw [← hret]
    exact hgiven.ne_zero 0 (by omega)
  have hbootPd : P2V s.cr3 = P2V (frameAddr 0x9C) := by
    rw [hcr3]
    rfl
  -- the new directory is wiped, and the boot tables are copied into it
  have htaken : Active s.allocMemoryBlock.1 bootLayout := ⟨hboot.ok, hboot.cr3, hboot.encodes⟩
  have hdirne := bootHolds hfits.dir_fresh
  have hcr3' : s.allocMemoryBlock.1.cr3.toNat / 4096 = 0x9C := hboot.cr3
  have hwipe := Machine.memset_frame (bootWindow htaken (show frameNo s.frames 0 < 1024 by omega))
    (by rw [hcr3']; exact hdirne.1) hdirne.2
  obtain ⟨s₁, hcopy, hcopied, hframes₁⟩ := copyTables_spec hfits
    (frame_eq hgiven (show 1 < initCalls totalMemory by omega))
    (frame_eq hgiven (show 2 < initCalls totalMemory by omega))
    (copying_zero htaken (d := frameNo s.frames 0) rfl hfits.dir_fresh) rfl
  have hrunning₁ := running_of_copied hfits.ok hcopied (d := frameNo s.frames 0) rfl hne
  -- the window grows to its end, and the identity mapping goes
  obtain ⟨s₂, hextend, hrunning₂, hframes₂⟩ := extend_spec
    (Machine.extendTurns (if totalMemory > 0x40000000 then 0x40000000 else totalMemory)) (by omega)
    (by rw [hpages, ← initCalls]; exact hgiven) (by rw [hpages, ← initCalls]; exact hmapped) hrunning₁
    ((Machine.vmmngrSwitchPdirectory_frames _ _).trans hframes₁)
  obtain ⟨s', hremove, hrunning, hframes⟩ := hrunning₂.removeIdentity_eq rfl
  refine ⟨s', ?_, ?_, ?_⟩
  · simp only [Machine.vmmngrInitialize, Option.bind_eq_bind]
    rw [hret, if_neg hne, hbootPd, hwipe, Option.bind_some, hcopy, Option.bind_some, hextend,
      Option.bind_some, hremove]
  · rw [hpages] at hrunning
    exact hrunning
  · rw [hframes, hframes₂, hpages, initCalls]

/-! ## The final address space -/

/-- The first `size` bytes of physical memory are mapped from `0xC0000000` on, for reading, writing
and user mode, and nothing else is mapped. -/
structure DirectMap (s : Machine A) (size : Nat) : Prop where
  present_iff : ∀ v : u32, v.toNat % 4096 = 0 → ((walk s.mem s.cr3 v).isSome ↔
    0xC0000000 ≤ v.toNat ∧ v.toNat - 0xC0000000 < size)
  translates : ∀ v p, s.translate v = some p → p = v - 0xC0000000
  flags : ∀ v e, walk s.mem s.cr3 v = some e →
    e &&& I86_PTE_PRESENT ≠ 0 ∧ e &&& I86_PTE_WRITABLE ≠ 0 ∧ e &&& I86_PTE_USER ≠ 0
  lower : ∀ v : u32, v.toNat < 0xC0000000 → s.translate v = none

omit [FrameAllocator A] in
-- Each page of the window is in a table of the layout, and the walk reads it there.
theorem directMap_of_running {s : Machine A} {L : Layout} {size : Nat} (h : Running s L)
    (hident : L.ident = none) (hlim : L.lim = (size + 4095) / 4096) : DirectMap s size := by
  have hpages := Layout.page_eq hident h.ok.lim_le
  have hwalk (v : u32) := h.encodes.walk_eq (v := v) h.ok.small h.cr3
  have hin {v e : u32} (hv : walk s.mem s.cr3 v = some e) : 0xC0000 ≤ v.toNat / 4096 ∧
      v.toNat / 4096 - 0xC0000 < L.lim ∧ e = entry (some (v.toNat / 4096 - 0xC0000)) := by
    rw [hwalk, hpages] at hv
    split at hv
    · rename_i hmapped
      exact ⟨hmapped.1, hmapped.2, (Option.some.inj hv).symm⟩
    · cases hv
  have htables := h.ok.tables_le
  have hle := h.ok.lim_le
  have hsmall : L.lim ≤ 2 ^ 20 := by omega
  constructor
  · intro v haligned
    rw [hwalk, hpages]
    by_cases hmapped : 0xC0000 ≤ v.toNat / 4096 ∧ v.toNat / 4096 - 0xC0000 < L.lim
    · rw [if_pos hmapped]
      simp only [Option.map_some, Option.isSome_some, true_iff]
      omega
    · rw [if_neg hmapped]
      simp only [Option.map_none, Option.isSome_none, Bool.false_eq_true, false_iff]
      omega
  · intro v p hv
    obtain ⟨e, he, hp⟩ := Option.map_eq_some_iff.mp hv
    obtain ⟨hlow, hlt, hentry⟩ := hin he
    have hvlt := v.isLt
    have hbase : (0xC0000000 : u32).toNat = 0xC0000000 := rfl
    rw [← hp, hentry, entry_some_frame (by omega)]
    apply BitVec.eq_of_toNat_eq
    rw [BitVec.toNat_ofNat, BitVec.toNat_sub, hbase]
    omega
  · intro v e hv
    obtain ⟨-, hlt, he⟩ := hin hv
    have hbound := Nat.lt_of_lt_of_le hlt hsmall
    rw [he]
    exact ⟨entry_flag hbound (show 0 < 3 by decide) rfl, entry_flag hbound (show 1 < 3 by decide) rfl,
      entry_flag hbound (show 2 < 3 by decide) rfl⟩
  · intro v hv
    rw [Machine.translate, Base.translate, hwalk, hpages, if_neg (by omega)]
    rfl

/-- With its page mapped already, `vmmngr_alloc_page` changes nothing but the allocator. -/
theorem Running.allocPage {s : Machine A} {L : Layout} (h : Running s L) {n : Nat} (hn0 : n ≠ 0)
    (hn : n < L.lim) (hframe : frame s.frames 0 = frameAddr n) :
    s.vmmngrAllocPage = some (s.allocMemoryBlock.1, P2V (frameAddr n)) := by
  have hlim := h.ok.lim_le
  have htables := h.ok.tables_le
  have hret : s.allocMemoryBlock.2 = frameAddr n := hframe
  have htaken : Running s.allocMemoryBlock.1 L :=
    ⟨⟨h.ok, h.cr3, h.encodes⟩, h.kernelDirectory, h.curDirectory⟩
  simp only [Machine.vmmngrAllocPage]
  rw [hret, if_neg (frameAddr_ne_zero (by omega) hn0), htaken.mapPage_of_table (by omega) hn0,
    htaken.mapInTable_old hn, Option.map_some]

-- The frames come one after another, and no call writes to memory.
theorem Running.allocPages {s : Machine A} {L : Layout} (h : Running s L) (n : Nat)
    (hframes : ∀ i < n, ∃ f, f ≠ 0 ∧ f < L.lim ∧ frame s.frames i = frameAddr f) :
    ∃ s', s.allocPages n =
        some (s', (List.range n).map fun i ↦ frame s.frames i + 0xC0000000) ∧
      s'.mem = s.mem ∧ s'.cr3 = s.cr3 := by
  induction n generalizing s with
  | zero => exact ⟨s, rfl, rfl, rfl⟩
  | succ n ih =>
    obtain ⟨f, hf0, hf, hframe⟩ := hframes 0 (Nat.succ_pos n)
    have htaken : Running s.allocMemoryBlock.1 L :=
      ⟨⟨h.ok, h.cr3, h.encodes⟩, h.kernelDirectory, h.curDirectory⟩
    have hshift (i : Nat) : frame s.allocMemoryBlock.1.frames i = frame s.frames (i + 1) :=
      frame_allocMemoryBlock s.frames i
    obtain ⟨s', hrest, hmem, hcr3⟩ := ih htaken fun i hi ↦ by
      rw [hshift]
      exact hframes (i + 1) (Nat.succ_lt_succ hi)
    refine ⟨s', ?_, hmem, hcr3⟩
    simp only [Machine.allocPages, Option.bind_eq_bind]
    rw [h.allocPage hf0 hf hframe, Option.bind_some, hrest, Option.bind_some, List.range_succ_eq_map,
      List.map_cons, List.map_map, hframe]
    simp only [hshift]
    rfl

/-- Over every allocator that returns mapped frames of their own: `vmmngr_initialize` ends with the
direct map of all of memory up to 1 GiB, and later calls of `vmmngr_alloc_page` return their frame's
place in it and change no translation. -/
theorem vmmngrInitialize_directMap (a : A) (mem : Words) (totalMemory : u32)
    (hgiven : FramesGiven a (initCalls totalMemory))
    (hmapped : FramesMapped a (initCalls totalMemory)) :
    ∃ s₀ s, setupPaging a mem = some s₀ ∧ s₀.vmmngrInitialize totalMemory = some s ∧
      s.frames = after a (initCalls totalMemory) ∧
      DirectMap s (max 0x400000 (min totalMemory.toNat 0x40000000)) ∧
      ∀ n, (∀ i < n, frame s.frames i ≠ 0 ∧ (frame s.frames i).toNat % 4096 = 0 ∧
          (frame s.frames i).toNat < max 0x400000 (min totalMemory.toNat 0x40000000)) →
        ∃ s', s.allocPages n =
            some (s', (List.range n).map fun i ↦ frame s.frames i + 0xC0000000) ∧
          (∀ v, walk s'.mem s'.cr3 v = walk s.mem s.cr3 v) ∧ ∀ v, s'.translate v = s.translate v := by
  obtain ⟨s₀, hsetup, hframes₀, hcr3, hboot⟩ := setupPaging_spec a mem
  rw [← hframes₀] at hgiven hmapped
  obtain ⟨s, hinit, hrunning, hframes⟩ := vmmngrInitialize_spec totalMemory hboot hcr3 hgiven hmapped
  refine ⟨s₀, s, hsetup, hinit, by rw [hframes, hframes₀],
    directMap_of_running hrunning rfl rfl, fun n hlater ↦ ?_⟩
  have hpage (i : Nat) (hi : i < n) : ∃ f, f ≠ 0 ∧ f < mappedPages totalMemory ∧
      frame s.frames i = frameAddr f := by
    obtain ⟨hne, haligned, hlt⟩ := hlater i hi
    have hbound := (frame s.frames i).isLt
    refine ⟨(frame s.frames i).toNat / 4096, fun hzero ↦ hne ?_, ?_, ?_⟩
    · apply BitVec.eq_of_toNat_eq
      change _ = 0
      omega
    · unfold mappedPages
      omega
    · apply BitVec.eq_of_toNat_eq
      rw [frameAddr_toNat (by omega)]
      omega
  obtain ⟨s', halloc, hmem, hcr3'⟩ := hrunning.allocPages n hpage
  refine ⟨s', halloc, fun v ↦ by rw [hmem, hcr3'], fun v ↦ ?_⟩
  rw [Machine.translate, Machine.translate, hmem, hcr3']

/-! ## Two allocators -/

omit [FrameAllocator A] in
theorem Machine.memset_fault {s : Machine A} {dest : u32} (h : s.translate dest = none) :
    s.memset dest 0 4096 = none := by
  have hfirst : dest + 4 * BitVec.ofNat 32 0 = dest := by simp
  have hstore (x : u32) : s.store (dest + 4 * BitVec.ofNat 32 0) x = none := by
    rw [hfirst, store, h, Option.map_none]
  exact congrArg (fun o ↦ Option.bind o _) (hstore _)

-- Frames in a row are distinct, and off the boot tables when the row is.
theorem framesGiven_of_consecutive {a : A} {n b : Nat} (h : ∀ i < n, frame a i = frameAddr (b + i))
    (hb : 0 < b) (hboot : b + n ≤ 0x9C ∨ 0x9F ≤ b) (hn : b + n ≤ 2 ^ 18) : FramesGiven a n := by
  have hnat (i : Nat) (hi : i < n) : (frame a i).toNat = 4096 * (b + i) := by
    rw [h i hi, frameAddr_toNat (by omega)]
  have hne (i : Nat) (hi : i < n) {x : u32} (hx : x.toNat ≠ 4096 * (b + i)) : frame a i ≠ x :=
    fun heq ↦ hx (heq ▸ hnat i hi)
  constructor
  · intro i hi
    rw [hnat i hi]
    omega
  · intro i hi
    exact hne i hi (show 0 ≠ 4096 * (b + i) by omega)
  · intro i hi
    rw [hnat i hi]
    omega
  · intro i hi j hj hij
    have heq := congrArg BitVec.toNat hij
    rw [hnat i hi, hnat j hj] at heq
    omega
  · intro i hi
    exact ⟨hne i hi (show 4096 * 0x9C ≠ 4096 * (b + i) by omega),
      hne i hi (show 4096 * 0x9D ≠ 4096 * (b + i) by omega),
      hne i hi (show 4096 * 0x9E ≠ 4096 * (b + i) by omega)⟩

/-- 5 MiB of memory, on an allocator that returns frames 1, 2, 3 and 4. -/
theorem vmmngrInitialize_directMap_freshMngr :
    ∃ s₀ s, setupPaging freshMngr (fun _ ↦ 0) = some s₀ ∧ s₀.vmmngrInitialize 0x500000 = some s ∧
      s.frames = after freshMngr (initCalls 0x500000) ∧
      DirectMap s (max 0x400000 (min (0x500000 : u32).toNat 0x40000000)) ∧
      ∀ n, (∀ i < n, frame s.frames i ≠ 0 ∧ (frame s.frames i).toNat % 4096 = 0 ∧
          (frame s.frames i).toNat < max 0x400000 (min (0x500000 : u32).toNat 0x40000000)) →
        ∃ s', s.allocPages n =
            some (s', (List.range n).map fun i ↦ frame s.frames i + 0xC0000000) ∧
          (∀ v, walk s'.mem s'.cr3 v = walk s.mem s.cr3 v) ∧ ∀ v, s'.translate v = s.translate v := by
  have hcalls : initCalls 0x500000 = 4 := by decide +kernel
  have hframes : ∀ i < 4, frame freshMngr i = frameAddr (1 + i) := by decide +kernel
  refine vmmngrInitialize_directMap freshMngr (fun _ ↦ 0) 0x500000 ?_ ?_
  · rw [hcalls]
    exact framesGiven_of_consecutive hframes (by decide) (by decide) (by decide)
  · rw [hcalls]
    intro i hi
    rw [hframes i hi, frameAddr_toNat (by omega)]
    omega

/-- All frames of the first 4 MiB are in use. -/
def highMngr : MemMngr where
  memMngr := fun i ↦ if i < 32 then 0xFFFFFFFF#32 else 0#32
  maxBlocks := 2048#32
  usedBlocks := 1024#32
  size := 8192#32

/-- The frame for the new directory is not mapped, and the first store to it faults. -/
theorem not_directMap_highMngr : FramesGiven highMngr (initCalls 0x400000) ∧
    ¬ ∃ s₀ s, setupPaging highMngr (fun _ ↦ 0) = some s₀ ∧ s₀.vmmngrInitialize 0x400000 = some s ∧
      DirectMap s (max 0x400000 (min (0x400000 : u32).toNat 0x40000000)) := by
  have hcalls : initCalls 0x400000 = 3 := by decide +kernel
  have hframes : ∀ i < 3, frame highMngr i = frameAddr (1024 + i) := by decide +kernel
  constructor
  · rw [hcalls]
    exact framesGiven_of_consecutive hframes (by decide) (by decide) (by decide)
  · intro h
    obtain ⟨s₀, s, hsetup, hinit, -⟩ := h
    obtain ⟨s₁, hsetup₁, hmngr, -, hboot⟩ := setupPaging_spec highMngr fun _ ↦ 0
    cases hsetup.symm.trans hsetup₁
    have hret : s₀.allocMemoryBlock.2 = frameAddr 1024 := by
      have hfirst := hframes 0 (by decide)
      rw [← hmngr] at hfirst
      exact hfirst
    -- directory entry 769 is absent
    have hfault : s₀.allocMemoryBlock.1.translate (P2V (frameAddr 1024)) = none := by
      have hwalk := hboot.encodes.walk_eq (v := P2V (frameAddr 1024)) hboot.ok.small hboot.cr3
      have hpage : bootLayout.space.page ((P2V (frameAddr 1024)).toNat / 4096) = none := by
        rw [P2V_frameAddr (by decide)]
        rfl
      rw [hpage] at hwalk
      change (walk s₀.mem s₀.cr3 _).map _ = none
      rw [hwalk]
      rfl
    simp only [Machine.vmmngrInitialize, Option.bind_eq_bind] at hinit
    rw [hret, if_neg (frameAddr_ne_zero (by decide) (by decide)), Machine.memset_fault hfault] at hinit
    cases hinit

end TenOs.Mm
