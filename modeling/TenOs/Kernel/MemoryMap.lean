import TenOs.Mm.Frames

/-!
# `kernel/kernel.c`: the memory map

`main` hands the regions of the boot loader's memory map to the frame allocator.  Which frames are
on offer afterwards follows from the map alone: those that the fill of the bit array leaves clear,
and those of the regions that the loop gets to.
-/

namespace TenOs.Kernel

open TenOs.Base TenOs.Lib TenOs.Mm

structure MemoryRegion where
  startLo : u32
  startHi : u32
  sizeLo : u32
  sizeHi : u32
  type : u32

/-- The fields of `multiboot_info` that the memory set-up reads; `mmap` is the array of
`m_mmap_length / 24` regions at `m_mmap_addr`. -/
structure MultibootInfo where
  memoryLo : u32
  memoryHi : u32
  mmap : List MemoryRegion

def MultibootInfo.memSize (bootinfo : MultibootInfo) : u32 :=
  (1024 + bootinfo.memoryLo + bootinfo.memoryHi * 64) * 1024

/-- The loop of `main` over the map, from region `i` on. -/
def regionLoop (i : Nat) : List MemoryRegion → MemMngr → MemMngr
  | [], m => m
  | region :: rest, m =>
      let type := if region.type > 4 then 1 else region.type
      if i > 0 ∧ region.startLo = 0 then m
      else if type = 1 then
        regionLoop (i + 1) rest (m.initMemoryRegion region.startLo region.sizeLo)
      else regionLoop (i + 1) rest m

/-- What `main` does to the frame allocator before paging; `memory` is what lies from the end of the
kernel on. -/
def initMemory (memory : Bytes) (bootinfo : MultibootInfo) : MemMngr :=
  regionLoop 0 bootinfo.mmap (MemMngr.initMemMngr memory bootinfo.memSize)

namespace MultibootInfo

/-- `mem_mngr_max_blocks`. -/
def frameCount (bootinfo : MultibootInfo) : Nat := (bootinfo.memSize * 1024 / MEMORY_BLOCK_SIZE).toNat

/-- The regions that reach `init_memory_region`. -/
def handled (bootinfo : MultibootInfo) : List MemoryRegion :=
  (match bootinfo.mmap with
    | [] => []
    | first :: rest => first :: rest.takeWhile (fun r ↦ r.startLo ≠ 0)).filter
      fun r ↦ r.type = 1 ∨ r.type > 4

end MultibootInfo

/-- The frames that `init_memory_region` clears for a region. -/
def MemoryRegion.Clears (r : MemoryRegion) (n : Nat) : Prop :=
  r.startLo.toNat / 4096 ≤ n ∧ n ≤ r.startLo.toNat / 4096 + r.sizeLo.toNat / 4096

/-- The frames on offer after the set-up. -/
def MultibootInfo.Offered (bootinfo : MultibootInfo) (n : Nat) : Prop :=
  n ≠ 0 ∧ (4 ≤ n % 8 ∨ ∃ r ∈ bootinfo.handled, r.Clears n)

/-! ## The bit array after the loop -/

theorem type_eq_one_iff (t : u32) : (if t > 4 then 1 else t) = 1 ↔ t = 1 ∨ t > 4 := by
  by_cases hbig : t > 4
  · simp only [hbig, if_true, or_true]
  · simp only [hbig, if_false, or_false]

-- Past the first region a zero `startLo` ends the loop.
theorem regionLoop_succ (i : Nat) (l : List MemoryRegion) (m : MemMngr) :
    regionLoop (i + 1) l m =
      ((l.takeWhile fun r ↦ r.startLo ≠ 0).filter fun r ↦ r.type = 1 ∨ r.type > 4).foldl
        (fun m r ↦ m.initMemoryRegion r.startLo r.sizeLo) m := by
  induction l generalizing i m with
  | nil => rfl
  | cons region rest ih =>
    simp only [regionLoop, type_eq_one_iff]
    by_cases hend : region.startLo = 0
    · rw [if_pos ⟨Nat.succ_pos i, hend⟩, List.takeWhile_cons_of_neg (by simpa using hend)]
      rfl
    · rw [if_neg fun h ↦ hend h.2, List.takeWhile_cons_of_pos (by simpa using hend)]
      by_cases huse : region.type = 1 ∨ region.type > 4
      · rw [if_pos huse, List.filter_cons_of_pos (by simpa using huse), List.foldl_cons, ih]
      · rw [if_neg huse, List.filter_cons_of_neg (by simpa using huse), ih]

-- The loop over the map as a fold over the regions it handles.
theorem initMemory_eq (memory : Bytes) (bootinfo : MultibootInfo) :
    initMemory memory bootinfo = bootinfo.handled.foldl
      (fun m r ↦ m.initMemoryRegion r.startLo r.sizeLo)
        (MemMngr.initMemMngr memory bootinfo.memSize) := by
  unfold initMemory MultibootInfo.handled
  cases bootinfo.mmap with
  | nil => rfl
  | cons region rest =>
    simp only [regionLoop, type_eq_one_iff]
    rw [if_neg fun h ↦ Nat.lt_irrefl 0 h.1]
    by_cases huse : region.type = 1 ∨ region.type > 4
    · rw [if_pos huse, List.filter_cons_of_pos (by simpa using huse), List.foldl_cons,
        regionLoop_succ]
    · rw [if_neg huse, List.filter_cons_of_neg (by simpa using huse), regionLoop_succ]

theorem initMemory_maxBlocks (memory : Bytes) (bootinfo : MultibootInfo) :
    (initMemory memory bootinfo).maxBlocks.toNat = bootinfo.frameCount := by
  have hloop (l : List MemoryRegion) (m : MemMngr) :
      (l.foldl (fun m r ↦ m.initMemoryRegion r.startLo r.sizeLo) m).maxBlocks = m.maxBlocks := by
    induction l generalizing m with
    | nil => rfl
    | cons region rest ih => exact (ih _).trans (m.initMemoryRegion_used _ _ 0).1
  rw [initMemory_eq, hloop]
  rfl

-- Each frame that `init_memory_region` clears counts one off.
theorem initMemoryRegion_free (m : MemMngr) (base size : u32) :
    (m.initMemoryRegion base size).getFreeBlockCount =
      m.getFreeBlockCount + BitVec.ofNat 32 (size.toNat / 4096 + 1) := by
  have hloop (align k start : Nat) (m : MemMngr) : MemMngr.getFreeBlockCount (forLoop (fun i m ↦
      { m.mmapUnset (align + i) with usedBlocks := m.usedBlocks - 1 }) k start m) =
        m.getFreeBlockCount + BitVec.ofNat 32 k := by
    induction k generalizing start m with
    | zero => exact (BitVec.add_zero _).symm
    | succ k ih =>
      have hturn : MemMngr.getFreeBlockCount
          { m.mmapUnset (align + start) with usedBlocks := m.usedBlocks - 1 } =
            m.getFreeBlockCount + 1 := by
        change m.maxBlocks - (m.usedBlocks - 1) = m.maxBlocks - m.usedBlocks + 1
        bv_omega
      rw [forLoop, ih, hturn, BitVec.add_assoc, BitVec.ofNat_add, BitVec.add_comm 1]
      rfl
  have hblocks : (size / MEMORY_BLOCK_SIZE).toNat = size.toNat / 4096 := BitVec.toNat_udiv
  rw [← hblocks]
  exact hloop _ _ 0 m

theorem initMemory_free (memory : Bytes) (bootinfo : MultibootInfo) :
    (initMemory memory bootinfo).getFreeBlockCount =
      BitVec.ofNat 32 (bootinfo.handled.map fun r ↦ r.sizeLo.toNat / 4096 + 1).sum := by
  have hloop (l : List MemoryRegion) (m : MemMngr) :
      (l.foldl (fun m r ↦ m.initMemoryRegion r.startLo r.sizeLo) m).getFreeBlockCount =
        m.getFreeBlockCount + BitVec.ofNat 32 (l.map fun r ↦ r.sizeLo.toNat / 4096 + 1).sum := by
    induction l generalizing m with
    | nil => exact (BitVec.add_zero _).symm
    | cons region rest ih =>
      rw [List.foldl_cons, ih, initMemoryRegion_free, List.map_cons, List.sum_cons, BitVec.add_assoc,
        ← BitVec.ofNat_add]
  have hstart : (MemMngr.initMemMngr memory bootinfo.memSize).getFreeBlockCount = 0 := BitVec.sub_self _
  rw [initMemory_eq, hloop, hstart]
  exact BitVec.zero_add _

-- Frame 0 is in use from the fill on, and every call of `init_memory_region` sets it again.
theorem foldl_initMemoryRegion_used (l : List MemoryRegion) (m : MemMngr) (h0 : m.used 0 = true)
    (n : Nat) : (l.foldl (fun m r ↦ m.initMemoryRegion r.startLo r.sizeLo) m).used n = true ↔
      n = 0 ∨ m.used n = true ∧ ∀ r ∈ l, ¬ r.Clears n := by
  induction l generalizing m with
  | nil =>
    simp only [List.foldl_nil, List.not_mem_nil, false_implies, implies_true, and_true]
    exact (or_iff_right_of_imp fun hn ↦ hn ▸ h0).symm
  | cons region rest ih =>
    have hfirst := m.initMemoryRegion_used region.startLo region.sizeLo
    rw [List.foldl_cons, ih _ ((hfirst 0).2.mpr (Or.inl rfl)), (hfirst n).2, List.forall_mem_cons]
    unfold MemoryRegion.Clears
    tauto

theorem frameCount_mod (bootinfo : MultibootInfo) : bootinfo.frameCount % 256 = 0 := by
  unfold MultibootInfo.frameCount MultibootInfo.memSize
  generalize 1024 + bootinfo.memoryLo + bootinfo.memoryHi * 64 = kilobytes
  rw [BitVec.toNat_udiv, BitVec.toNat_mul, BitVec.toNat_mul]
  change kilobytes.toNat * 1024 % 2 ^ 32 * 1024 % 2 ^ 32 / 4096 % 256 = 0
  omega

theorem frameCount_le (bootinfo : MultibootInfo) : bootinfo.frameCount ≤ 2 ^ 20 := by
  unfold MultibootInfo.frameCount
  rw [BitVec.toNat_udiv]
  have hsize := (bootinfo.memSize * 1024).isLt
  change _ / 4096 ≤ _
  omega

theorem initMemMngr_used_zero (memory : Bytes) (bootinfo : MultibootInfo)
    (h : bootinfo.frameCount ≠ 0) :
    (MemMngr.initMemMngr memory bootinfo.memSize).used 0 = true := by
  have hmod := frameCount_mod bootinfo
  rw [MemMngr.initMemMngr_used memory _ (show 0 < 8 * (bootinfo.frameCount / 8) by omega)]
  rfl

/-- The frames below `max_blocks` whose bit is clear after the loop are the frames on offer. -/
theorem initMemory_used_iff (memory : Bytes) (bootinfo : MultibootInfo) {n : Nat}
    (hn : n < bootinfo.frameCount) :
    (initMemory memory bootinfo).used n = true ↔ ¬ bootinfo.Offered n := by
  have hmod := frameCount_mod bootinfo
  have hzero := initMemMngr_used_zero memory bootinfo (by omega)
  have hfill := MemMngr.initMemMngr_used memory bootinfo.memSize
    (show n < 8 * (bootinfo.frameCount / 8) by omega)
  rw [initMemory_eq, foldl_initMemoryRegion_used _ _ hzero, hfill, decide_eq_true_iff]
  unfold MultibootInfo.Offered
  by_cases hn0 : n = 0
  · simp [hn0]
  · simp [hn0]

theorem initMemory_clear_iff (memory : Bytes) (bootinfo : MultibootInfo) {n : Nat}
    (hn : n < bootinfo.frameCount) :
    (initMemory memory bootinfo).used n = false ↔ bootinfo.Offered n := by
  rw [← Bool.not_eq_true, initMemory_used_iff memory bootinfo hn, not_not]

/-! ## What the firmware said -/

/-- The region's 64-bit base and length, of which `main` passes on the low halves. -/
def MemoryRegion.base (r : MemoryRegion) : Nat := (r.startHi ++ r.startLo).toNat

def MemoryRegion.length (r : MemoryRegion) : Nat := (r.sizeHi ++ r.sizeLo).toNat

/-- Frame `n` lies entirely inside a region that was reported as usable. -/
def MultibootInfo.Usable (bootinfo : MultibootInfo) (n : Nat) : Prop :=
  ∃ r ∈ bootinfo.mmap, r.type = 1 ∧ r.base ≤ n * 4096 ∧ (n + 1) * 4096 ≤ r.base + r.length

/-- Every frame on offer after the set-up is usable memory and is not frame 0, and so is every frame
that some run of `alloc_memory_block` returns. -/
structure OffersOnlyUsable (memory : Bytes) (bootinfo : MultibootInfo) : Prop where
  free : ∀ n < (initMemory memory bootinfo).maxBlocks.toNat,
    (initMemory memory bootinfo).used n = false → n ≠ 0 ∧ bootinfo.Usable n
  returned : ∀ m, Run (fun m (_ : Unit) ↦ m.allocMemoryBlock.1) (fun _ _ ↦ True)
    (initMemory memory bootinfo) m → m.allocMemoryBlock.2 ≠ 0 →
      bootinfo.Usable (m.allocMemoryBlock.2.toNat / 4096)

/-- The firmware's map covers what the fill leaves clear and what `init_memory_region` clears. -/
structure MapCoversOffer (bootinfo : MultibootInfo) : Prop where
  filled : ∀ n < bootinfo.frameCount, 4 ≤ n % 8 → bootinfo.Usable n
  cleared : ∀ r ∈ bootinfo.handled, ∀ n < bootinfo.frameCount, n ≠ 0 → r.Clears n →
    bootinfo.Usable n

/-- A run of `alloc_memory_block` only ever takes frames that were free at its start. -/
theorem allocMemoryBlock_of_run {m₀ m : MemMngr}
    (hrun : Run (fun m (_ : Unit) ↦ m.allocMemoryBlock.1) (fun _ _ ↦ True) m₀ m)
    (hmax : m₀.maxBlocks.toNat ≤ 2 ^ 20) (hret : m.allocMemoryBlock.2 ≠ 0) :
    m.allocMemoryBlock.2.toNat / 4096 < m₀.maxBlocks.toNat ∧
      m₀.used (m.allocMemoryBlock.2.toNat / 4096) = false := by
  have hinv : m.maxBlocks = m₀.maxBlocks ∧ ∀ n, m₀.used n = true → m.used n = true := by
    refine hrun.inv (fun m ↦ m.maxBlocks = m₀.maxBlocks ∧ ∀ n, m₀.used n = true → m.used n = true)
      ⟨rfl, fun _ hn ↦ hn⟩ fun m _ hm _ ↦ ?_
    rcases m.allocMemoryBlock_cases with hfail | ⟨b, -, -, -, hmaxb, hused⟩
    · rw [hfail]
      exact hm
    · exact ⟨hmaxb.trans hm.1, fun n hn ↦ (hused n).mpr (Or.inl (hm.2 n hn))⟩
  rcases m.allocMemoryBlock_cases with hfail | ⟨b, -, hfind, hval, -, -⟩
  · rw [hfail] at hret
    exact absurd rfl hret
  · have hfound := (m.mmapFirstFree_eq_some_iff b).mp hfind
    rw [hinv.1] at hfound
    have hframe : m.allocMemoryBlock.2.toNat / 4096 = b := by
      rw [hval, toNat_frame_mul (by omega), Nat.mul_div_cancel b (by decide)]
    rw [hframe]
    refine ⟨by omega, ?_⟩
    by_contra hset
    have hstill := hinv.2 b (Bool.not_eq_false _ ▸ hset)
    rw [hfound.2.1] at hstill
    cases hstill

/-- The allocator offers only usable memory exactly when the map covers all that it offers. -/
theorem offersOnlyUsable_iff (memory : Bytes) (bootinfo : MultibootInfo) :
    OffersOnlyUsable memory bootinfo ↔ MapCoversOffer bootinfo := by
  have hmax := initMemory_maxBlocks memory bootinfo
  constructor
  · intro h
    have hall {n : Nat} (hn : n < bootinfo.frameCount) (hoffer : bootinfo.Offered n) :
        bootinfo.Usable n :=
      (h.free n (hmax ▸ hn) ((initMemory_clear_iff memory bootinfo hn).mpr hoffer)).2
    constructor
    · intro n hn hhigh
      exact hall hn ⟨by omega, Or.inl hhigh⟩
    · intro r hr n hn hn0 hclears
      exact hall hn ⟨hn0, Or.inr ⟨r, hr, hclears⟩⟩
  · intro h
    have hfree (n : Nat) (hn : n < (initMemory memory bootinfo).maxBlocks.toNat)
        (hclear : (initMemory memory bootinfo).used n = false) : n ≠ 0 ∧ bootinfo.Usable n := by
      rw [hmax] at hn
      obtain ⟨hn0, hhigh | ⟨r, hr, hclears⟩⟩ := (initMemory_clear_iff memory bootinfo hn).mp hclear
      · exact ⟨hn0, h.filled n hn hhigh⟩
      · exact ⟨hn0, h.cleared r hr n hn hn0 hclears⟩
    refine ⟨hfree, fun m hrun hret ↦ ?_⟩
    have hbound : (initMemory memory bootinfo).maxBlocks.toNat ≤ 2 ^ 20 := by
      rw [hmax]
      exact frameCount_le bootinfo
    have hstart := allocMemoryBlock_of_run hrun hbound hret
    exact (hfree _ hstart.1 hstart.2).2

/-- A machine with 128 MiB, as an emulator's firmware reports it. -/
def smallPc : MultibootInfo where
  memoryLo := 15360
  memoryHi := 1790
  mmap := [⟨0, 0, 0x9FC00, 0, 1⟩, ⟨0x9FC00, 0, 0x400, 0, 2⟩, ⟨0xF0000, 0, 0x10000, 0, 2⟩,
    ⟨0x100000, 0, 0x7EE0000, 0, 1⟩, ⟨0x7FE0000, 0, 0x20000, 0, 2⟩,
    ⟨0xFFFC0000, 0, 0x40000, 0, 2⟩]

/-- Frame `0xA4`, in the video memory, is listed by no region and is on offer. -/
theorem not_offersOnlyUsable_smallPc : ¬ OffersOnlyUsable (fun _ ↦ 0) smallPc := by
  intro h
  have hlt : 0xA4 < smallPc.frameCount := by decide +kernel
  have hclear : (initMemory (fun _ ↦ 0) smallPc).used 0xA4 = false :=
    (initMemory_clear_iff _ _ hlt).mpr ⟨by decide, Or.inl (by decide)⟩
  rw [← initMemory_maxBlocks (fun _ ↦ 0)] at hlt
  obtain ⟨-, r, hr, htype, hbase, hend⟩ := h.free 0xA4 hlt hclear
  simp only [smallPc, List.mem_cons, List.not_mem_nil, or_false] at hr
  rcases hr with rfl | rfl | rfl | rfl | rfl | rfl
  all_goals revert htype hbase hend; decide

/-! ## The frame count -/

/-- Stage 2 stores two 16-bit words, in fields whose upper halves are 0. -/
def MultibootInfo.ofWords (memoryLo memoryHi : u16) (mmap : List MemoryRegion) : MultibootInfo where
  memoryLo := memoryLo.setWidth 32
  memoryHi := memoryHi.setWidth 32
  mmap := mmap

/-- The memory in KiB that the two words stand for. -/
def totalKiB (memoryLo memoryHi : u16) : Nat := 1024 + memoryLo.toNat + 64 * memoryHi.toNat

/-- `max_blocks` is the number of frames of `total` KiB, by products that do not wrap, and the frames
below it are those of the memory. -/
structure CountsMemory (memory : Bytes) (bootinfo : MultibootInfo) (total : Nat) : Prop where
  kilobytes : (1024 + bootinfo.memoryLo + bootinfo.memoryHi * 64).toNat = total
  bytes : bootinfo.memSize.toNat = total * 1024
  product : (bootinfo.memSize * 1024).toNat = bootinfo.memSize.toNat * 1024
  count : (MemMngr.initMemMngr memory bootinfo.memSize).maxBlocks.toNat = total * 1024 / 4096
  below : ∀ n < (MemMngr.initMemMngr memory bootinfo.memSize).maxBlocks.toNat,
    n * 4096 < total * 1024
  covers : ∀ n, (n + 1) * 4096 ≤ total * 1024 →
    n < (MemMngr.initMemMngr memory bootinfo.memSize).maxBlocks.toNat

theorem ofWords_kilobytes (memoryLo memoryHi : u16) (mmap : List MemoryRegion) :
    (1024 + (MultibootInfo.ofWords memoryLo memoryHi mmap).memoryLo +
      (MultibootInfo.ofWords memoryLo memoryHi mmap).memoryHi * 64).toNat =
        totalKiB memoryLo memoryHi := by
  have hlo := memoryLo.isLt
  have hhi := memoryHi.isLt
  have h1024 : (1024 : u32).toNat = 1024 := rfl
  have h64 : (64 : u32).toNat = 64 := rfl
  rw [BitVec.toNat_add, BitVec.toNat_add, BitVec.toNat_mul, h1024, h64]
  simp only [MultibootInfo.ofWords, BitVec.toNat_setWidth, totalKiB]
  omega

-- `main` has the size in bytes already, and `init_mem_mngr` takes it for KiB.
theorem ofWords_frameCount (memoryLo memoryHi : u16) (mmap : List MemoryRegion) :
    (MultibootInfo.ofWords memoryLo memoryHi mmap).frameCount =
      totalKiB memoryLo memoryHi % 4096 * 256 := by
  have hkilobytes := ofWords_kilobytes memoryLo memoryHi mmap
  have h1024 : (1024 : u32).toNat = 1024 := rfl
  have hblock : MEMORY_BLOCK_SIZE.toNat = 4096 := rfl
  rw [MultibootInfo.frameCount, MultibootInfo.memSize, BitVec.toNat_udiv, BitVec.toNat_mul,
    BitVec.toNat_mul, hkilobytes, h1024, hblock]
  omega

-- With `k = 4096 q + 4 s + t` the count is right when `q = s = 256 t`.
theorem frameCount_eq_iff {k : Nat} (hk : 0 < k) :
    k % 4096 * 256 = k * 1024 / 4096 ↔ k = 1049601 ∨ k = 2099202 ∨ k = 3148803 := by
  constructor
  · intro h
    obtain ⟨q, s, t, hs, ht, rfl⟩ : ∃ q s t, s < 1024 ∧ t < 4 ∧ k = 4096 * q + 4 * s + t :=
      ⟨k / 4096, k % 4096 / 4, k % 4, by omega, by omega, by omega⟩
    have hlow : (4096 * q + 4 * s + t) % 4096 = 4 * s + t := by omega
    have hframes : (4096 * q + 4 * s + t) * 1024 / 4096 = 1024 * q + s := by omega
    rw [hlow, hframes] at h
    have hparts : q = s ∧ s = 256 * t := by omega
    omega
  · rintro (rfl | rfl | rfl) <;> rfl

/-- The frame count is never right with products that do not wrap, and the wrapped product gives the
right number for three sizes of memory only. -/
theorem not_countsMemory (memory : Bytes) (memoryLo memoryHi : u16) (mmap : List MemoryRegion) :
    ¬ CountsMemory memory (.ofWords memoryLo memoryHi mmap) (totalKiB memoryLo memoryHi) ∧
      ((MemMngr.initMemMngr memory (MultibootInfo.ofWords memoryLo memoryHi mmap).memSize).maxBlocks.toNat
          = totalKiB memoryLo memoryHi * 1024 / 4096 ↔
        totalKiB memoryLo memoryHi = 1049601 ∨ totalKiB memoryLo memoryHi = 2099202 ∨
          totalKiB memoryLo memoryHi = 3148803) := by
  have hcount : (MemMngr.initMemMngr memory
      (MultibootInfo.ofWords memoryLo memoryHi mmap).memSize).maxBlocks.toNat =
        totalKiB memoryLo memoryHi % 4096 * 256 := ofWords_frameCount memoryLo memoryHi mmap
  have hlo := memoryLo.isLt
  have hhi := memoryHi.isLt
  have hleast : 1024 ≤ totalKiB memoryLo memoryHi := by
    unfold totalKiB
    omega
  have hmost : totalKiB memoryLo memoryHi < 1024 + 2 ^ 16 + 64 * 2 ^ 16 := by
    unfold totalKiB
    omega
  constructor
  · intro h
    -- a product that does not wrap is one of less than 4 MiB
    have hproduct := h.product
    have hlt := ((MultibootInfo.ofWords memoryLo memoryHi mmap).memSize * 1024).isLt
    have hexact := h.count
    rw [h.bytes] at hproduct
    have hsmall : totalKiB memoryLo memoryHi < 4096 := by omega
    rw [hcount, Nat.mod_eq_of_lt hsmall] at hexact
    omega
  · rw [hcount]
    exact frameCount_eq_iff (by omega)

/-- With 128 MiB `init_mem_mngr` makes the map one for no frames at all. -/
theorem not_countsMemory_smallPc : ¬ ∀ memory memoryLo memoryHi mmap,
    totalKiB memoryLo memoryHi < 4 * 1024 * 1024 →
      CountsMemory memory (.ofWords memoryLo memoryHi mmap) (totalKiB memoryLo memoryHi) := by
  intro h
  have hright := h (fun _ ↦ 0) 15360 1792 [] (by decide)
  have hcount := hright.count
  revert hcount
  decide

end TenOs.Kernel
