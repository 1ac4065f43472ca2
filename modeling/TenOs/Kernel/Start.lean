import TenOs.Fs.Volume
import TenOs.Kernel.MemoryMap
import TenOs.Mm.AddressSpace
import TenOs.Mm.Frames
import TenOs.Mm.TableFrames

/-!
# `kernel/kernel.c`: `main` up to user mode

After paging is set up, `main` mounts the volume and takes a page for the user's stack.  Mounting takes a
page for the FAT and reads the FAT into it, and into what lies behind it, through the tables in force.
-/

namespace TenOs.Kernel

open TenOs.Base TenOs.Lib TenOs.Drivers TenOs.Mm TenOs.Fs FrameAllocator

/-! ## Mounting -/

section Mount

variable {A : Type}

/-- `read_sector` to a linear address, four bytes at a time: the buffers of `fat12_init` are aligned. -/
def readSectorTo (sector : Bytes) (dest : u32) (s : Machine A) : Option (Machine A) :=
  forAbort (fun j s ↦ s.store (dest + 4 * BitVec.ofNat 32 j) (read32 sector (4 * j))) 128 0 s

/-- "Load entire FAT", to `fatBuffer` on. -/
def loadFatTo (disk : Disk) (mountInfo : FAT12MountInfo) (fatBuffer : u32) (s : Machine A) :
    Option (Machine A) :=
  forAbort (fun i s ↦ readSectorTo (disk.sector (lba28 (fatLba mountInfo i)))
    (fatBuffer + BitVec.ofNat 32 (i * 512)) s) mountInfo.sectorsPerFat.toNat 0 s

variable [FrameAllocator A]

/-- `fat12_init`, with what it does to memory; the drive and the sector buffer are those of `fs`.  A
division by zero traps, and the handler of that exception halts the machine. -/
def fat12Init (fs : FsState Disk) (s : Machine A) : Option (Machine A) :=
  let bpb := BPB.ofDisk fs
  if memcmp bpb.filesystemType fat12Signature 8 ≠ 0 then some s
  else if bpb.bytesPerSector = 0 then none
  else do
    let r ← s.vmmngrAllocPage
    if r.2 = 0 then some r.1 else loadFatTo fs.disk bpb.mountInfo r.2 r.1

end Mount

/-- What `main` does with memory before it goes to user mode. -/
def mainInit (memory : Bytes) (bootinfo : MultibootInfo) (fs : FsState Disk) (mem : Words) :
    Option (Machine MemMngr) := do
  let s ← setupPaging (initMemory memory bootinfo) mem
  let s ← s.vmmngrInitialize bootinfo.memSize
  let s ← fat12Init fs s
  let r ← s.vmmngrAllocPage
  some r.1

/-! ## What `alloc_memory_block` keeps, `main` keeps -/

section Keeps

variable {A : Type} {s s' : Machine A}

theorem loadFatTo_frames {disk : Disk} {mountInfo : FAT12MountInfo} {fatBuffer : u32}
    (h : loadFatTo disk mountInfo fatBuffer s = some s') : s'.frames = s.frames := by
  refine forAbort_keeps (fun t ↦ t.frames = s.frames) (fun i t t' ht hread ↦ ?_) _ _ rfl h
  exact forAbort_keeps (fun u ↦ u.frames = s.frames)
    (fun _ _ _ hu hstore ↦ (Machine.store_frames hstore).trans hu) _ _ ht hread

variable [FrameAllocator A] (P : A → Prop) (hP : ∀ a, P a → P (allocMemoryBlock a).1)
include hP

theorem vmmngrAllocPage_keeps {v : u32} (h : s.vmmngrAllocPage = some (s', v)) (hs : P s.frames) :
    P s'.frames := by
  have htaken : P s.allocMemoryBlock.1.frames := hP _ hs
  simp only [Machine.vmmngrAllocPage] at h
  by_cases hnone : s.allocMemoryBlock.2 = 0
  · rw [if_pos hnone] at h
    cases h
    exact htaken
  · rw [if_neg hnone] at h
    obtain ⟨t, hmap, ht⟩ := Option.map_eq_some_iff.mp h
    cases ht
    exact Machine.vmmngrMapPage_keeps P hP hmap htaken

theorem fat12Init_keeps {fs : FsState Disk} (h : fat12Init fs s = some s') (hs : P s.frames) :
    P s'.frames := by
  simp only [fat12Init] at h
  by_cases hother : memcmp (BPB.ofDisk fs).filesystemType fat12Signature 8 ≠ 0
  · rw [if_pos hother] at h
    cases h
    exact hs
  · rw [if_neg hother] at h
    by_cases hzero : (BPB.ofDisk fs).bytesPerSector = 0
    · rw [if_pos hzero] at h
      cases h
    · rw [if_neg hzero] at h
      obtain ⟨r, hpage, hload⟩ := Option.bind_eq_some_iff.mp h
      have hr := vmmngrAllocPage_keeps P hP hpage hs
      by_cases hnone : r.2 = 0
      · rw [if_pos hnone] at hload
        cases hload
        exact hr
      · rw [if_neg hnone] at hload
        rw [loadFatTo_frames hload]
        exact hr

end Keeps

theorem mainInit_keeps (P : MemMngr → Prop) (hP : ∀ m, P m → P m.allocMemoryBlock.1) {memory : Bytes}
    {bootinfo : MultibootInfo} {fs : FsState Disk} {mem : Words} {s₀ : Machine MemMngr}
    (hinit : mainInit memory bootinfo fs mem = some s₀) (h : P (initMemory memory bootinfo)) :
    P s₀.frames := by
  simp only [mainInit, Option.bind_eq_bind, Option.bind_eq_some_iff] at hinit
  obtain ⟨s, hsetup, s₁, hpaging, s₂, hmount, r, hpage, hr⟩ := hinit
  cases hr
  obtain ⟨s', hsetup', hframes, -⟩ := setupPaging_spec (initMemory memory bootinfo) mem
  rw [hsetup', Option.some.injEq] at hsetup
  rw [← hframes, hsetup] at h
  exact vmmngrAllocPage_keeps P hP hpage
    (fat12Init_keeps P hP hmount (Machine.vmmngrInitialize_keeps P hP hpaging h))

/-! ## The FAT in memory -/

section Loading

variable {A : Type} {s t : Machine A} {L : Layout} {src : Bytes} {base k : Nat}

/-- From `s` the first `k` words of `src` have been stored in memory from word `base` on. -/
structure Stored (s : Machine A) (L : Layout) (src : Bytes) (base k : Nat) (t : Machine A) : Prop where
  running : Running t L
  frames : t.frames = s.frames
  mem : ∀ a, t.mem a = if base ≤ a ∧ a < base + k then read32 src (4 * (a - base)) else s.mem a

theorem Stored.start (h : Running s L) (src : Bytes) (base : Nat) : Stored s L src base 0 s :=
  ⟨h, rfl, fun _ ↦ (if_neg (by omega)).symm⟩

-- A store to a page of the window changes no translation if the frame holds no table.
theorem Stored.word (h : Stored s L src base k t) (hlt : (base + k) / 1024 < L.lim)
    (hfree : ¬ L.space.Holds ((base + k) / 1024)) {v : u32}
    (hv : v.toNat = 0xC0000000 + 4 * (base + k)) :
    ∃ t', t.store v (read32 src (4 * k)) = some t' ∧ Stored s L src base (k + 1) t' := by
  have hpoints : PointsTo v (0xC0000 + (base + k) / 1024) ((base + k) % 1024) :=
    ⟨by omega, Nat.mod_lt _ (by decide)⟩
  have hplace : 1024 * ((base + k) / 1024) + (base + k) % 1024 = base + k := by omega
  have hstore := Machine.store_window (h.running.window hlt) hpoints (read32 src (4 * k))
  rw [hplace] at hstore
  refine ⟨_, hstore, ⟨⟨h.running.ok, h.running.cr3, h.running.encodes.congr fun f hf i hi ↦ ?_⟩,
    h.running.kernelDirectory, h.running.curDirectory⟩, h.frames, fun a ↦ ?_⟩
  · refine Function.update_of_ne (fun heq ↦ hfree ?_) _ _
    rwa [show (base + k) / 1024 = f by omega]
  · change Function.update t.mem (base + k) (read32 src (4 * k)) a = _
    rw [Function.update_apply, h.mem]
    by_cases hlast : a = base + k
    · have hin : base ≤ a ∧ a < base + (k + 1) := by omega
      rw [if_pos hlast, if_pos hin, show a - base = k by omega]
    · rw [if_neg hlast]
      refine ite_congr (propext (by omega)) (fun _ ↦ rfl) fun _ ↦ rfl

-- A sector of the source goes to one frame.
theorem Stored.sector {i : Nat} (h : Stored s L src base (128 * i) t) (hbase : base % 128 = 0)
    (hlt : (base + 128 * i) / 1024 < L.lim) (hfree : ¬ L.space.Holds ((base + 128 * i) / 1024))
    {sector : Bytes} (hsector : ∀ b < 512, sector b = src (512 * i + b)) {dest : u32}
    (hdest : dest.toNat = 0xC0000000 + 4 * (base + 128 * i)) :
    ∃ t', readSectorTo sector dest t = some t' ∧ Stored s L src base (128 * (i + 1)) t' := by
  have hlim := h.running.ok.lim_le
  have htables := h.running.ok.tables_le
  refine forAbort_inv (fun j t ↦ Stored s L src base (128 * i + j) t) h fun j t _ hj ht ↦ ?_
  have hframe : (base + (128 * i + j)) / 1024 = (base + 128 * i) / 1024 := by omega
  have hword : read32 sector (4 * j) = read32 src (4 * (128 * i + j)) := by
    refine read32_shift fun b hb ↦ ?_
    rw [hsector _ (by omega), show 512 * i + (4 * j + b) = 4 * (128 * i + j) + b by omega]
  have hv : (dest + 4 * BitVec.ofNat 32 j).toNat = 0xC0000000 + 4 * (base + (128 * i + j)) := by
    have hfour : (4 : u32).toNat = 4 := rfl
    rw [BitVec.toNat_add, BitVec.toNat_mul, hfour, BitVec.toNat_ofNat, hdest]
    omega
  rw [hword]
  exact ht.word (by rwa [hframe]) (by rwa [hframe]) hv

/-- The bytes of the FAT on the disk. -/
def fatBytes (disk : Disk) (mountInfo : FAT12MountInfo) : Bytes :=
  fun a ↦ disk.sector (lba28 (fatLba mountInfo (a / 512))) (a % 512)

/-- The FAT can be loaded to frame `n` and on: these frames are mapped and hold no table. -/
def RoomForFat (L : Layout) (n sectors : Nat) : Prop :=
  ∀ i < sectors, n + i / 8 < L.lim ∧ ¬ L.space.Holds (n + i / 8)

theorem loadFatTo_stored (h : Running s L) (disk : Disk) {mountInfo : FAT12MountInfo} {n : Nat}
    (hroom : RoomForFat L n mountInfo.sectorsPerFat.toNat) :
    ∃ s', loadFatTo disk mountInfo (P2V (frameAddr n)) s = some s' ∧
      Stored s L (fatBytes disk mountInfo) (1024 * n) (128 * mountInfo.sectorsPerFat.toNat) s' := by
  have hlim := h.ok.lim_le
  have htables := h.ok.tables_le
  have hrun : ∃ s', loadFatTo disk mountInfo (P2V (frameAddr n)) s = some s' ∧
      Stored s L (fatBytes disk mountInfo) (1024 * n) (128 * (0 + mountInfo.sectorsPerFat.toNat)) s' := by
    refine forAbort_inv (fun i t ↦ Stored s L (fatBytes disk mountInfo) (1024 * n) (128 * i) t)
      (.start h _ _) fun i t _ hi ht ↦ ?_
    obtain ⟨hlt, hfree⟩ := hroom i (by omega)
    have hframe : (1024 * n + 128 * i) / 1024 = n + i / 8 := by omega
    have hdest : (P2V (frameAddr n) + BitVec.ofNat 32 (i * 512)).toNat =
        0xC0000000 + 4 * (1024 * n + 128 * i) := by
      rw [BitVec.toNat_add, P2V_frameAddr (by omega), BitVec.toNat_ofNat]
      omega
    refine ht.sector (by omega) (by rwa [hframe]) (by rwa [hframe]) (fun b hb ↦ ?_) hdest
    rw [fatBytes, show (512 * i + b) / 512 = i by omega, show (512 * i + b) % 512 = b by omega]
  rwa [Nat.zero_add] at hrun

end Loading

section Running

variable {A : Type} {s : Machine A} {L : Layout}

variable [FrameAllocator A]

theorem running_allocMemoryBlock (h : Running s L) : Running s.allocMemoryBlock.1 L :=
  ⟨⟨h.ok, h.cr3, h.encodes⟩, h.kernelDirectory, h.curDirectory⟩

/-- A FAT12 volume is mounted when its FAT goes to mapped frames without tables. -/
theorem fat12Init_stored (h : Running s L) {fs : FsState Disk} {n : Nat} (hn0 : n ≠ 0)
    (hn : n < L.lim) (hframe : frame s.frames 0 = frameAddr n)
    (hsig : memcmp (BPB.ofDisk fs).filesystemType fat12Signature 8 = 0)
    (hbytes : (BPB.ofDisk fs).bytesPerSector ≠ 0)
    (hroom : RoomForFat L n (BPB.ofDisk fs).mountInfo.sectorsPerFat.toNat) :
    ∃ s', fat12Init fs s = some s' ∧
      Stored s.allocMemoryBlock.1 L (fatBytes fs.disk (BPB.ofDisk fs).mountInfo) (1024 * n)
        (128 * (BPB.ofDisk fs).mountInfo.sectorsPerFat.toNat) s' := by
  have hlim := h.ok.lim_le
  have htables := h.ok.tables_le
  obtain ⟨s', hload, hstored⟩ := loadFatTo_stored (running_allocMemoryBlock h) fs.disk hroom
  refine ⟨s', ?_, hstored⟩
  simp only [fat12Init, Option.bind_eq_bind]
  rw [if_neg (not_not.mpr hsig), if_neg hbytes, h.allocPage hn0 hn hframe, Option.bind_some,
    if_neg (P2V_ne_zero (by omega)), hload]

end Running

/-- The tables after `vmmngr_initialize`. -/
def finalLayout {A : Type} [FrameAllocator A] (a : A) (totalMemory : u32) : Layout :=
  { layoutOf a (tablesFor (mappedPages totalMemory)) (mappedPages totalMemory) with ident := none }

/-- What `main` needs: the frames for paging are its own and mapped when it gets them, so are `fat` for
the FAT and `stack` for the user's stack, and the FAT of a FAT12 volume fits behind its first page. -/
structure Bootable (memory : Bytes) (bootinfo : MultibootInfo) (fs : FsState Disk) (fat stack : Nat) :
    Prop where
  given : FramesGiven (initMemory memory bootinfo) (initCalls bootinfo.memSize)
  mapped : FramesMapped (initMemory memory bootinfo) (initCalls bootinfo.memSize)
  fatFrame : frame (initMemory memory bootinfo) (initCalls bootinfo.memSize) = frameAddr fat
  stackFrame : frame (initMemory memory bootinfo) (initCalls bootinfo.memSize + 1) = frameAddr stack
  fatMapped : fat ≠ 0 ∧ fat < mappedPages bootinfo.memSize
  stackMapped : stack ≠ 0 ∧ stack < mappedPages bootinfo.memSize
  signature : memcmp (BPB.ofDisk fs).filesystemType fat12Signature 8 = 0
  bytesPerSector : (BPB.ofDisk fs).bytesPerSector ≠ 0
  room : ∀ i < (BPB.ofDisk fs).mountInfo.sectorsPerFat.toNat, fat + i / 8 < mappedPages bootinfo.memSize ∧
    ∀ k < initCalls bootinfo.memSize, frame (initMemory memory bootinfo) k ≠ frameAddr (fat + i / 8)

section Main

variable {memory : Bytes} {bootinfo : MultibootInfo} {fs : FsState Disk} {fat stack : Nat}
  (h : Bootable memory bootinfo fs fat stack)
include h

theorem Bootable.roomForFat : RoomForFat (finalLayout (initMemory memory bootinfo) bootinfo.memSize) fat
    (BPB.ofDisk fs).mountInfo.sectorsPerFat.toNat := by
  intro i hi
  obtain ⟨hlt, hother⟩ := h.room i hi
  have hne (k : Nat) (hk : k < initCalls bootinfo.memSize) :
      frameNo (initMemory memory bootinfo) k ≠ fat + i / 8 :=
    fun heq ↦ hother k hk (by rw [frame_eq h.given hk, heq])
  refine ⟨hlt, Layout.not_holds (hne 0 (by unfold initCalls; omega)).symm (fun hident ↦ (by cases hident))
    fun k hk ↦ hne (k + 2) ?_⟩
  change k < tablesFor (mappedPages bootinfo.memSize) at hk
  unfold initCalls
  omega

/-- `main` comes to its end on the tables of `vmmngr_initialize`, with two more frames taken and the FAT
in memory. -/
theorem mainInit_spec (mem : Words) : ∃ s, mainInit memory bootinfo fs mem = some s ∧
    s.frames = after (initMemory memory bootinfo) (initCalls bootinfo.memSize + 2) ∧
    Running s (finalLayout (initMemory memory bootinfo) bootinfo.memSize) ∧
    ∀ a < 128 * (BPB.ofDisk fs).mountInfo.sectorsPerFat.toNat, s.mem (1024 * fat + a) =
      read32 (fatBytes fs.disk (BPB.ofDisk fs).mountInfo) (4 * a) := by
  have hroom := h.roomForFat
  have hgiven := h.given
  have hmapped := h.mapped
  obtain ⟨s, hsetup, hframes, hcr3, hboot⟩ := setupPaging_spec (initMemory memory bootinfo) mem
  rw [← hframes] at hgiven hmapped
  obtain ⟨s₁, hpaging, hrunning, hframes₁⟩ :=
    vmmngrInitialize_spec bootinfo.memSize hboot hcr3 hgiven hmapped
  rw [← finalLayout, hframes] at hrunning
  rw [hframes] at hframes₁
  obtain ⟨s₂, hmount, hstored⟩ := fat12Init_stored hrunning h.fatMapped.1 h.fatMapped.2
    (by rw [hframes₁]; exact h.fatFrame) h.signature h.bytesPerSector hroom
  have hframes₂ : s₂.frames = after (initMemory memory bootinfo) (initCalls bootinfo.memSize + 1) := by
    rw [hstored.frames]
    change (allocMemoryBlock s₁.frames).1 = _
    rw [hframes₁]
    rfl
  have hpage := hstored.running.allocPage h.stackMapped.1 h.stackMapped.2
    (by rw [hframes₂]; exact h.stackFrame)
  refine ⟨s₂.allocMemoryBlock.1, ?_, ?_, running_allocMemoryBlock hstored.running, fun a ha ↦ ?_⟩
  · simp only [mainInit, Option.bind_eq_bind]
    rw [hsetup, Option.bind_some, hpaging, Option.bind_some, hmount, Option.bind_some, hpage,
      Option.bind_some]
  · change (allocMemoryBlock s₂.frames).1 = _
    rw [hframes₂]
    rfl
  · refine (hstored.mem (1024 * fat + a)).trans ?_
    rw [if_pos ⟨by omega, by omega⟩, Nat.add_sub_cancel_left]

end Main

/-! ## The frames that are handed out -/

/-- Frame numbers fit an address, and frame 0 is never on offer. -/
structure Sized (m : MemMngr) : Prop where
  maxBlocks : m.maxBlocks.toNat ≤ 2 ^ 20
  zero : 0 < m.maxBlocks.toNat → m.used 0 = true

theorem Sized.start {m : MemMngr} (h : Sized m) {b : Nat} (hb : b < 32 * (m.maxBlocks.toNat / 32))
    (hclear : m.used b = false) : b ≠ 0 ∧ b < 2 ^ 20 := by
  have hmax := h.maxBlocks
  refine ⟨fun h0 ↦ ?_, by omega⟩
  have hset := h.zero (by omega)
  rw [← h0, hclear] at hset
  cases hset

/-- What `alloc_memory_block` does: nothing, or it takes the least free block. -/
theorem Sized.allocMemoryBlock_cases {m : MemMngr} (h : Sized m) :
    (m.allocMemoryBlock = (m, 0) ∧ ¬ (0 < m.getFreeBlockCount ∧ ∃ b, m.mmapFirstFree = some b)) ∨
      ∃ b, 0 < m.getFreeBlockCount ∧ m.mmapFirstFree = some b ∧ b < 2 ^ 20 ∧
        BitVec.ofNat 32 b * MEMORY_BLOCK_SIZE ≠ 0 ∧ m.allocMemoryBlock =
          ({ m.mmapSet b with usedBlocks := m.usedBlocks + 1 }, BitVec.ofNat 32 b * MEMORY_BLOCK_SIZE) := by
  unfold MemMngr.allocMemoryBlock
  by_cases hfew : m.getFreeBlockCount ≤ 0
  · rw [if_pos hfew]
    exact Or.inl ⟨rfl, fun hor ↦ BitVec.not_lt.mpr hfew hor.1⟩
  · rw [if_neg hfew]
    cases hfind : m.mmapFirstFree with
    | none => exact Or.inl ⟨rfl, by simp⟩
    | some b =>
      obtain ⟨hb, hclear, -⟩ := (m.mmapFirstFree_eq_some_iff b).mp hfind
      obtain ⟨hne, hlt⟩ := h.start hb hclear
      exact Or.inr ⟨b, BitVec.not_le.mp hfew, rfl, hlt, frame_mul_ne_zero hlt hne, rfl⟩

-- A bit array in which more is set is still sized.
theorem Sized.more {m m' : MemMngr} (h : Sized m) (hmax : m'.maxBlocks = m.maxBlocks)
    (hused : m.used 0 = true → m'.used 0 = true) : Sized m' := by
  refine ⟨?_, fun hpos ↦ hused (h.zero ?_)⟩
  · rw [hmax]
    exact h.maxBlocks
  · rwa [← hmax]

theorem Sized.allocMemoryBlock {m : MemMngr} (h : Sized m) : Sized m.allocMemoryBlock.1 := by
  rcases m.allocMemoryBlock_cases with hfail | ⟨b, -, -, -, hmax, hused⟩
  · rw [hfail]
    exact h
  · exact h.more hmax fun h0 ↦ (hused 0).mpr (Or.inl h0)

theorem Sized.allocMemoryBlocks {m : MemMngr} (h : Sized m) (size : u32) :
    Sized (m.allocMemoryBlocks size).1 := by
  rcases m.allocMemoryBlocks_cases size with ⟨hfail, -⟩ | ⟨b, -, -, -, hmax, hused⟩
  · rw [hfail]
    exact h
  · exact h.more hmax fun h0 ↦ (hused 0).mpr (Or.inl h0)

theorem sized_initMemory (memory : Bytes) (bootinfo : MultibootInfo) : Sized (initMemory memory bootinfo) := by
  have hmax := initMemory_maxBlocks memory bootinfo
  refine ⟨by rw [hmax]; exact frameCount_le bootinfo, fun hpos ↦ ?_⟩
  rw [initMemory_used_iff memory bootinfo (hmax ▸ hpos)]
  exact fun hoffered ↦ hoffered.1 rfl

/-- The bit array `m` is `m₀` with the `i` blocks from `b` on taken. -/
structure Took (m₀ : MemMngr) (b i : Nat) (m : MemMngr) : Prop where
  sized : Sized m
  maxBlocks : m.maxBlocks = m₀.maxBlocks
  free : m.getFreeBlockCount = m₀.getFreeBlockCount - BitVec.ofNat 32 i
  used : ∀ n, m.used n = true ↔ m₀.used n = true ∨ (b ≤ n ∧ n < b + i)

section Took

variable {m₀ m : MemMngr} {b k i : Nat} (hbound : b + k ≤ 32 * (m₀.maxBlocks.toNat / 32))
  (hfree : k ≤ m₀.getFreeBlockCount.toNat) (hused : ∀ n < b, m₀.used n = true)
  (hclear : ∀ n, b ≤ n → n < b + k → m₀.used n = false)
include hbound hfree hused hclear

-- While the free blocks lie side by side, one call after the other takes the next.
theorem Took.next (h : Took m₀ b i m) (hi : i < k) :
    Took m₀ b (i + 1) m.allocMemoryBlock.1 ∧ m.allocMemoryBlock.2 = frameAddr (b + i) := by
  have hlt : i < m₀.getFreeBlockCount.toNat := by omega
  have hmore : 0 < m.getFreeBlockCount := by
    have hcount := m₀.getFreeBlockCount.isLt
    have hzero : (0 : u32).toNat = 0 := rfl
    rw [h.free, BitVec.lt_def, hzero, BitVec.toNat_sub, BitVec.toNat_ofNat]
    omega
  have hnext : m.used (b + i) = false := by
    rw [← Bool.not_eq_true, h.used, hclear (b + i) (by omega) (by omega)]
    simp
  have hfind : m.mmapFirstFree = some (b + i) := by
    refine (m.mmapFirstFree_eq_some_iff _).mpr ⟨?_, hnext, fun n hn ↦ ?_⟩
    · rw [h.maxBlocks]
      omega
    · rw [h.used]
      by_cases hlow : n < b
      · exact Or.inl (hused n hlow)
      · exact Or.inr ⟨by omega, hn⟩
  rcases h.sized.allocMemoryBlock_cases with ⟨-, hnone⟩ | ⟨b', -, hfind', hlt', -, hret⟩
  · exact absurd ⟨hmore, _, hfind⟩ hnone
  · cases hfind.symm.trans hfind'
    refine ⟨⟨h.sized.allocMemoryBlock, ?_, ?_, fun n ↦ ?_⟩, ?_⟩
    · rw [hret]
      exact h.maxBlocks
    · have hfree' := h.free
      rw [hret]
      change m.maxBlocks - (m.usedBlocks + 1) = _
      unfold MemMngr.getFreeBlockCount at hfree' ⊢
      rw [BitVec.ofNat_add]
      bv_omega
    · rw [hret]
      change (m.mmapSet (b + i)).used n = true ↔ _
      rw [MemMngr.mmapSet_used, Bool.or_eq_true, h.used, decide_eq_true_iff, or_assoc]
      refine or_congr_right ?_
      omega
    · rw [hret]
      apply BitVec.eq_of_toNat_eq
      rw [toNat_frame_mul hlt', frameAddr_toNat hlt', Nat.mul_comm]

theorem took_after (hsized : Sized m₀) (hi : i ≤ k) : Took m₀ b i (after m₀ i) := by
  induction i with
  | zero =>
    refine ⟨hsized, rfl, (BitVec.sub_zero _).symm, fun n ↦ ?_⟩
    rw [or_iff_left (by omega)]
    rfl
  | succ i ih => exact ((ih (by omega)).next hbound hfree hused hclear hi).1

end Took

/-! ## A PC with 128 MiB -/

theorem smallPc_frameCount : smallPc.frameCount = 1015808 := by decide +kernel

/-- The bit array of `smallPc` after the loop over the map. -/
def smallMngr : MemMngr := initMemory (fun _ ↦ 0) smallPc

theorem smallMngr_maxBlocks : smallMngr.maxBlocks.toNat = 1015808 :=
  (initMemory_maxBlocks _ _).trans smallPc_frameCount

theorem smallMngr_free : smallMngr.getFreeBlockCount = 32641 := by
  rw [smallMngr, initMemory_free]
  rfl

theorem smallMngr_used {n : Nat} (hn : n ≤ 256) : smallMngr.used n = false ↔
    n ≠ 0 ∧ (n < 160 ∨ n = 256 ∨ 4 ≤ n % 8) := by
  have hhandled : smallPc.handled =
      [⟨0, 0, 0x9FC00, 0, 1⟩, ⟨0x100000, 0, 0x7EE0000, 0, 1⟩] := rfl
  rw [smallMngr, initMemory_clear_iff _ _ (by rw [smallPc_frameCount]; omega), MultibootInfo.Offered,
    hhandled, List.exists_mem_cons_iff, List.exists_mem_cons_iff]
  simp only [List.not_mem_nil, false_and, exists_false, or_false]
  change n ≠ 0 ∧ (4 ≤ n % 8 ∨ (0 ≤ n ∧ n ≤ 0 + 159) ∨ 256 ≤ n ∧ n ≤ 256 + 32480) ↔ _
  omega

-- Frame after frame of the low memory, from frame 1 on.
theorem smallMngr_after {i : Nat} (hi : i ≤ 37) : Took smallMngr 1 i (after smallMngr i) ∧
    (i < 37 → frame smallMngr i = frameAddr (1 + i)) := by
  have hmax := smallMngr_maxBlocks
  have hfree : smallMngr.getFreeBlockCount.toNat = 32641 := by
    rw [smallMngr_free]
    rfl
  have hused : ∀ n < 1, smallMngr.used n = true := by
    intro n hn
    rw [← Bool.not_eq_false, smallMngr_used (by omega)]
    omega
  have hclear : ∀ n, 1 ≤ n → n < 1 + 37 → smallMngr.used n = false :=
    fun n h1 hn ↦ (smallMngr_used (by omega)).mpr ⟨by omega, Or.inl (by omega)⟩
  have htook : Took smallMngr 1 i (after smallMngr i) :=
    took_after (by omega) (by omega) hused hclear (sized_initMemory _ _) hi
  exact ⟨htook, fun hlt ↦ (htook.next (by omega) (by omega) hused hclear hlt).2⟩

theorem smallPc_initCalls : initCalls smallPc.memSize = 34 := by decide +kernel

/-- 34 frames go to paging, the next to the FAT and the one behind it to the user's stack. -/
theorem smallPc_bootable : Bootable (fun _ ↦ 0) smallPc blankVolume 35 36 := by
  have hcalls := smallPc_initCalls
  have hpages : mappedPages smallPc.memSize = 32736 := by decide +kernel
  have hsectors : (BPB.ofDisk blankVolume).mountInfo.sectorsPerFat.toNat = 272 := by decide +kernel
  have hframe {i : Nat} (hi : i < 37) : frame smallMngr i = frameAddr (1 + i) :=
    (smallMngr_after (Nat.le_of_lt hi)).2 hi
  have hlow {i : Nat} (hi : i < 37) : (frame smallMngr i).toNat = 4096 * (1 + i) := by
    rw [hframe hi, frameAddr_toNat (by omega)]
  obtain ⟨hsig, hbytes, -, -⟩ := (fat12Init_eq_zero_iff _ _ _).mp fat12Init_blankVolume
  refine
    { given := framesGiven_of_consecutive (fun i hi ↦ hframe (by omega)) (by decide) (Or.inl (by omega))
        (by omega)
      mapped := fun i hi ↦ ?_
      fatFrame := ?_
      stackFrame := ?_
      fatMapped := ⟨by decide, by omega⟩
      stackMapped := ⟨by decide, by omega⟩
      signature := hsig
      bytesPerSector := hbytes
      room := fun i hi ↦ ⟨by omega, fun k hk heq ↦ ?_⟩ }
  · change (frame smallMngr i).toNat < _
    rw [hlow (by omega)]
    omega
  · rw [hcalls]
    exact hframe (by decide)
  · rw [hcalls]
    exact hframe (by decide)
  · -- the FAT goes to the frames 35 to 68, the tables are below
    have hnat := congrArg BitVec.toNat heq
    change (frame smallMngr k).toNat = _ at hnat
    rw [hlow (by omega), frameAddr_toNat (by omega)] at hnat
    omega

/-! ## After `main` -/

end TenOs.Kernel
