import TenOs.Drivers.Ata

/-!
# `fs/fs.h` and `fat12_init`: a mounted volume

The boot sector's parameter block, the geometry the driver computes from it, and the state the
driver works on: the drive, the geometry, the cached FAT and the one sector buffer that every
function shares.
-/

namespace TenOs.Fs

open TenOs.Base TenOs.Lib TenOs.Drivers

/-! ## Boot sector and geometry -/

structure BPB where
  bytesPerSector : u16
  sectorsPerCluster : u8
  reservedSectors : u16
  numFats : u8
  rootEntries : u16
  sectorsPerFat : u16
  filesystemType : Bytes

/-- The fields of the packed struct that `fat12_init` reads, at their offsets. -/
def BPB.ofSector (b : Bytes) : BPB where
  bytesPerSector := read16 b 0x0B
  sectorsPerCluster := b 0x0D
  reservedSectors := read16 b 0x0E
  numFats := b 0x10
  rootEntries := read16 b 0x11
  sectorsPerFat := read16 b 0x16
  filesystemType := pointerAt b 0x36

structure FAT12MountInfo where
  fatStart : u32
  rootStart : u32
  rootSize : u32
  dataStart : u32
  sectorsPerFat : u16
  bytesPerSector : u16
  sectorsPerCluster : u8
  rootEntries : u16

/-- The geometry `fat12_init` computes; `fat_buffer` is the field `fatBuffer` of `FsState`. -/
def BPB.mountInfo (bpb : BPB) : FAT12MountInfo :=
  let fatStart := bpb.reservedSectors.setWidth 32
  let rootStart := fatStart + bpb.numFats.setWidth 32 * bpb.sectorsPerFat.setWidth 32
  let rootSize := bpb.rootEntries.setWidth 32 * 32#32 / bpb.bytesPerSector.setWidth 32
  { fatStart, rootStart, rootSize, dataStart := rootStart + rootSize
    sectorsPerFat := bpb.sectorsPerFat
    bytesPerSector := bpb.bytesPerSector
    sectorsPerCluster := bpb.sectorsPerCluster
    rootEntries := bpb.rootEntries }

/-- Special values of a FAT entry. -/
def FAT12_FREE : u16 := 0x000#16
def FAT12_EOF_MIN : u16 := 0xFF8#16
def FAT12_EOF : u16 := 0xFFF#16

/-! ## The driver's state -/

/-- `fatBuffer` and `sectorBuffer` are the memories from the two buffers on. -/
structure FsState (D : Type) where
  disk : D
  mountInfo : FAT12MountInfo
  fatBuffer : Bytes
  sectorBuffer : Bytes

variable {D : Type} [SectorDevice D]

/-- `read_sector(lba, sector_buffer)`. -/
def FsState.readToBuffer (s : FsState D) (lba : u32) : FsState D :=
  let r := readSector s.disk lba s.sectorBuffer 0
  { s with sectorBuffer := r.1, disk := r.2 }

/-- `write_sector(lba, sector_buffer)`. -/
def FsState.writeFromBuffer (s : FsState D) (lba : u32) : FsState D :=
  { s with disk := writeSector s.disk lba s.sectorBuffer 0 }

def fat12Signature : Bytes := fun i ↦ [0x46, 0x41, 0x54, 0x31, 0x32, 0x20, 0x20, 0x20].getD i 0

/-- LBA of sector `i` of the first and of the second copy of the FAT. -/
def fatLba (mountInfo : FAT12MountInfo) (i : Nat) : u32 := mountInfo.fatStart + BitVec.ofNat 32 i

def fatCopyLba (mountInfo : FAT12MountInfo) (i : Nat) : u32 :=
  mountInfo.fatStart + mountInfo.sectorsPerFat.setWidth 32 + BitVec.ofNat 32 i

/-- "Load entire FAT", one sector of the first copy. -/
def loadTurn (i : Nat) (s : FsState D) : FsState D :=
  let r := readSector s.disk (fatLba s.mountInfo i) s.fatBuffer (i * 512)
  { s with fatBuffer := r.1, disk := r.2 }

def loadFat (s : FsState D) : FsState D := forLoop loadTurn s.mountInfo.sectorsPerFat.toNat 0 s

/-- `fat12_init` with the value it returns.  `page` says whether `vmmngr_alloc_page` returns a page,
whose memory is then `s.fatBuffer`.  The result is `none` when the division by `bytes_per_sector`
traps: the handler of that exception halts the machine. -/
def fat12Init (s : FsState D) (page : Bool) : Option (FsState D × Int) :=
  let s := s.readToBuffer 0
  let bpb := BPB.ofSector s.sectorBuffer
  if memcmp bpb.filesystemType fat12Signature 8 ≠ 0 then
    some (s, -1)
  else if bpb.bytesPerSector = 0 then
    none
  else
    let s := { s with mountInfo := bpb.mountInfo }
    if page then some (loadFat s, 0) else some (s, -1)

/-- The state after mounting a volume with parameter block `bpb`. -/
structure Mounted (bpb : BPB) (s : FsState D) : Prop where
  bytesPerSector : bpb.bytesPerSector ≠ 0
  mountInfo : s.mountInfo = bpb.mountInfo

/-! ## What mounting does -/

/-- What `loadFat` has done after `i` turns. -/
structure Loaded (s : FsState Disk) (i : Nat) (t : FsState Disk) : Prop where
  disk : t.disk = s.disk
  mountInfo : t.mountInfo = s.mountInfo
  fatBuffer : ∀ a, t.fatBuffer a =
    if a < 512 * i then s.disk.sector (lba28 (fatLba s.mountInfo (a / 512))) (a % 512)
    else s.fatBuffer a

-- A turn loads one sector behind those loaded before.
theorem Loaded.turn {s t : FsState Disk} {i : Nat} (h : Loaded s i t) :
    Loaded s (i + 1) (loadTurn i t) := by
  refine ⟨h.disk, h.mountInfo, fun a ↦ ?_⟩
  change (readSector t.disk (fatLba t.mountInfo i) t.fatBuffer (i * 512)).1 a = _
  by_cases hin : 512 * i ≤ a ∧ a < 512 * i + 512
  · -- a byte of the sector that this turn reads
    have hread := readSector_inside t.disk (fatLba t.mountInfo i) t.fatBuffer (i * 512)
      (i := a % 512) (by omega)
    rw [show i * 512 + a % 512 = a by omega, h.disk, h.mountInfo] at hread
    rw [if_pos (by omega), show a / 512 = i by omega, h.disk, h.mountInfo, hread]
  · rw [readSector_outside _ _ _ _ (by omega), h.fatBuffer]
    by_cases hlt : a < 512 * i
    · have hsucc : a < 512 * (i + 1) := by omega
      rw [if_pos hlt, if_pos hsucc]
    · have hsucc : ¬ a < 512 * (i + 1) := by omega
      rw [if_neg hlt, if_neg hsucc]

theorem loadFat_spec (s : FsState Disk) : Loaded s s.mountInfo.sectorsPerFat.toNat (loadFat s) := by
  have hstart : Loaded s 0 s := ⟨rfl, rfl, fun a ↦ (if_neg (by omega)).symm⟩
  have hrun : Loaded s (0 + s.mountInfo.sectorsPerFat.toNat) (loadFat s) :=
    forLoop_inv (Loaded s) hstart fun _ _ _ _ h ↦ h.turn
  rwa [Nat.zero_add] at hrun

/-- The parameter block that `fat12_init` reads. -/
def BPB.ofDisk (s : FsState Disk) : BPB := BPB.ofSector (s.readToBuffer 0).sectorBuffer

/-- The FAT loaded over the state that the parameter block of `s` describes. -/
def mountFrom (s : FsState Disk) : FsState Disk :=
  loadFat { s.readToBuffer 0 with mountInfo := (BPB.ofDisk s).mountInfo }

/-- When `fat12_init` accepts the boot sector. -/
theorem fat12Init_eq_zero_iff (s s₁ : FsState Disk) (page : Bool) :
    fat12Init s page = some (s₁, 0) ↔
      memcmp (BPB.ofDisk s).filesystemType fat12Signature 8 = 0 ∧
        (BPB.ofDisk s).bytesPerSector ≠ 0 ∧ page = true ∧ mountFrom s = s₁ := by
  have hbpb : BPB.ofSector (s.readToBuffer 0).sectorBuffer = BPB.ofDisk s := rfl
  have hload : loadFat { s.readToBuffer 0 with mountInfo := (BPB.ofDisk s).mountInfo } =
    mountFrom s := rfl
  simp only [fat12Init, hbpb, hload]
  by_cases hsig : memcmp (BPB.ofDisk s).filesystemType fat12Signature 8 = 0
  · by_cases hbps : (BPB.ofDisk s).bytesPerSector = 0
    · simp [hsig, hbps]
    · cases page <;> simp [hsig]
  · simp [hsig]

theorem mounted_of_init {s s₁ : FsState Disk} {page : Bool} (h : fat12Init s page = some (s₁, 0)) :
    Mounted (BPB.ofDisk s) s₁ := by
  obtain ⟨-, hbps, -, hs₁⟩ := (fat12Init_eq_zero_iff s s₁ page).mp h
  rw [← hs₁]
  exact ⟨hbps, (loadFat_spec _).mountInfo⟩

/-- The cached FAT after mounting is the first copy on disk. -/
theorem fatBuffer_of_init {s s₁ : FsState Disk} {page : Bool}
    (h : fat12Init s page = some (s₁, 0)) : s₁.disk = s.disk ∧ ∀ a, s₁.fatBuffer a =
      if a < 512 * s₁.mountInfo.sectorsPerFat.toNat then
        s.disk.sector (lba28 (fatLba s₁.mountInfo (a / 512))) (a % 512)
      else s.fatBuffer a := by
  obtain ⟨-, -, -, hs₁⟩ := (fat12Init_eq_zero_iff s s₁ page).mp h
  have hload := loadFat_spec { s.readToBuffer 0 with mountInfo := (BPB.ofDisk s).mountInfo }
  rw [show loadFat _ = s₁ from hs₁] at hload
  rw [hload.mountInfo]
  exact ⟨hload.disk, hload.fatBuffer⟩

/-! ## The volume of the boot image -/

/-- The first 62 bytes of `boot/bootsect.asm`: the jump and the parameter block. -/
def bootSector : Bytes := fun i ↦
  [0xEB, 0x3C, 0x90, 0x4D, 0x59, 0x4F, 0x53, 0x31, 0x2E, 0x30, 0x20, 0x00, 0x02, 0x01, 0x70, 0x00,
    0x02, 0x00, 0x02, 0x00, 0x00, 0xF8, 0x10, 0x01, 0x3F, 0x00, 0x10, 0x00, 0x00, 0x00, 0x00, 0x00,
    0x00, 0x00, 0x40, 0x00, 0x80, 0x00, 0x29, 0x78, 0x56, 0x34, 0x12, 0x4D, 0x59, 0x20, 0x4F, 0x53,
    0x20, 0x44, 0x49, 0x53, 0x4B, 0x20, 0x46, 0x41, 0x54, 0x31, 0x32, 0x20, 0x20, 0x20].getD i 0

/-- The image with nothing on it but its boot sector, mounted. -/
def blankVolume : FsState Disk where
  disk.sector := Function.update (fun _ _ ↦ 0) 0 bootSector
  mountInfo := (BPB.ofSector bootSector).mountInfo
  fatBuffer _ := 0
  sectorBuffer _ := 0

theorem blankVolume_sector {l : Nat} (h : l ≠ 0) : blankVolume.disk.sector l = fun _ ↦ 0 := by
  change Function.update (fun _ : Nat ↦ (fun _ ↦ 0 : Bytes)) 0 bootSector l = _
  rw [Function.update_of_ne h]

theorem fat12Init_blankVolume : fat12Init blankVolume true = some (mountFrom blankVolume, 0) :=
  (fat12Init_eq_zero_iff _ _ _).mpr ⟨by decide +kernel, by decide +kernel, rfl, rfl⟩

theorem mounted_blankVolume : Mounted (BPB.ofSector bootSector) blankVolume :=
  ⟨by decide +kernel, rfl⟩

/-! ## The regions of the volume -/

namespace BPB

variable (bpb : BPB)

theorem fatStart_toNat : bpb.mountInfo.fatStart.toNat = bpb.reservedSectors.toNat := by
  have h := bpb.reservedSectors.isLt
  simp only [mountInfo, BitVec.toNat_setWidth]
  omega

/-- The root directory starts right after `num_fats` copies of the FAT; the sum does not wrap. -/
theorem rootStart_toNat : bpb.mountInfo.rootStart.toNat =
    bpb.reservedSectors.toNat + bpb.numFats.toNat * bpb.sectorsPerFat.toNat := by
  have h := bpb.reservedSectors.isLt
  have hp : bpb.numFats.toNat * bpb.sectorsPerFat.toNat ≤ 255 * 65535 :=
    Nat.mul_le_mul (Nat.le_of_lt_succ bpb.numFats.isLt) (Nat.le_of_lt_succ bpb.sectorsPerFat.isLt)
  have hn := bpb.numFats.isLt
  have hs := bpb.sectorsPerFat.isLt
  simp only [mountInfo, BitVec.toNat_add, BitVec.toNat_mul, BitVec.toNat_setWidth]
  rw [Nat.mod_eq_of_lt (a := bpb.numFats.toNat) (by omega),
    Nat.mod_eq_of_lt (a := bpb.sectorsPerFat.toNat) (by omega)]
  omega

theorem rootSize_toNat : bpb.mountInfo.rootSize.toNat =
    bpb.rootEntries.toNat * 32 / bpb.bytesPerSector.toNat := by
  have he := bpb.rootEntries.isLt
  have hb := bpb.bytesPerSector.isLt
  have h32 : (32#32).toNat = 32 := rfl
  simp only [mountInfo, BitVec.toNat_udiv, BitVec.toNat_mul, BitVec.toNat_setWidth, h32]
  rw [Nat.mod_eq_of_lt (a := bpb.bytesPerSector.toNat) (by omega)]
  congr 1
  omega

theorem rootSize_le : bpb.mountInfo.rootSize.toNat ≤ 65535 * 32 := by
  have he := bpb.rootEntries.isLt
  rw [rootSize_toNat]
  exact (Nat.div_le_self _ _).trans (by omega)

theorem rootStart_le : bpb.mountInfo.rootStart.toNat ≤ 65535 + 255 * 65535 := by
  have h := bpb.reservedSectors.isLt
  have hp : bpb.numFats.toNat * bpb.sectorsPerFat.toNat ≤ 255 * 65535 :=
    Nat.mul_le_mul (Nat.le_of_lt_succ bpb.numFats.isLt) (Nat.le_of_lt_succ bpb.sectorsPerFat.isLt)
  rw [rootStart_toNat]
  omega

/-- The data region starts right after the root directory; the sum does not wrap. -/
theorem dataStart_toNat : bpb.mountInfo.dataStart.toNat =
    bpb.mountInfo.rootStart.toNat + bpb.mountInfo.rootSize.toNat := by
  have h1 := bpb.rootStart_le
  have h2 := bpb.rootSize_le
  change (bpb.mountInfo.rootStart + bpb.mountInfo.rootSize).toNat = _
  rw [BitVec.toNat_add]
  omega

end BPB

end TenOs.Fs
