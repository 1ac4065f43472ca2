import TenOs.Base.Run
import TenOs.Fs.Create
import TenOs.Fs.Transfer

/-!
# The cached FAT and its copies on disk

The cached FAT and both copies on disk agree after every call, whatever the FAT, the directory and
the handles hold.  Two things can break this: a call that returns with a changed cache, and a data
or directory sector that lands in the FAT area.
-/

namespace TenOs.Fs

open TenOs.Base TenOs.Lib TenOs.Drivers

/-- A call to the file system.  Its handle is any value, not only one that `fat12_open` returned. -/
inductive FsCall
  | create (filename : CString) (size : u32) (page : Bool)
  | openFile (filename : CString) (page : Bool)
  | read (file : Option FAT12File) (buffer : Bytes) (size : u32)
  | write (file : Option FAT12File) (buffer : Bytes) (size : u32)
  | listRoot

def FsCall.run (s : FsState Disk) : FsCall → FsState Disk
  | create filename size page => (fat12Create s filename size page).1
  | openFile filename page => (fat12Open s filename page).1
  | read file buffer size => (fat12Read s file buffer size).fs
  | write file buffer size => (fat12Write s file buffer size).1
  | listRoot => (fat12ListRoot s).1

/-- The cached FAT is the content of both copies. -/
def Coherent (s : FsState Disk) : Prop :=
  ∀ i < s.mountInfo.sectorsPerFat.toNat, FatSectorStored s.mountInfo s.fatBuffer s.disk i

/-- The geometry under which the driver's writes stay out of the FAT area: the second copy is
followed by the root directory, and that is long enough for clusters 0 and 1. -/
structure TwoFats (bpb : BPB) : Prop where
  numFats : bpb.numFats = 2
  sectorsPerCluster : bpb.sectorsPerCluster = 1
  rootSize : 2 ≤ bpb.mountInfo.rootSize.toNat

/-! ## Where the FAT area ends -/

/-- Whatever cluster number a handle or the FAT holds, its sector lies behind the FAT area. -/
theorem rootStart_le_clusterLba {bpb : BPB} {s : FsState Disk} (hm : Mounted bpb s)
    (hvol : TwoFats bpb) (c : u16) :
    s.mountInfo.rootStart.toNat ≤ lba28 (clusterLba s.mountInfo c) := by
  have hdata := bpb.dataStart_toNat
  have hsize := hvol.rootSize
  rw [← hm.mountInfo] at hdata hsize
  -- clusters 0 and 1 are the last two sectors of the root directory
  have hlba := hm.clusterLba_eq hvol.sectorsPerCluster (c := c) (by omega)
  omega

/-! ## One call -/

theorem Coherent.of_sectors {s t : FsState Disk} (h : Coherent s) (hmount : t.mountInfo = s.mountInfo)
    (hfat : t.fatBuffer = s.fatBuffer)
    (hdisk : ∀ i < s.mountInfo.sectorsPerFat.toNat,
      t.disk.sector (lba28 (fatLba s.mountInfo i)) = s.disk.sector (lba28 (fatLba s.mountInfo i)) ∧
      t.disk.sector (lba28 (fatCopyLba s.mountInfo i)) =
        s.disk.sector (lba28 (fatCopyLba s.mountInfo i))) : Coherent t := by
  intro i hi a ha
  rw [hmount] at hi ⊢
  have hold := h i hi a ha
  have hsec := hdisk i hi
  rw [hsec.1, hsec.2, hfat]
  exact hold

theorem Coherent.of_sameVolume {s t : FsState Disk} (h : Coherent s) (hsame : SameVolume s t) :
    Coherent t :=
  h.of_sectors hsame.mountInfo hsame.fatBuffer fun i _ ↦ by rw [hsame.disk]; exact ⟨rfl, rfl⟩

/-- A sector that no cluster number leads to is not written. -/
theorem writeLoop_outside (buffer : Bytes) (fuel : Nat) (w : WriteState Disk) (size : u32) {l : Nat}
    (hl : ∀ c, l ≠ lba28 (clusterLba w.fs.mountInfo c)) :
    (writeLoop buffer fuel w size).fs.disk.sector l = w.fs.disk.sector l := by
  induction fuel generalizing w size with
  | zero => rfl
  | succ fuel ih =>
    rw [writeLoop]
    split
    · rw [ih (writeTurn buffer w size) _ hl]
      exact writeTurn_sector_other buffer w size (hl _)
    · rfl

-- The data clusters lie behind both copies of the FAT.
theorem coherent_write {bpb : BPB} {s : FsState Disk} (hm : Mounted bpb s) (hvol : TwoFats bpb)
    (h : Coherent s) (file : Option FAT12File) (buffer : Bytes) (size : u32) :
    Mounted bpb (fat12Write s file buffer size).1 ∧ Coherent (fat12Write s file buffer size).1 := by
  cases file with
  | none => exact ⟨hm, h⟩
  | some file =>
    have hframe := writeLoop_frame buffer (turns size)
      ⟨s, { file with currentCluster := file.firstCluster }, 0⟩ size
    refine ⟨⟨hm.bytesPerSector, hframe.1.trans hm.mountInfo⟩,
      h.of_sectors hframe.1 hframe.2 fun i hi ↦ ⟨?_, ?_⟩⟩
    · exact writeLoop_outside _ _ _ _ fun c ↦ (hm.ne_fatLba hvol.numFats
        (rootStart_le_clusterLba hm hvol c) hi).1
    · exact writeLoop_outside _ _ _ _ fun c ↦ (hm.ne_fatLba hvol.numFats
        (rootStart_le_clusterLba hm hvol c) hi).2

-- `sync_fat` stores the cache, and the directory sector lies behind the copies.
theorem coherent_create {bpb : BPB} {s : FsState Disk} (hm : Mounted bpb s) (hvol : TwoFats bpb)
    (h : Coherent s) (filename : CString) (size : u32) (page : Bool) :
    Mounted bpb (fat12Create s filename size page).1 ∧
      Coherent (fat12Create s filename size page).1 := by
  rcases fat12Create_cases s filename size page with
    ⟨-, -, hsame⟩ | ⟨-, -, n, first, hslot, hcr⟩
  · -- a failed call leaves the cache as it was: the loop can only fail at its first turn
    exact ⟨⟨hm.bytesPerSector, hsame.mountInfo.trans hm.mountInfo⟩, h.of_sameVolume hsame⟩
  · generalize (fat12Create s filename size page).1 = t at hcr
    have hsync := syncFat_spec (s := { s with fatBuffer := t.fatBuffer })
      ⟨hm.bytesPerSector, hm.mountInfo⟩
    have hn := ((firstFreeSlot_eq_some_iff s n).mp hslot).1
    rw [slotCount] at hn
    have hroot := hm.rootLba_eq (k := n / 16) (by omega)
    refine ⟨⟨hm.bytesPerSector, hcr.mountInfo.trans hm.mountInfo⟩, fun i hi a ha ↦ ?_⟩
    rw [hcr.mountInfo] at hi ⊢
    have hne := hm.ne_fatLba hvol.numFats (l := s.mountInfo.rootStart.toNat + n / 16) (by omega) hi
    rw [← hroot.1] at hne
    rw [hcr.other _ hne.1, hcr.other _ hne.2]
    exact hsync.stored i hi a ha

theorem coherent_call {bpb : BPB} {s : FsState Disk} (hm : Mounted bpb s) (hvol : TwoFats bpb)
    (h : Coherent s) (call : FsCall) : Mounted bpb (call.run s) ∧ Coherent (call.run s) := by
  have hsame {t : FsState Disk} (hst : SameVolume s t) : Mounted bpb t ∧ Coherent t :=
    ⟨⟨hm.bytesPerSector, hst.mountInfo.trans hm.mountInfo⟩, h.of_sameVolume hst⟩
  cases call with
  | create filename size page => exact coherent_create hm hvol h filename size page
  | openFile filename page => exact hsame (fat12Open_spec s filename page).1
  | read file buffer size => exact hsame (fat12Read_sameVolume s file buffer size)
  | write file buffer size => exact coherent_write hm hvol h file buffer size
  | listRoot => exact hsame (fat12ListRoot_spec s)

/-! ## Every run -/

/-- Loading the FAT makes the cache coherent when the two copies are equal. -/
theorem coherent_of_init {s₀ s₁ : FsState Disk} {page : Bool}
    (hinit : fat12Init s₀ page = some (s₁, 0))
    (hcopies : ∀ i < s₁.mountInfo.sectorsPerFat.toNat, ∀ a < 512,
      s₀.disk.sector (lba28 (fatCopyLba s₁.mountInfo i)) a =
        s₀.disk.sector (lba28 (fatLba s₁.mountInfo i)) a) : Coherent s₁ := by
  have hload := fatBuffer_of_init hinit
  intro i hi a ha
  have hcache := hload.2 (i * 512 + a)
  rw [if_pos (by omega), show (i * 512 + a) / 512 = i by omega,
    show (i * 512 + a) % 512 = a by omega] at hcache
  rw [hload.1, hcopies i hi a ha]
  exact ⟨hcache.symm, hcache.symm⟩

/-- After every call of every sequence of calls the cached FAT equals both copies on disk. -/
theorem coherent_of_run {s₀ s₁ s : FsState Disk} {page : Bool}
    (hinit : fat12Init s₀ page = some (s₁, 0)) (hvol : TwoFats (BPB.ofDisk s₀))
    (hcopies : ∀ i < s₁.mountInfo.sectorsPerFat.toNat, ∀ a < 512,
      s₀.disk.sector (lba28 (fatCopyLba s₁.mountInfo i)) a =
        s₀.disk.sector (lba28 (fatLba s₁.mountInfo i)) a)
    (hrun : Run FsCall.run (fun _ _ ↦ True) s₁ s) : Coherent s := by
  have hstart : Mounted (BPB.ofDisk s₀) s₁ ∧ Coherent s₁ :=
    ⟨mounted_of_init hinit, coherent_of_init hinit hcopies⟩
  have hinv := hrun.inv (fun t ↦ Mounted (BPB.ofDisk s₀) t ∧ Coherent t) hstart
    fun t call ht _ ↦ coherent_call ht.1 hvol ht.2 call
  exact hinv.2

theorem twoFats_blankVolume : TwoFats (BPB.ofDisk blankVolume) :=
  ⟨by decide +kernel, by decide +kernel, by decide +kernel⟩

/-- Both copies on the blank image are zero. -/
theorem copies_blankVolume : ∀ i < (mountFrom blankVolume).mountInfo.sectorsPerFat.toNat, ∀ a < 512,
    blankVolume.disk.sector (lba28 (fatCopyLba (mountFrom blankVolume).mountInfo i)) a =
      blankVolume.disk.sector (lba28 (fatLba (mountFrom blankVolume).mountInfo i)) a := by
  intro i hi a _
  have hm := mounted_of_init fat12Init_blankVolume
  have hlba := hm.fatLba_eq hi
  have hstart : (mountFrom blankVolume).mountInfo.fatStart.toNat = 112 := by
    rw [hm.mountInfo]
    decide +kernel
  rw [blankVolume_sector (by omega), blankVolume_sector (by omega)]

theorem coherent_of_run_blankVolume :
    let s := (FsCall.create bigFile 100 true).run (mountFrom blankVolume)
    Coherent ((FsCall.write (some noteFile) (fun _ ↦ 7) 100).run s) :=
  coherent_of_run fat12Init_blankVolume twoFats_blankVolume copies_blankVolume
    (.step (.step .start trivial) trivial)

end TenOs.Fs
