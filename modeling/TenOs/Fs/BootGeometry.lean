import TenOs.Fs.DataSectors

/-!
# Boot sectors that the driver can work with

`fat12_init` looks at the type string only.  `sync_fat` writes two copies of the FAT, whatever
`num_fats` says.
-/

namespace TenOs.Fs

open TenOs.Base TenOs.Lib TenOs.Drivers

/-- The regions follow each other, and the root region has room for the root entries. -/
structure RegionsSound (bpb : BPB) (m : FAT12MountInfo) : Prop where
  root : m.rootStart.toNat = m.fatStart.toNat + bpb.numFats.toNat * bpb.sectorsPerFat.toNat
  data : m.dataStart.toNat = m.rootStart.toNat + m.rootSize.toNat
  entries : bpb.rootEntries.toNat ≤ m.rootSize.toNat * 16

/-- A call of `sync_fat` in the state `t` stays in the FAT region, and after it each copy of the FAT is
the cached one. -/
structure SyncsCopies (bpb : BPB) (t : FsState Disk) : Prop where
  inside : ∀ lba ∈ (syncFat t.logged).disk.log,
    t.mountInfo.fatStart.toNat ≤ lba28 lba ∧ lba28 lba < t.mountInfo.rootStart.toNat
  copies : ∀ k < bpb.numFats.toNat, ∀ a < 512 * bpb.sectorsPerFat.toNat,
    (syncFat t).disk.sector
      (t.mountInfo.fatStart.toNat + k * bpb.sectorsPerFat.toNat + a / 512) (a % 512) = t.fatBuffer a

/-- `fat12_init` returns -1, or it mounts a volume whose regions are sound and on which every later
`sync_fat` keeps the copies.  `mount_info` only changes in `fat12_init`. -/
def BootSectorHandled (s : FsState Disk) (page : Bool) : Prop :=
  (∃ s₁, fat12Init s page = some (s₁, -1)) ∨ ∃ s₁, fat12Init s page = some (s₁, 0) ∧
    RegionsSound (BPB.ofDisk s) s₁.mountInfo ∧
      ∀ t : FsState Disk, t.mountInfo = s₁.mountInfo → SyncsCopies (BPB.ofDisk s) t

/-! ## The sectors of `sync_fat` -/

theorem syncFat_log (t : FsState LoggedDisk) : (syncFat t).disk.log = t.disk.log ++
    (List.range t.mountInfo.sectorsPerFat.toNat).flatMap fun i ↦
      [fatLba t.mountInfo i, fatCopyLba t.mountInfo i] := by
  let inv (i : Nat) (u : FsState LoggedDisk) : Prop := u.mountInfo = t.mountInfo ∧
    u.disk.log = t.disk.log ++ (List.range i).flatMap fun i ↦
      [fatLba t.mountInfo i, fatCopyLba t.mountInfo i]
  have hstart : inv 0 t := ⟨rfl, (List.append_nil _).symm⟩
  have hrun : inv (0 + t.mountInfo.sectorsPerFat.toNat) (syncFat t) := by
    refine forLoop_inv inv hstart fun i u _ _ hu ↦ ⟨hu.1, ?_⟩
    rw [List.range_succ, List.flatMap_append, ← List.append_assoc, ← hu.2, ← hu.1]
    simp [syncTurn, writeSector]
  rw [Nat.zero_add] at hrun
  exact hrun.2

theorem mem_syncFat_log {t : FsState Disk} {lba : u32} : lba ∈ (syncFat t.logged).disk.log ↔
    ∃ i < t.mountInfo.sectorsPerFat.toNat,
      lba = fatLba t.mountInfo i ∨ lba = fatCopyLba t.mountInfo i := by
  rw [syncFat_log]
  simp [FsState.logged]

section Sync

variable {bpb : BPB} (hbytes : bpb.bytesPerSector ≠ 0)
include hbytes

/-- With two copies all is well. -/
theorem syncsCopies_of_two {t : FsState Disk} (hmount : t.mountInfo = bpb.mountInfo)
    (hfats : bpb.numFats = 2) : SyncsCopies bpb t := by
  have hm : Mounted bpb t := ⟨hbytes, hmount⟩
  have hroot := hm.rootStart_eq hfats
  have htwo : bpb.numFats.toNat = 2 := by rw [hfats]; rfl
  have hsize : t.mountInfo.sectorsPerFat = bpb.sectorsPerFat := by rw [hmount]; rfl
  constructor
  · intro lba hlba
    obtain ⟨i, hi, rfl | rfl⟩ := mem_syncFat_log.mp hlba
    · rw [(hm.fatLba_eq hi).1]
      omega
    · rw [(hm.fatLba_eq hi).2]
      omega
  · intro k hk a ha
    have hi : a / 512 < t.mountInfo.sectorsPerFat.toNat := by
      rw [hsize]
      omega
    have hstored := (syncFat_spec hm).stored (a / 512) hi (a % 512) (Nat.mod_lt _ (by decide))
    have hlba := hm.fatLba_eq hi
    rw [hlba.1, hlba.2, hsize, show a / 512 * 512 + a % 512 = a by omega] at hstored
    have hcopy : k = 0 ∨ k = 1 := by omega
    rcases hcopy with rfl | rfl
    · rw [Nat.zero_mul, Nat.add_zero]
      exact hstored.1
    · rw [Nat.one_mul]
      exact hstored.2

/-- With a FAT to write and no second copy, a write goes behind the FAT region; with a third copy, that
one keeps what it had. -/
theorem two_of_syncsCopies (h : ∀ t : FsState Disk, t.mountInfo = bpb.mountInfo → SyncsCopies bpb t)
    (hsize : bpb.sectorsPerFat.toNat ≠ 0) : bpb.numFats = 2 := by
  let t : FsState Disk := ⟨⟨fun _ _ ↦ 0⟩, bpb.mountInfo, fun _ ↦ 1, fun _ ↦ 0⟩
  have hm : Mounted bpb t := ⟨hbytes, rfl⟩
  have hpos : 0 < t.mountInfo.sectorsPerFat.toNat := Nat.pos_of_ne_zero hsize
  have hroot : t.mountInfo.rootStart.toNat =
      t.mountInfo.fatStart.toNat + bpb.numFats.toNat * bpb.sectorsPerFat.toNat := by
    rw [hm.mountInfo, bpb.rootStart_toNat, bpb.fatStart_toNat]
  have htwo : 2 ≤ bpb.numFats.toNat := by
    have hinside := (h t rfl).inside _ (mem_syncFat_log.mpr ⟨0, hpos, Or.inr rfl⟩)
    rw [(hm.fatLba_eq hpos).2, hroot] at hinside
    by_contra hlt
    have hmul := Nat.mul_le_mul_right bpb.sectorsPerFat.toNat (show bpb.numFats.toNat ≤ 1 by omega)
    have hsame : t.mountInfo.sectorsPerFat.toNat = bpb.sectorsPerFat.toNat := rfl
    omega
  by_contra hne
  have hthree : 2 < bpb.numFats.toNat := by
    have hnat : bpb.numFats.toNat ≠ 2 := fun heq ↦ hne (BitVec.eq_of_toNat_eq heq)
    omega
  have hcopy := (h t rfl).copies 2 hthree 0 (by omega)
  rw [(syncFat_spec hm).outside _ (Or.inr (by exact Nat.le_refl _))] at hcopy
  have hdiff : (0 : u8) ≠ 1 := by decide
  exact hdiff hcopy

end Sync

/-! ## The boot sector -/

theorem regionsSound_iff (bpb : BPB) : RegionsSound bpb bpb.mountInfo ↔
    bpb.rootEntries.toNat ≤ bpb.rootEntries.toNat * 32 / bpb.bytesPerSector.toNat * 16 := by
  rw [← bpb.rootSize_toNat]
  refine ⟨fun h ↦ h.entries, fun h ↦ ⟨?_, bpb.dataStart_toNat, h⟩⟩
  rw [bpb.rootStart_toNat, bpb.fatStart_toNat]

/-- What a boot sector must be like for the driver, when its type string is that of FAT12. -/
structure BPB.Workable (bpb : BPB) : Prop where
  entries : bpb.rootEntries.toNat ≤ bpb.rootEntries.toNat * 32 / bpb.bytesPerSector.toNat * 16
  copies : bpb.sectorsPerFat.toNat = 0 ∨ bpb.numFats = 2

theorem workable_iff {bpb : BPB} (hbytes : bpb.bytesPerSector ≠ 0) : bpb.Workable ↔
    RegionsSound bpb bpb.mountInfo ∧
      ∀ t : FsState Disk, t.mountInfo = bpb.mountInfo → SyncsCopies bpb t := by
  rw [regionsSound_iff]
  constructor
  · rintro ⟨hentries, hcopies⟩
    refine ⟨hentries, fun t ht ↦ ?_⟩
    rcases hcopies with hzero | htwo
    · -- without a FAT there is nothing to write
      have hnone : t.mountInfo.sectorsPerFat.toNat = 0 := by rw [ht]; exact hzero
      refine ⟨fun lba hlba ↦ ?_, fun k _ a ha ↦ by omega⟩
      obtain ⟨i, hi, -⟩ := mem_syncFat_log.mp hlba
      omega
    · exact syncsCopies_of_two hbytes ht htwo
  · rintro ⟨hentries, hsync⟩
    refine ⟨hentries, ?_⟩
    by_cases hzero : bpb.sectorsPerFat.toNat = 0
    · exact Or.inl hzero
    · exact Or.inr (two_of_syncsCopies hbytes hsync hzero)

-- The call as it goes on the parameter block of the disk.
theorem fat12Init_eq (s : FsState Disk) (page : Bool) : fat12Init s page =
    if memcmp (BPB.ofDisk s).filesystemType fat12Signature 8 ≠ 0 then some (s.readToBuffer 0, -1)
    else if (BPB.ofDisk s).bytesPerSector = 0 then none
    else if page then some (mountFrom s, 0)
    else some ({ s.readToBuffer 0 with mountInfo := (BPB.ofDisk s).mountInfo }, -1) := rfl

/-- A boot sector is handled exactly when `fat12_init` turns it down by its type string, or when it has
a sector size and either no page is left for the FAT or its geometry is workable. -/
theorem bootSectorHandled_iff (s : FsState Disk) (page : Bool) : BootSectorHandled s page ↔
    memcmp (BPB.ofDisk s).filesystemType fat12Signature 8 ≠ 0 ∨
      (BPB.ofDisk s).bytesPerSector ≠ 0 ∧ (page = false ∨ (BPB.ofDisk s).Workable) := by
  unfold BootSectorHandled
  rw [fat12Init_eq]
  by_cases hsig : memcmp (BPB.ofDisk s).filesystemType fat12Signature 8 ≠ 0
  · simp [hsig]
  rw [if_neg hsig]
  by_cases hbytes : (BPB.ofDisk s).bytesPerSector = 0
  · rw [if_pos hbytes]
    simp [hsig, hbytes]
  rw [if_neg hbytes]
  cases page with
  | false => exact iff_of_true (Or.inl ⟨_, rfl⟩) (Or.inr ⟨hbytes, Or.inl rfl⟩)
  | true =>
    have hmount : (mountFrom s).mountInfo = (BPB.ofDisk s).mountInfo := (loadFat_spec _).mountInfo
    rw [workable_iff hbytes, ← hmount]
    constructor
    · rintro (⟨s₁, hfail⟩ | ⟨s₁, hinit, hregions, hsync⟩)
      · cases hfail
      · cases hinit
        exact Or.inr ⟨hbytes, Or.inr ⟨hregions, hsync⟩⟩
    · rintro (hnot | ⟨-, hpage | hwork⟩)
      · exact absurd hnot hsig
      · cases hpage
      · exact Or.inr ⟨_, rfl, hwork⟩

/-- The image of the boot sector with a third copy of the FAT. -/
def threeFats : FsState Disk :=
  { blankVolume with
    disk := ⟨Function.update (fun _ _ ↦ 0) 0 (Function.update bootSector 0x10 3)⟩ }

/-- `fat12_init` mounts it, and `sync_fat` never writes the third copy. -/
theorem not_bootSectorHandled_threeFats : ¬ ∀ s page, BootSectorHandled s page := by
  intro h
  have hinit : fat12Init threeFats true = some (mountFrom threeFats, 0) :=
    (fat12Init_eq_zero_iff _ _ _).mpr ⟨by decide +kernel, by decide +kernel, rfl, rfl⟩
  rcases h threeFats true with ⟨s₁, hfail⟩ | ⟨s₁, hmount, -, hsync⟩
  · rw [hinit, Option.some.injEq, Prod.mk.injEq] at hfail
    exact absurd hfail.2 (by decide)
  · have hmounted := mounted_of_init hmount
    rw [hmounted.mountInfo] at hsync
    have htwo := two_of_syncsCopies hmounted.bytesPerSector hsync (by decide +kernel)
    revert htwo
    decide +kernel

end TenOs.Fs
