import TenOs.Fs.Fat

/-!
# Clusters that exist

`find_free_cluster` goes up to cluster 4083 on every volume.  Which clusters a volume really has
follows from its boot sector: the entry must lie in the FAT that was loaded, and the sectors below the
volume's end.
-/

namespace TenOs.Fs

open TenOs.Base TenOs.Lib

/-- The number of sectors of a volume: `total_sectors_small`, or `total_sectors_large` where that is
0. -/
def totalSectors (b : Bytes) : Nat :=
  if read16 b 0x13 = 0 then (read32 b 0x20).toNat else (read16 b 0x13).toNat

/-- The entry of `c` lies in the `sectors_per_fat * 512` bytes of the FAT, and the sectors of `c` lie
below the end of the volume with boot sector `b`. -/
structure ClusterExists (b : Bytes) (c : u16) : Prop where
  entry : fatOffset c + 1 < (BPB.ofSector b).sectorsPerFat.toNat * 512
  sectors : ∀ k < (BPB.ofSector b).sectorsPerCluster.toNat,
    (BPB.ofSector b).mountInfo.dataStart.toNat +
      (c.toNat - 2) * (BPB.ofSector b).sectorsPerCluster.toNat + k < totalSectors b

/-- A cluster that `find_free_cluster` returns exists. -/
def FindsExisting (b fat : Bytes) : Prop :=
  findFreeCluster fat ≠ 0 → ClusterExists b (findFreeCluster fat)

-- The entries and the sectors of the clusters are in ascending order.
theorem ClusterExists.of_le {b : Bytes} {c d : u16} (h : ClusterExists b d)
    (hle : c.toNat ≤ d.toNat) : ClusterExists b c := by
  have hentry := h.entry
  refine ⟨?_, fun k hk ↦ ?_⟩
  · unfold fatOffset at hentry ⊢
    omega
  · have hmul := Nat.mul_le_mul_right (BPB.ofSector b).sectorsPerCluster.toNat
      (Nat.sub_le_sub_right hle 2)
    have hsector := h.sectors k hk
    omega

/-- On a given FAT: the least free cluster exists, when any free one does. -/
theorem findsExisting_iff (b fat : Bytes) : FindsExisting b fat ↔
    (∀ c, ¬ FreeCluster fat c) ∨ ∃ c, FreeCluster fat c ∧ ClusterExists b c := by
  unfold FindsExisting
  constructor
  · intro h
    by_cases hzero : findFreeCluster fat = 0
    · exact Or.inl ((findFreeCluster_eq_zero_iff fat).mp hzero)
    · exact Or.inr ⟨_, freeCluster_findFreeCluster hzero, h hzero⟩
  · rintro (hnone | ⟨c, hfree, hexists⟩) hne
    · exact absurd ((findFreeCluster_eq_zero_iff fat).mpr hnone) hne
    · rcases findFreeCluster_spec fat with ⟨hzero, -⟩ | ⟨-, hleast⟩
      · exact absurd hzero hne
      · exact hexists.of_le (hleast c hfree)

/-! ## A FAT with few free clusters -/

/-- A FAT whose bytes below `n` are all ones and whose bytes from `n` on are 0. -/
def filledFat (n : Nat) : Bytes := fun i ↦ if i < n then 0xFF else 0

-- An entry that starts with a byte of ones is not free, one behind them is.
theorem filledFat_free_iff (n : Nat) (c : u16) :
    getNextCluster (filledFat n) c = FAT12_FREE ↔ n ≤ fatOffset c := by
  have hfree : FAT12_FREE.toNat = 0 := rfl
  rw [← BitVec.toNat_inj, getNextCluster_toNat, hfree]
  by_cases hlt : fatOffset c < n
  · have hones : (filledFat n (fatOffset c)).toNat = 255 := by
      unfold filledFat
      rw [if_pos hlt]
      rfl
    rw [hones]
    split <;> omega
  · have hzero {i : Nat} (hi : fatOffset c ≤ i) : (filledFat n i).toNat = 0 := by
      unfold filledFat
      rw [if_neg (by omega)]
      rfl
    rw [hzero (Nat.le_refl _), hzero (Nat.le_succ _)]
    split <;> simp [Nat.le_of_not_lt hlt]

theorem freeCluster_filledFat_iff (n : Nat) (c : u16) :
    FreeCluster (filledFat n) c ↔ 2 ≤ c.toNat ∧ c.toNat < 4084 ∧ n ≤ fatOffset c := by
  rw [FreeCluster, filledFat_free_iff]

/-! ## The geometry -/

theorem clusterExists_last_iff (b : Bytes) : ClusterExists b 4083 ↔
    12 ≤ (BPB.ofSector b).sectorsPerFat.toNat ∧ ((BPB.ofSector b).sectorsPerCluster.toNat = 0 ∨
      (BPB.ofSector b).mountInfo.dataStart.toNat +
        4082 * (BPB.ofSector b).sectorsPerCluster.toNat ≤ totalSectors b) := by
  have hlast : (4083 : u16).toNat = 4083 := rfl
  have hoffset : fatOffset 4083 = 6124 := rfl
  constructor
  · intro h
    have hentry := h.entry
    rw [hoffset] at hentry
    refine ⟨by omega, ?_⟩
    by_cases hzero : (BPB.ofSector b).sectorsPerCluster.toNat = 0
    · exact Or.inl hzero
    · have hsector := h.sectors ((BPB.ofSector b).sectorsPerCluster.toNat - 1) (by omega)
      rw [hlast] at hsector
      exact Or.inr (by omega)
  · rintro ⟨hfat, hdata⟩
    refine ⟨by rw [hoffset]; omega, fun k hk ↦ ?_⟩
    rw [hlast]
    omega

/-- On a given FAT the clusters that are found exist as long as an existing one is free, or none is.
On every FAT they do exactly when the volume has cluster 4083. -/
theorem findsExisting_geometry (b : Bytes) :
    (∀ fat, FindsExisting b fat ↔
      (∀ c, ¬ FreeCluster fat c) ∨ ∃ c, FreeCluster fat c ∧ ClusterExists b c) ∧
    ((∀ fat, FindsExisting b fat) ↔ 12 ≤ (BPB.ofSector b).sectorsPerFat.toNat ∧
      ((BPB.ofSector b).sectorsPerCluster.toNat = 0 ∨
        (BPB.ofSector b).mountInfo.dataStart.toNat +
          4082 * (BPB.ofSector b).sectorsPerCluster.toNat ≤ totalSectors b)) := by
  refine ⟨findsExisting_iff b, ?_⟩
  rw [← clusterExists_last_iff]
  constructor
  · intro h
    -- the FAT on which 4083 is the only free cluster
    have hfree : FreeCluster (filledFat 6124) 4083 :=
      (freeCluster_filledFat_iff 6124 4083).mpr (by decide)
    rcases (findsExisting_iff b _).mp (h (filledFat 6124)) with hnone | ⟨c, hc, hexists⟩
    · exact absurd hfree (hnone 4083)
    · have hc := (freeCluster_filledFat_iff 6124 c).mp hc
      have hoffset : fatOffset c = c.toNat + c.toNat / 2 := rfl
      have hle : (4083 : u16).toNat ≤ c.toNat := by
        change 4083 ≤ _
        omega
      exact hexists.of_le hle
  · intro h fat
    rw [findsExisting_iff]
    by_cases hnone : ∀ c, ¬ FreeCluster fat c
    · exact Or.inl hnone
    · obtain ⟨c, hc⟩ := not_forall_not.mp hnone
      refine Or.inr ⟨c, hc, h.of_le ?_⟩
      have hlt := hc.2.1
      change _ ≤ 4083
      omega

/-! ## A floppy disk -/

/-- The first 62 bytes of the boot sector of a 1.44 MB floppy disk. -/
def floppySector : Bytes := fun i ↦
  [0xEB, 0x3C, 0x90, 0x4D, 0x53, 0x44, 0x4F, 0x53, 0x35, 0x2E, 0x30, 0x00, 0x02, 0x01, 0x01, 0x00,
    0x02, 0xE0, 0x00, 0x40, 0x0B, 0xF0, 0x09, 0x00, 0x12, 0x00, 0x02, 0x00, 0x00, 0x00, 0x00, 0x00,
    0x00, 0x00, 0x00, 0x00, 0x00, 0x00, 0x29, 0x78, 0x56, 0x34, 0x12, 0x4E, 0x4F, 0x20, 0x4E, 0x41,
    0x4D, 0x45, 0x20, 0x20, 0x20, 0x20, 0x46, 0x41, 0x54, 0x31, 0x32, 0x20, 0x20, 0x20].getD i 0

def floppy : FsState Drivers.Disk :=
  { blankVolume with disk := ⟨Function.update (fun _ _ ↦ 0) 0 floppySector⟩ }

/-- On a floppy disk with its clusters 2 to 2848 in use, `find_free_cluster` returns 2849, whose
sector is the first one behind the end. -/
theorem not_findsExisting_floppy : ¬ ∀ (s s₁ : FsState Drivers.Disk) (page : Bool),
    fat12Init s page = some (s₁, 0) → (BPB.ofDisk s).bytesPerSector = 512 →
      ∀ fat, FindsExisting (s.readToBuffer 0).sectorBuffer fat := by
  intro h
  have hinit : fat12Init floppy true = some (mountFrom floppy, 0) :=
    (fat12Init_eq_zero_iff _ _ _).mpr ⟨by decide +kernel, by decide +kernel, rfl, rfl⟩
  have hfree : FreeCluster (filledFat 4273) 2849 :=
    (freeCluster_filledFat_iff 4273 2849).mpr (by decide)
  have hall := h floppy _ true hinit (by decide +kernel) (filledFat 4273)
  rcases (findsExisting_iff _ _).mp hall with hnone | ⟨c, hc, hexists⟩
  · exact hnone 2849 hfree
  · have hc := (freeCluster_filledFat_iff 4273 c).mp hc
    have hoffset : fatOffset c = c.toNat + c.toNat / 2 := rfl
    have hle : (2849 : u16).toNat ≤ c.toNat := by
      change 2849 ≤ _
      omega
    have hsector := (hexists.of_le hle).sectors 0 (by decide +kernel)
    revert hsector
    decide +kernel

end TenOs.Fs
