import TenOs.Fs.Fat

/-!
# The page of the cached FAT

`fat12_init` loads the FAT into one page.  This file works out which bytes from `fat_buffer` on the
driver touches: the 12-bit entries alone reach past the page.
-/

namespace TenOs.Fs

open TenOs.Base TenOs.Lib TenOs.Drivers

def pageSize : Nat := 4096

/-- The memory from `fat_buffer` on after `fat12_init`, as a function of what it held before. -/
def initStores (s : FsState Disk) (fat : Bytes) : Bytes :=
  ((fat12Init { s with fatBuffer := fat } true).map fun r ↦ r.1.fatBuffer).getD fat

/-- The driver touches byte `a` from `fat_buffer` on: when it loads the FAT, or when it looks up or
changes the entry of a cluster that is not an end mark. -/
def TouchesCache (s : FsState Disk) (a : Nat) : Prop :=
  Writes (initStores s) a ∨ ∃ c : u16, c.toNat ≤ 0xFF7 ∧
    (Reads (fun fat ↦ getNextCluster fat c) a ∨
      ∃ value, Writes (fun fat ↦ setClusterValue fat c value) a)

/-- All of it lies in the page at `base`, so that no other page overlaps it. -/
def CacheFits (s : FsState Disk) (base : Nat) : Prop :=
  (∀ a, TouchesCache s a → a < pageSize) ∧
    ∀ p, p % pageSize = 0 → p ≠ base → ∀ a, TouchesCache s a →
      ¬ (p ≤ base + a ∧ base + a < p + pageSize)

/-! ## The entries -/

-- Both bytes matter: each has bits that the entry takes.
theorem reads_getNextCluster_iff (c : u16) (a : Nat) :
    Reads (fun fat ↦ getNextCluster fat c) a ↔ a = fatOffset c ∨ a = fatOffset c + 1 := by
  constructor
  · intro h
    by_contra hout
    refine not_reads_of_congr (p := fun a ↦ a = fatOffset c ∨ a = fatOffset c + 1) ?_ hout h
    intro m m' hagree
    apply BitVec.eq_of_toNat_eq
    rw [getNextCluster_toNat, getNextCluster_toNat, hagree _ (Or.inl rfl), hagree _ (Or.inr rfl)]
  · intro h
    -- `0x11` in either byte shows up in the entry, whichever half of the byte belongs to it
    refine ⟨fun _ ↦ 0, 0x11#8, fun heq ↦ ?_⟩
    have hval := congrArg BitVec.toNat heq
    have h17 : (0x11#8).toNat = 17 := rfl
    have h0 : (0 : u8).toNat = 0 := rfl
    rw [getNextCluster_toNat, getNextCluster_toNat] at hval
    rcases h with rfl | rfl
    · rw [Function.update_self, Function.update_of_ne (by omega), h17, h0] at hval
      split at hval <;> omega
    · rw [Function.update_self, Function.update_of_ne (by omega), h17, h0] at hval
      split at hval <;> omega

-- A value can be found that changes either byte.
theorem writes_setClusterValue_iff (c : u16) (a : Nat) :
    (∃ value, Writes (fun fat ↦ setClusterValue fat c value) a) ↔
      a = fatOffset c ∨ a = fatOffset c + 1 := by
  constructor
  · intro h
    obtain ⟨value, m, hne⟩ := h
    by_contra hout
    exact hne (setClusterValue_outside m c value (by omega))
  · intro h
    refine ⟨0xFFF#16, fun _ ↦ 0, fun heq ↦ ?_⟩
    obtain ⟨hlo, hhi⟩ := setClusterValue_bytes (fun _ ↦ 0) c 0xFFF#16
    have hfff : (0xFFF#16).toNat = 4095 := rfl
    have hword : (read16 (fun _ ↦ 0) (fatOffset c)).toNat = 0 := by rw [read16_toNat]; rfl
    change setClusterValue (fun _ ↦ 0) c 0xFFF#16 a = 0 at heq
    have hval : (setClusterValue (fun _ ↦ 0) c 0xFFF#16 a).toNat = 0 := congrArg BitVec.toNat heq
    by_cases hodd : c.toNat % 2 = 1
    · rw [decide_eq_true hodd, setWord_odd_toNat, hfff, hword] at hlo hhi
      rcases h with rfl | rfl <;> omega
    · rw [decide_eq_false hodd, setWord_even_toNat, hfff, hword] at hlo hhi
      rcases h with rfl | rfl <;> omega

/-- The entries of clusters 0 to `0xFF7` fill the first 6132 bytes. -/
theorem exists_cluster_iff (a : Nat) :
    (∃ c : u16, c.toNat ≤ 0xFF7 ∧ (a = fatOffset c ∨ a = fatOffset c + 1)) ↔ a < 6132 := by
  constructor
  · intro h
    obtain ⟨c, hc, ha⟩ := h
    unfold fatOffset at ha
    omega
  · intro h
    have hc : (BitVec.ofNat 16 (2 * a / 3)).toNat = 2 * a / 3 := by
      rw [BitVec.toNat_ofNat]
      omega
    refine ⟨BitVec.ofNat 16 (2 * a / 3), by omega, ?_⟩
    unfold fatOffset
    rw [hc]
    omega

/-! ## Loading -/

/-- The checks of `fat12_init` do not look at the cached FAT. -/
theorem initStores_eq {s s₁ : FsState Disk} (h : fat12Init s true = some (s₁, 0)) (fat : Bytes)
    (a : Nat) : initStores s fat a =
      if a < 512 * s₁.mountInfo.sectorsPerFat.toNat then
        s.disk.sector (lba28 (fatLba s₁.mountInfo (a / 512))) (a % 512)
      else fat a := by
  obtain ⟨hsig, hbps, -, -⟩ := (fat12Init_eq_zero_iff s s₁ true).mp h
  have hacc : fat12Init { s with fatBuffer := fat } true =
      some (mountFrom { s with fatBuffer := fat }, 0) :=
    (fat12Init_eq_zero_iff _ _ _).mpr ⟨hsig, hbps, rfl, rfl⟩
  have hload := (fatBuffer_of_init hacc).2 a
  have hmount : (mountFrom { s with fatBuffer := fat }).mountInfo = s₁.mountInfo :=
    (mounted_of_init hacc).mountInfo.trans (mounted_of_init h).mountInfo.symm
  rw [hmount] at hload
  rw [initStores, hacc]
  exact hload

theorem writes_initStores_iff {s s₁ : FsState Disk} (h : fat12Init s true = some (s₁, 0)) (a : Nat) :
    Writes (initStores s) a ↔ a < 512 * s₁.mountInfo.sectorsPerFat.toNat := by
  constructor
  · intro hw
    obtain ⟨fat, hne⟩ := hw
    by_contra hout
    exact hne (by rw [initStores_eq h, if_neg hout])
  · intro hin
    -- a memory that holds the complement of the byte that is loaded
    let x := s.disk.sector (lba28 (fatLba s₁.mountInfo (a / 512))) (a % 512)
    refine ⟨fun _ ↦ ~~~x, fun heq ↦ ?_⟩
    rw [initStores_eq h, if_pos hin] at heq
    have hx : (~~~x).toNat = x.toNat := congrArg BitVec.toNat heq.symm
    have hlt := x.isLt
    rw [BitVec.toNat_not] at hx
    omega

/-! ## The whole footprint -/

theorem touchesCache_iff {s s₁ : FsState Disk} (h : fat12Init s true = some (s₁, 0)) (a : Nat) :
    TouchesCache s a ↔ a < 512 * s₁.mountInfo.sectorsPerFat.toNat ∨ a < 6132 := by
  have hentry (c : u16) : (Reads (fun fat ↦ getNextCluster fat c) a ∨
      ∃ value, Writes (fun fat ↦ setClusterValue fat c value) a) ↔
        a = fatOffset c ∨ a = fatOffset c + 1 := by
    rw [reads_getNextCluster_iff, writes_setClusterValue_iff, or_self]
  unfold TouchesCache
  simp only [hentry, exists_cluster_iff, writes_initStores_iff h]

/-- Byte 6131 belongs to cluster `0xFF7`, so the cached FAT never fits the page: the next page
overlaps it. -/
theorem not_cacheFits {s s₁ : FsState Disk} (h : fat12Init s true = some (s₁, 0)) (base : Nat) :
    ¬ CacheFits s base := by
  intro hfits
  have htouch := (touchesCache_iff h 6131).mpr (Or.inr (by decide))
  have hlt := hfits.1 6131 htouch
  exact absurd hlt (by decide)

theorem not_cacheFits_blankVolume : ¬ CacheFits blankVolume 0xC0500000 :=
  not_cacheFits fat12Init_blankVolume 0xC0500000

/-- On the boot image, whose FAT has 272 sectors, the page after the one of the cached FAT is
overwritten while the FAT is loaded. -/
theorem cache_overlaps_blankVolume : fat12Init blankVolume true = some (mountFrom blankVolume, 0) ∧
    Writes (initStores blankVolume) pageSize ∧ ¬ CacheFits blankVolume 0xC0500000 := by
  have hspf : (mountFrom blankVolume).mountInfo.sectorsPerFat.toNat = 272 := by
    rw [(mounted_of_init fat12Init_blankVolume).mountInfo]
    decide +kernel
  have hwrite : Writes (initStores blankVolume) pageSize := by
    rw [writes_initStores_iff fat12Init_blankVolume, hspf]
    decide
  exact ⟨fat12Init_blankVolume, hwrite, fun hfits ↦
    absurd (hfits.1 pageSize (Or.inl hwrite)) (by decide)⟩

end TenOs.Fs
