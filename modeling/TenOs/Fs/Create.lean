import TenOs.Fs.File

/-!
# Creating a file

What `fat12_create` does to the cached FAT, to the two FAT copies and to the root directory.  The
allocation loop marks a cluster that is not the last one with 0, which leaves it free, so every
further turn finds the same cluster again: whatever the size, the new file gets one cluster.
-/

namespace TenOs.Fs

open TenOs.Base TenOs.Lib TenOs.Drivers

/-! ## The allocation loop -/

/-- The FAT after one cluster `c` was taken and given the end mark. -/
def TookCluster (c : u16) (fat fat' : Bytes) : Prop :=
  getNextCluster fat' c = FAT12_EOF ∧ ∀ d, d ≠ c → getNextCluster fat' d = getNextCluster fat d

theorem getNextCluster_set_eof (fat : Bytes) (c : u16) :
    getNextCluster (setClusterValue fat c FAT12_EOF) c = FAT12_EOF :=
  BitVec.eq_of_toNat_eq (getNextCluster_set_self fat c FAT12_EOF)

theorem getNextCluster_set_free (fat : Bytes) (c : u16) :
    getNextCluster (setClusterValue fat c 0) c = FAT12_FREE :=
  BitVec.eq_of_toNat_eq (getNextCluster_set_self fat c 0)

theorem ofNat_eq_sub_one_iff (needed : u32) (i : Nat) (h : i < needed.toNat) :
    BitVec.ofNat 32 i = needed - 1 ↔ i + 1 = needed.toNat := by
  have hn := needed.isLt
  have h1 : (1 : u32).toNat = 1 := rfl
  rw [← BitVec.toNat_inj, BitVec.toNat_ofNat, BitVec.toNat_sub, h1]
  omega

/-- From turn `i` on, with `c` the cluster every turn finds: the invariant is that all entries are as
they were before the loop, `c` being free. -/
theorem allocateClusters_loop (needed : u32) (fat : Bytes) {c : u16}
    (hc : findFreeCluster fat = c) (hne : c ≠ 0) (k i : Nat) (hk : i + (k + 1) = needed.toNat)
    (fat₁ : Bytes) (hsame : ∀ d, getNextCluster fat₁ d = getNextCluster fat d)
    (first prev : u16) (hfirst : i ≠ 0 → first = c ∧ prev = c) :
    ∃ fat', allocateClusters needed (k + 1) i fat₁ first prev = (fat', some c) ∧
      TookCluster c fat fat' := by
  have hfree : getNextCluster fat c = FAT12_FREE := by
    rw [← hc] at hne ⊢
    exact (freeCluster_findFreeCluster hne).2.2
  induction k generalizing i fat₁ first prev with
  | zero =>
    have hfind : findFreeCluster fat₁ = c := (findFreeCluster_congr hsame).trans hc
    have hlast := (ofNat_eq_sub_one_iff needed i (by omega)).mpr (by omega)
    -- linking the previous cluster is the identity on entries: it is `c`, and `c` is set next
    rw [allocateClusters, hfind, if_neg hne, if_pos hlast, allocateClusters]
    by_cases hi : i = 0
    · rw [if_pos hi, if_pos hi]
      exact ⟨_, rfl, getNextCluster_set_eof _ _,
        fun d hd ↦ by rw [getNextCluster_set_other _ _ hd, hsame]⟩
    · obtain ⟨rfl, rfl⟩ := hfirst hi
      rw [if_neg hi, if_neg hi]
      exact ⟨_, rfl, getNextCluster_set_eof _ _, fun d hd ↦ by
        rw [getNextCluster_set_other _ _ hd, getNextCluster_set_other _ _ hd, hsame]⟩
  | succ k ih =>
    have hfind : findFreeCluster fat₁ = c := (findFreeCluster_congr hsame).trans hc
    have hnotlast : ¬ BitVec.ofNat 32 i = needed - 1 := fun h ↦ by
      have := (ofNat_eq_sub_one_iff needed i (by omega)).mp h
      omega
    rw [allocateClusters, hfind, if_neg hne, if_neg hnotlast]
    -- the mark 0 leaves `c` free, so the entries are again those before the loop
    apply ih (i + 1) (by omega)
    · intro d
      by_cases hd : d = c
      · rw [hd, getNextCluster_set_free, hfree]
      · rw [getNextCluster_set_other _ _ hd]
        split
        · exact hsame d
        · rename_i hi
          rw [(hfirst hi).2, getNextCluster_set_other _ _ hd, hsame]
    · intro _
      refine ⟨?_, rfl⟩
      split
      · rfl
      · rename_i hi
        exact (hfirst hi).1

/-- The loop either takes no cluster, or fails at its first turn, or takes exactly the first free
cluster. -/
theorem allocateClusters_spec (needed : u32) (fat : Bytes) :
    (needed = 0 ∧ allocateClusters needed needed.toNat 0 fat 0 0 = (fat, some 0)) ∨
      (needed ≠ 0 ∧ findFreeCluster fat = 0 ∧
        allocateClusters needed needed.toNat 0 fat 0 0 = (fat, none)) ∨
      (needed ≠ 0 ∧ findFreeCluster fat ≠ 0 ∧
        ∃ fat', allocateClusters needed needed.toNat 0 fat 0 0 = (fat', some (findFreeCluster fat)) ∧
          TookCluster (findFreeCluster fat) fat fat') := by
  by_cases hzero : needed = 0
  · subst hzero
    exact Or.inl ⟨rfl, rfl⟩
  have hpos : needed.toNat ≠ 0 := fun h ↦ hzero (BitVec.eq_of_toNat_eq h)
  obtain ⟨k, hk⟩ := Nat.exists_eq_succ_of_ne_zero hpos
  by_cases hfind : findFreeCluster fat = 0
  · refine Or.inr (Or.inl ⟨hzero, hfind, ?_⟩)
    rw [hk, allocateClusters, if_pos hfind]
  · refine Or.inr (Or.inr ⟨hzero, hfind, ?_⟩)
    rw [hk]
    exact allocateClusters_loop needed fat rfl hfind k 0 (by omega) fat (fun _ ↦ rfl) 0 0
      fun h ↦ absurd rfl h

/-! ## Writing the FAT back -/

/-- The two copies of the FAT lie below sector `2 ^ 28`: their LBAs reach the drive unchanged. -/
theorem Mounted.fat_bound {bpb : BPB} {s : FsState Disk} (h : Mounted bpb s) :
    s.mountInfo.fatStart.toNat + 2 * s.mountInfo.sectorsPerFat.toNat < 2 ^ 18 := by
  have h1 := bpb.reservedSectors.isLt
  have h2 := bpb.sectorsPerFat.isLt
  rw [h.mountInfo, BPB.fatStart_toNat]
  change _ + 2 * bpb.sectorsPerFat.toNat < _
  omega

-- The sums do not wrap, so the LBAs are the numbers they look like.
theorem Mounted.fatLba_eq {bpb : BPB} {s : FsState Disk} (h : Mounted bpb s) {i : Nat}
    (hi : i < s.mountInfo.sectorsPerFat.toNat) :
    lba28 (fatLba s.mountInfo i) = s.mountInfo.fatStart.toNat + i ∧
      lba28 (fatCopyLba s.mountInfo i) =
        s.mountInfo.fatStart.toNat + s.mountInfo.sectorsPerFat.toNat + i := by
  have hb := h.fat_bound
  have hs := s.mountInfo.sectorsPerFat.isLt
  constructor
  · rw [lba28_eq_mod, fatLba, BitVec.toNat_add, BitVec.toNat_ofNat]
    omega
  · rw [lba28_eq_mod, fatCopyLba, BitVec.toNat_add, BitVec.toNat_add, BitVec.toNat_ofNat,
      BitVec.toNat_setWidth]
    omega

/-- Behind two copies of the FAT comes the root directory. -/
theorem Mounted.rootStart_eq {bpb : BPB} {s : FsState Disk} (h : Mounted bpb s)
    (hfats : bpb.numFats = 2) : s.mountInfo.rootStart.toNat =
      s.mountInfo.fatStart.toNat + 2 * s.mountInfo.sectorsPerFat.toNat := by
  have htwo : bpb.numFats.toNat = 2 := by rw [hfats]; rfl
  rw [h.mountInfo, bpb.rootStart_toNat, bpb.fatStart_toNat, htwo]
  rfl

theorem Mounted.ne_fatLba {bpb : BPB} {s : FsState Disk} (h : Mounted bpb s)
    (hfats : bpb.numFats = 2) {l : Nat} (hl : s.mountInfo.rootStart.toNat ≤ l) {i : Nat}
    (hi : i < s.mountInfo.sectorsPerFat.toNat) :
    lba28 (fatLba s.mountInfo i) ≠ l ∧ lba28 (fatCopyLba s.mountInfo i) ≠ l := by
  have hlba := h.fatLba_eq hi
  have hroot := h.rootStart_eq hfats
  omega

/-- Sector `i` of both copies holds bytes `512 * i, …` of `fat`. -/
def FatSectorStored (mountInfo : FAT12MountInfo) (fat : Bytes) (disk : Disk) (i : Nat) : Prop :=
  ∀ a < 512, disk.sector (lba28 (fatLba mountInfo i)) a = fat (i * 512 + a) ∧
    disk.sector (lba28 (fatCopyLba mountInfo i)) a = fat (i * 512 + a)

/-- What `sync_fat` has done after `i` turns. -/
structure Synced (s : FsState Disk) (i : Nat) (t : FsState Disk) : Prop where
  mountInfo : t.mountInfo = s.mountInfo
  fatBuffer : t.fatBuffer = s.fatBuffer
  stored : ∀ j < i, FatSectorStored s.mountInfo s.fatBuffer t.disk j
  outside : ∀ l, l < s.mountInfo.fatStart.toNat ∨
    s.mountInfo.fatStart.toNat + 2 * s.mountInfo.sectorsPerFat.toNat ≤ l →
      t.disk.sector l = s.disk.sector l

-- Turn by turn: sector `i` of both copies, and nothing else.
theorem syncFat_spec {bpb : BPB} {s : FsState Disk} (h : Mounted bpb s) :
    Synced s s.mountInfo.sectorsPerFat.toNat (syncFat s) := by
  have hstart : Synced s 0 s := ⟨rfl, rfl, fun j hj ↦ absurd hj (Nat.not_lt_zero j), fun _ _ ↦ rfl⟩
  have hturn (i : Nat) (t : FsState Disk) (hi : i < s.mountInfo.sectorsPerFat.toNat)
      (ht : Synced s i t) : Synced s (i + 1) (syncTurn i t) := by
    obtain ⟨hfst, hsnd⟩ := h.fatLba_eq hi
    have hdiff : lba28 (fatLba s.mountInfo i) ≠ lba28 (fatCopyLba s.mountInfo i) := by omega
    refine ⟨ht.mountInfo, ht.fatBuffer, fun j hj a ha ↦ ?_, fun l hl ↦ ?_⟩
    · simp only [syncTurn, ht.mountInfo, ht.fatBuffer]
      rcases Nat.lt_succ_iff_lt_or_eq.mp hj with hj | rfl
      · obtain ⟨hfst', hsnd'⟩ := h.fatLba_eq (Nat.lt_trans hj hi)
        rw [writeSector_other _ _ _ _ (by omega), writeSector_other _ _ _ _ (by omega),
          writeSector_other _ _ _ _ (by omega), writeSector_other _ _ _ _ (by omega)]
        exact ht.stored j hj a ha
      · exact ⟨by rw [writeSector_other _ _ _ _ hdiff, writeSector_same _ _ _ _ ha],
          writeSector_same _ _ _ _ ha⟩
    · simp only [syncTurn, ht.mountInfo, ht.fatBuffer]
      rw [writeSector_other _ _ _ _ (by omega), writeSector_other _ _ _ _ (by omega)]
      exact ht.outside l hl
  have hrun : Synced s (0 + s.mountInfo.sectorsPerFat.toNat) (syncFat s) :=
    forLoop_inv (Synced s) hstart fun i t _ hi ht ↦ hturn i t (by omega) ht
  rwa [Nat.zero_add] at hrun

/-- `sync_fat` does not depend on the sector buffer. -/
theorem SameVolume.syncFat {s t : FsState Disk} (h : SameVolume s t) :
    SameVolume (syncFat s) (syncFat t) := by
  have hloop (n i : Nat) (s t : FsState Disk) (h : SameVolume s t) :
      SameVolume (forLoop syncTurn n i s) (forLoop syncTurn n i t) := by
    induction n generalizing i s t with
    | zero => exact h
    | succ n ih =>
      apply ih
      refine ⟨?_, h.mountInfo, h.fatBuffer⟩
      simp only [syncTurn, h.disk, h.mountInfo, h.fatBuffer]
  unfold Fs.syncFat
  rw [h.mountInfo]
  exact hloop _ _ _ _ h

/-! ## The directory entry -/

theorem fillEntry_outside (b : Bytes) {i a : Nat} (name : Bytes) (first : u16) (size : u32)
    (h : a < 32 * i ∨ 32 * i + 32 ≤ a) : fillEntry b i name first size a = b a := by
  unfold fillEntry memcpy
  rw [write32_outside _ _ (by omega), write16_outside _ _ (by omega),
    Function.update_of_ne (by omega), copyCells_outside _ _ (by omega)]

/-- The entry of the new file. -/
def newEntry (name : DosName) (first : u16) (size : u32) : DirectoryEntry :=
  { name, attributes := ATTR_ARCHIVE, firstCluster := first, fileSize := size }

-- The four fields are written to places of their own.
theorem entryAt_fillEntry_self (b : Bytes) (i : Nat) (filename : CString) (first : u16)
    (size : u32) : entryAt (fillEntry b i (toDosFilename filename fun _ ↦ 0) first size) i =
      newEntry (dosName filename) first size := by
  have hname : (entryAt (fillEntry b i (toDosFilename filename fun _ ↦ 0) first size) i).name =
      dosName filename := by
    funext k
    have hk := k.isLt
    change fillEntry b i _ first size (32 * i + k) = _
    unfold fillEntry memcpy
    rw [write32_outside _ _ (by omega), write16_outside _ _ (by omega),
      Function.update_of_ne (by omega), copyCells_inside _ _ hk, Nat.zero_add]
    rfl
  have hattr : fillEntry b i (toDosFilename filename fun _ ↦ 0) first size (32 * i + 11) =
      ATTR_ARCHIVE := by
    unfold fillEntry
    rw [write32_outside _ _ (by omega), write16_outside _ _ (by omega), Function.update_self]
  have hfirst : read16 (fillEntry b i (toDosFilename filename fun _ ↦ 0) first size)
      (32 * i + 26) = first := by
    unfold fillEntry
    rw [read16_congr fun a h1 h2 ↦ write32_outside _ _ (by omega), read16_write16]
  have hsize : read32 (fillEntry b i (toDosFilename filename fun _ ↦ 0) first size)
      (32 * i + 28) = size := read32_write32 _ _ _
  exact DirectoryEntry.ext hname hattr hfirst hsize

theorem fillEntry_congr {b b' : Bytes} {i : Nat} (name : Bytes) (first : u16) (size : u32) {a : Nat}
    (h : b a = b' a) : fillEntry b i name first size a = fillEntry b' i name first size a := by
  unfold fillEntry write32 memcpy
  simp only [write16_apply, Function.update_apply, copyCells_apply, h]

/-- `storeEntry` rewrites one entry of one sector. -/
theorem storeEntry_spec (s : FsState Disk) (n : Nat) (name : Bytes) (first : u16) (size : u32) :
    let t := storeEntry s (n / 16) (n % 16) name first size
    t.mountInfo = s.mountInfo ∧ t.fatBuffer = s.fatBuffer ∧
      (∀ l, l ≠ lba28 (s.mountInfo.rootStart + BitVec.ofNat 32 (n / 16)) →
        t.disk.sector l = s.disk.sector l) ∧
      ∀ a < 512, rootSector t (n / 16) a =
        fillEntry (rootSector s (n / 16)) (n % 16) name first size a := by
  refine ⟨rfl, rfl, fun l hl ↦ writeSector_other _ _ _ _ hl, fun a ha ↦ ?_⟩
  have hread := readSector_inside s.disk (s.mountInfo.rootStart + BitVec.ofNat 32 (n / 16))
    s.sectorBuffer 0 ha
  have hwrite := writeSector_same s.disk (s.mountInfo.rootStart + BitVec.ofNat 32 (n / 16))
    (fillEntry (s.readToBuffer (s.mountInfo.rootStart + BitVec.ofNat 32 (n / 16))).sectorBuffer
      (n % 16) name first size) 0 ha
  rw [Nat.zero_add] at hread hwrite
  exact hwrite.trans (fillEntry_congr name first size hread)

/-! ## What the call does -/

theorem clustersNeeded_toNat {size : u32} (h : size.toNat ≤ 2 ^ 32 - 512) :
    ((size + 511#32) / 512#32).toNat = (size.toNat + 511) / 512 := by
  have h511 : (511#32).toNat = 511 := rfl
  have h512 : (512#32).toNat = 512 := rfl
  rw [BitVec.toNat_udiv, BitVec.toNat_add, h511, h512, Nat.mod_eq_of_lt (by omega)]

theorem clustersNeeded_ne_zero {size : u32} (hsize : 1 ≤ size.toNat)
    (hmax : size.toNat ≤ 2 ^ 32 - 512) : (size + 511#32) / 512#32 ≠ 0 := by
  intro hzero
  have hnat := clustersNeeded_toNat hmax
  rw [hzero] at hnat
  change 0 = _ at hnat
  omega

/-- The FAT after a successful call: unchanged when no cluster is needed, else with the first free
cluster taken. -/
def Allocated (size : u32) (fat fat' : Bytes) (first : u16) : Prop :=
  ((size + 511#32) / 512#32 = 0 ∧ fat' = fat ∧ first = 0) ∨
    ((size + 511#32) / 512#32 ≠ 0 ∧ first = findFreeCluster fat ∧ first ≠ 0 ∧
      TookCluster first fat fat')

/-- What a successful call leaves, with the new file in slot `n`: the FAT written back and one
sector of the root directory with one entry filled in. -/
structure Created (s : FsState Disk) (filename : CString) (size : u32) (n : Nat) (first : u16)
    (t : FsState Disk) : Prop where
  mountInfo : t.mountInfo = s.mountInfo
  allocated : Allocated size s.fatBuffer t.fatBuffer first
  other : ∀ l, l ≠ lba28 (s.mountInfo.rootStart + BitVec.ofNat 32 (n / 16)) →
    t.disk.sector l = (syncFat { s with fatBuffer := t.fatBuffer }).disk.sector l
  root : ∀ a < 512, rootSector t (n / 16) a =
    fillEntry (rootSector (syncFat { s with fatBuffer := t.fatBuffer }) (n / 16)) (n % 16)
      (toDosFilename filename fun _ ↦ 0) first size a

/-- When the call has nothing to do with the FAT or the directory and returns -1. -/
def CreateRefused (s : FsState Disk) (filename : CString) (size : u32) (page : Bool) : Prop :=
  (page = true ∧ lookup s (dosName filename) ≠ none) ∨ firstFreeSlot s = none ∨
    ((size + 511#32) / 512#32 ≠ 0 ∧ findFreeCluster s.fatBuffer = 0)

/-- The last part of the call, from a state that differs from `s` in the sector buffer. -/
theorem created_of_allocated {s t : FsState Disk} (hsame : SameVolume s t) (filename : CString)
    {size : u32} (n : Nat) {first : u16} {fat' : Bytes}
    (halloc : Allocated size s.fatBuffer fat' first) :
    Created s filename size n first
      (storeEntry (syncFat { t with fatBuffer := fat' }) (n / 16) (n % 16)
        (toDosFilename filename fun _ ↦ 0) first size) := by
  have hsync : SameVolume (syncFat { s with fatBuffer := fat' })
      (syncFat { t with fatBuffer := fat' }) :=
    SameVolume.syncFat ⟨hsame.disk, hsame.mountInfo, rfl⟩
  obtain ⟨hmount, hfat⟩ := syncFat_frame { t with fatBuffer := fat' }
  obtain ⟨hmount', hfat', hother, hroot⟩ := storeEntry_spec
    (syncFat { t with fatBuffer := fat' }) n (toDosFilename filename fun _ ↦ 0) first size
  have hfat₂ : (storeEntry (syncFat { t with fatBuffer := fat' }) (n / 16) (n % 16)
      (toDosFilename filename fun _ ↦ 0) first size).fatBuffer = fat' := hfat'.trans hfat
  refine ⟨(hmount'.trans hmount).trans hsame.mountInfo, by rwa [hfat₂], fun l hl ↦ ?_,
    fun a ha ↦ ?_⟩
  · rw [hfat₂, ← hsync.disk]
    apply hother
    rwa [hmount, hsame.mountInfo]
  · rw [hfat₂, hroot a ha]
    apply fillEntry_congr
    rw [rootSector, rootSector, hsync.disk, hsync.mountInfo]

/-- How the call ends once the name is known to be new and a slot is found. -/
theorem fat12Create_of_found {D : Type} [SectorDevice D] {s t : FsState D} {filename : CString}
    {page : Bool} (hopen : (fat12Open s filename page).2 = none) {k i : Nat}
    (hfind : findFreeDirEntry (fat12Open s filename page).1 = (t, some (k, i))) (size : u32) :
    fat12Create s filename size page =
      match allocateClusters ((size + 511#32) / 512#32) ((size + 511#32) / 512#32).toNat 0
        t.fatBuffer 0 0 with
      | (fat, none) => ({ t with fatBuffer := fat }, -1)
      | (fat, some first) => (storeEntry (syncFat { t with fatBuffer := fat }) k i
          (toDosFilename filename fun _ ↦ 0) first size, 0) := by
  unfold fat12Create
  simp only [hopen, hfind, Option.isSome_none, Bool.false_eq_true, if_false]
  rcases allocateClusters ((size + 511#32) / 512#32) ((size + 511#32) / 512#32).toNat 0
    t.fatBuffer 0 0 with ⟨fat, _ | first⟩
  · rfl
  · rfl

/-- `fat12_create` either is refused and changes nothing but the sector buffer, or fills the first
slot that is free. -/
theorem fat12Create_cases (s : FsState Disk) (filename : CString) (size : u32) (page : Bool) :
    (CreateRefused s filename size page ∧ (fat12Create s filename size page).2 = -1 ∧
        SameVolume s (fat12Create s filename size page).1) ∨
      (¬ CreateRefused s filename size page ∧ (fat12Create s filename size page).2 = 0 ∧
        ∃ n first, firstFreeSlot s = some n ∧
          Created s filename size n first (fat12Create s filename size page).1) := by
  obtain ⟨hopen, hhandle⟩ := fat12Open_spec s filename page
  obtain ⟨hfind, hslot⟩ := findFreeDirEntry_spec (fat12Open s filename page).1
  rw [hopen.sameRoot.firstFreeSlot] at hslot
  have hsame := hopen.trans hfind
  have hfound : (fat12Open s filename page).2.isSome = true ↔
      page = true ∧ lookup s (dosName filename) ≠ none := by
    rw [hhandle]
    cases page with
    | false => simp
    | true => rw [if_pos rfl, Option.isSome_map, Option.isSome_iff_ne_none]; simp
  by_cases hopened : (fat12Open s filename page).2.isSome = true
  · have heq : fat12Create s filename size page = ((fat12Open s filename page).1, -1) := by
      unfold fat12Create
      exact if_pos hopened
    rw [heq]
    exact Or.inl ⟨Or.inl (hfound.mp hopened), rfl, hopen⟩
  cases hn : firstFreeSlot s with
  | none =>
    have heq : fat12Create s filename size page =
        ((findFreeDirEntry (fat12Open s filename page).1).1, -1) := by
      unfold fat12Create
      simp only [if_neg hopened, hslot, hn, Option.map_none]
    rw [heq]
    exact Or.inl ⟨Or.inr (Or.inl hn), rfl, hsame⟩
  | some n =>
    rw [hn, Option.map_some] at hslot
    generalize hr : findFreeDirEntry (fat12Open s filename page).1 = r at hslot hsame
    obtain ⟨t, slot⟩ := r
    simp only at hslot hsame
    rw [hslot] at hr
    have hcreate := fat12Create_of_found (Option.not_isSome_iff_eq_none.mp hopened) hr size
    rw [hsame.fatBuffer] at hcreate
    have hnot (h : (size + 511#32) / 512#32 = 0 ∨ findFreeCluster s.fatBuffer ≠ 0) :
        ¬ CreateRefused s filename size page := by
      rintro (hpage | hnone | ⟨hneed, hzero⟩)
      · exact hopened (hfound.mpr hpage)
      · rw [hn] at hnone; cases hnone
      · exact h.elim hneed fun h ↦ h hzero
    rcases allocateClusters_spec ((size + 511#32) / 512#32) s.fatBuffer with
      ⟨hzero, halloc⟩ | ⟨hneed, hfull, halloc⟩ | ⟨hneed, hfree, fat', halloc, htook⟩
    · rw [hcreate, halloc]
      exact Or.inr ⟨hnot (Or.inl hzero), rfl, n, 0, rfl,
        created_of_allocated hsame filename n (Or.inl ⟨hzero, rfl, rfl⟩)⟩
    · rw [hcreate, halloc]
      exact Or.inl ⟨Or.inr (Or.inr ⟨hneed, hfull⟩), rfl, hsame.disk, hsame.mountInfo, rfl⟩
    · rw [hcreate, halloc]
      exact Or.inr ⟨hnot (Or.inr hfree), rfl, n, _, rfl,
        created_of_allocated hsame filename n (Or.inr ⟨hneed, rfl, hfree, htook⟩)⟩

/-! ## The chain of a new file -/

/-- How many clusters `find_free_cluster` can still hand out. -/
def freeCount (fat : Bytes) : Nat :=
  (List.range 4084).countP fun i ↦ FreeCluster fat (BitVec.ofNat 16 i)

theorem freeCount_pos {fat : Bytes} {c : u16} (h : FreeCluster fat c) : 0 < freeCount fat := by
  apply List.countP_pos_iff.mpr
  refine ⟨c.toNat, List.mem_range.mpr h.2.1, ?_⟩
  rw [BitVec.ofNat_toNat, BitVec.setWidth_eq]
  exact decide_eq_true h

/-- In `fat'` the chain from `first` on is `cs`: `k` clusters that were free in `fat`, and nothing
else has changed. -/
structure ChainTaken (fat fat' : Bytes) (first : u16) (k : Nat) (cs : List u16) : Prop where
  chain : FatChain fat' first cs
  length : cs.length = k
  nodup : cs.Nodup
  free : ∀ c ∈ cs, getNextCluster fat c = FAT12_FREE
  outside : ∀ d, d ∉ cs → getNextCluster fat' d = getNextCluster fat d

/-- What a successful `fat12_create` owes: enough clusters were free, and the new entry's chain is
made of as many of them as the size needs. -/
def CreateChain (s : FsState Disk) (filename : CString) (size : u32) (page : Bool) : Prop :=
  let r := fat12Create s filename size page
  r.2 = 0 → (size.toNat + 511) / 512 ≤ freeCount s.fatBuffer ∧
    ∃ n cs, firstFreeSlot s = some n ∧ (rootSlot r.1 n).name = dosName filename ∧
      ChainTaken s.fatBuffer r.1.fatBuffer (rootSlot r.1 n).firstCluster
        ((size.toNat + 511) / 512) cs

theorem TookCluster.chain {c : u16} {fat fat' : Bytes} (h : TookCluster c fat fat')
    (hc : FreeCluster fat c) : ChainTaken fat fat' c 1 [c] := by
  have hstop : ¬ FAT12_EOF_MIN ≤ c := by
    have hlt := hc.2.1
    rw [BitVec.le_def]
    change ¬ 4088 ≤ c.toNat
    omega
  refine ⟨ChainFrom.singleton_iff.mpr ⟨hstop, ?_⟩, rfl, List.nodup_singleton c, fun d hd ↦ ?_,
    fun d hd ↦ h.2 d fun hdc ↦ hd (List.mem_singleton.mpr hdc)⟩
  · rw [h.1]
    decide
  · rw [List.mem_singleton.mp hd]
    exact hc.2.2

theorem Created.rootSlot_new {s t : FsState Disk} {filename : CString} {size : u32} {n : Nat}
    {first : u16} (h : Created s filename size n first t) :
    rootSlot t n = newEntry (dosName filename) first size := by
  rw [rootSlot, ← entryAt_fillEntry_self (rootSector
    (syncFat { s with fatBuffer := t.fatBuffer }) (n / 16)) (n % 16) filename first size]
  exact entryAt_congr fun a h1 h2 ↦ h.root a (by omega)

/-- A call that finds a free slot and a free cluster succeeds and takes that one cluster. -/
theorem fat12Create_takes_one {s : FsState Disk} {filename : CString} {size : u32} {n : Nat}
    (page : Bool) (hname : lookup s (dosName filename) = none) (hslot : firstFreeSlot s = some n)
    (hsize : 1 ≤ size.toNat) (hmax : size.toNat ≤ 2 ^ 32 - 512)
    (hfree : findFreeCluster s.fatBuffer ≠ 0) :
    (fat12Create s filename size page).2 = 0 ∧
      rootSlot (fat12Create s filename size page).1 n =
        newEntry (dosName filename) (findFreeCluster s.fatBuffer) size ∧
      TookCluster (findFreeCluster s.fatBuffer) s.fatBuffer
        (fat12Create s filename size page).1.fatBuffer := by
  rcases fat12Create_cases s filename size page with ⟨href, -, -⟩ | ⟨-, hret, m, first, hm, hcr⟩
  · rcases href with ⟨-, hused⟩ | hfull | ⟨-, hnone⟩
    · exact absurd hname hused
    · rw [hslot] at hfull
      cases hfull
    · exact absurd hnone hfree
  · rw [hslot] at hm
    cases hm
    rcases hcr.allocated with ⟨hzero, -, -⟩ | ⟨-, hfirst, -, htook⟩
    · exact absurd hzero (clustersNeeded_ne_zero hsize hmax)
    · rw [hfirst] at hcr htook
      exact ⟨hret, hcr.rootSlot_new, htook⟩

/-- The chain of a new file has one cluster, whatever the size. -/
theorem chain_length_of_create {s : FsState Disk} {filename : CString} {size : u32} {page : Bool}
    (hname : lookup s (dosName filename) = none) (hslot : firstFreeSlot s ≠ none)
    (hsize : 1 ≤ size.toNat) (hmax : size.toNat ≤ 2 ^ 32 - 512)
    (hfree : findFreeCluster s.fatBuffer ≠ 0) (h : CreateChain s filename size page) :
    (size.toNat + 511) / 512 = 1 := by
  obtain ⟨n, hn⟩ := Option.ne_none_iff_exists'.mp hslot
  obtain ⟨hret, hentry, htook⟩ := fat12Create_takes_one page hname hn hsize hmax hfree
  obtain ⟨-, m, cs, hm, -, hchain⟩ := h hret
  rw [hn] at hm
  cases hm
  have hone := htook.chain (freeCluster_findFreeCluster hfree)
  have hcs := hchain.chain
  rw [hentry] at hcs
  rw [← hchain.length, hcs.unique hone.chain]
  rfl

/-- On a name that is not in use and with a slot left, the call keeps its promise exactly for the
files of at most one cluster, and when there is no cluster at all, since it then returns -1. -/
theorem createChain_iff {s : FsState Disk} {filename : CString} {size : u32} {page : Bool}
    (hname : lookup s (dosName filename) = none) (hslot : firstFreeSlot s ≠ none)
    (hsize : 1 ≤ size.toNat) (hmax : size.toNat ≤ 2 ^ 32 - 512) :
    CreateChain s filename size page ↔
      size.toNat ≤ 512 ∨ ∀ c, ¬ FreeCluster s.fatBuffer c := by
  rw [← findFreeCluster_eq_zero_iff]
  by_cases hfull : findFreeCluster s.fatBuffer = 0
  · refine ⟨fun _ ↦ Or.inr hfull, fun _ hret ↦ ?_⟩
    rcases fat12Create_cases s filename size page with ⟨-, href, -⟩ | ⟨hnot, -⟩
    · rw [href] at hret
      exact absurd hret (by decide)
    · exact absurd (Or.inr (Or.inr ⟨clustersNeeded_ne_zero hsize hmax, hfull⟩)) hnot
  · constructor
    · intro h
      have hlen := chain_length_of_create hname hslot hsize hmax hfull h
      omega
    · intro h _
      have hk : (size.toNat + 511) / 512 = 1 := by
        have hle : size.toNat ≤ 512 := h.resolve_right hfull
        omega
      obtain ⟨n, hn⟩ := Option.ne_none_iff_exists'.mp hslot
      obtain ⟨-, hentry, htook⟩ := fat12Create_takes_one page hname hn hsize hmax hfull
      have hfree := freeCluster_findFreeCluster hfull
      rw [hk]
      refine ⟨freeCount_pos hfree, n, [findFreeCluster s.fatBuffer], hn, ?_, ?_⟩
      · rw [hentry]
        rfl
      · rw [hentry]
        exact htook.chain hfree

/-! On the blank volume the two directions differ: there is room for everything. -/

def bigFile : CString := CString.ofList [0x42, 0x49, 0x47] (by decide)

theorem isEnd_blankVolume : (rootSlot blankVolume 0).isEnd := by decide +kernel

theorem slotCount_blankVolume : slotCount blankVolume = 512 := by decide +kernel

theorem lookup_blankVolume (name : DosName) : lookup blankVolume name = none := by
  have hfirst : lookupBody blankVolume name 0 = some none := if_pos isEnd_blankVolume
  rw [lookup, slotCount_blankVolume, firstFrom, hfirst]
  rfl

theorem firstFreeSlot_blankVolume : firstFreeSlot blankVolume = some 0 := by
  rw [firstFreeSlot_eq_some_iff, slotCount_blankVolume]
  exact ⟨by decide, isEnd_blankVolume, fun m hm ↦ absurd hm (Nat.not_lt_zero m)⟩

theorem findFreeCluster_blankVolume : findFreeCluster blankVolume.fatBuffer = 2 := by
  decide +kernel

theorem createChain_iff_blankVolume : CreateChain blankVolume bigFile 513 true ↔
    (513 : u32).toNat ≤ 512 ∨ ∀ c, ¬ FreeCluster blankVolume.fatBuffer c :=
  createChain_iff (lookup_blankVolume _) (by rw [firstFreeSlot_blankVolume]; decide) (by decide)
    (by decide)

/-- 513 bytes take two clusters; the new file gets one. -/
theorem not_createChain_blankVolume : Mounted (BPB.ofSector bootSector) blankVolume ∧
    lookup blankVolume (dosName bigFile) = none ∧ firstFreeSlot blankVolume ≠ none ∧
    ¬ CreateChain blankVolume bigFile 513 true := by
  have hslot : firstFreeSlot blankVolume ≠ none := by rw [firstFreeSlot_blankVolume]; decide
  refine ⟨mounted_blankVolume, lookup_blankVolume _, hslot, fun h ↦ ?_⟩
  have hlen := chain_length_of_create (lookup_blankVolume _) hslot (by decide) (by decide)
    (by rw [findFreeCluster_blankVolume]; decide) h
  exact absurd hlen (by decide)

/-! ## Failed calls -/

/-- A call that returns -1 leaves the cached FAT and every sector as they were.  Only the first turn
of the allocation can fail, and it fails before it sets an entry. -/
theorem volume_kept_of_failed {s : FsState Disk} {filename : CString} {size : u32} {page : Bool}
    (h : (fat12Create s filename size page).2 = -1) :
    (fat12Create s filename size page).1.fatBuffer = s.fatBuffer ∧
      ∀ l, (fat12Create s filename size page).1.disk.sector l = s.disk.sector l := by
  rcases fat12Create_cases s filename size page with ⟨-, -, hsame⟩ | ⟨-, hret, -⟩
  · exact ⟨hsame.fatBuffer, fun l ↦ by rw [hsame.disk]⟩
  · rw [hret] at h
    exact absurd h (by decide)

/-- The blank volume with every cluster taken. -/
def fullVolume : FsState Disk := { blankVolume with fatBuffer := fun _ ↦ 0xFF }

theorem not_freeCluster_fullVolume (c : u16) : ¬ FreeCluster fullVolume.fatBuffer c := by
  intro h
  have hnext := getNextCluster_toNat fullVolume.fatBuffer c
  have hbyte (a : Nat) : (fullVolume.fatBuffer a).toNat = 255 := rfl
  have hfree : (FAT12_FREE).toNat = 0 := rfl
  rw [h.2.2, hbyte, hbyte, hfree] at hnext
  split at hnext <;> omega

theorem fat12Create_fullVolume : (fat12Create fullVolume bigFile 513 true).2 = -1 := by
  rcases fat12Create_cases fullVolume bigFile 513 true with ⟨-, hret, -⟩ | ⟨hnot, -⟩
  · exact hret
  · have hfull := (findFreeCluster_eq_zero_iff _).mpr not_freeCluster_fullVolume
    exact absurd (Or.inr (Or.inr ⟨by decide, hfull⟩)) hnot

theorem volume_kept_fullVolume : (fat12Create fullVolume bigFile 513 true).2 = -1 ∧
    (fat12Create fullVolume bigFile 513 true).1.fatBuffer = fullVolume.fatBuffer ∧
      ∀ l, (fat12Create fullVolume bigFile 513 true).1.disk.sector l = fullVolume.disk.sector l :=
  ⟨fat12Create_fullVolume, volume_kept_of_failed fat12Create_fullVolume⟩

end TenOs.Fs
