import Mathlib.Data.Fintype.Basic
import TenOs.Fs.Fat

/-!
# The root directory

`to_dos_filename`, the 32-byte directory entries, and the scans of the root directory in
`fat12_open` and `find_free_dir_entry`.  The directory is `root_size` sectors of 16 slots; slot `n`
is entry `n % 16` of sector `n / 16`.
-/

namespace TenOs.Fs

open TenOs.Base TenOs.Lib TenOs.Drivers

/-! ## File names -/

def charA : u8 := 0x61#8
def charZ : u8 := 0x7A#8
def charDot : u8 := 0x2E#8
def charSpace : u8 := 0x20#8

/-- A character of the output: `a` to `z` become capitals. -/
def toUpper (c : u8) : u8 :=
  if charToInt charA ≤ charToInt c ∧ charToInt c ≤ charToInt charZ then c - 32#8 else c

/-- Copy the name part; `k` is what is left of the 8 characters.  Returns where it stopped. -/
def copyName (input : Bytes) : (k i j : Nat) → Bytes → Nat × Bytes
  | 0, i, _, output => (i, output)
  | k + 1, i, j, output =>
      if input i ≠ 0 ∧ input i ≠ charDot then
        copyName input k (i + 1) (j + 1) (Function.update output j (toUpper (input i)))
      else (i, output)

/-- Copy the extension; `k` is what is left of the 3 characters. -/
def copyExtension (input : Bytes) : (k i j : Nat) → Bytes → Bytes
  | 0, _, _, output => output
  | k + 1, i, j, output =>
      if input i ≠ 0 then
        copyExtension input k (i + 1) (j + 1) (Function.update output j (toUpper (input i)))
      else output

/-- "Find extension": the next dot or NUL from `i` on.  The loop ends at the NUL at the latest. -/
def findExtension (input : CString) (i : Nat) : Nat :=
  (firstFrom (fun i ↦ if input.byte i = 0 ∨ input.byte i = charDot then some i else none)
    (input.len + 1) i).getD i

def toDosFilename (input : CString) (output : Bytes) : Bytes :=
  let output := memset output 0 charSpace 11
  let (i, output) := copyName input.byte 8 0 0 output
  let i := findExtension input i
  if input.byte i = charDot then copyExtension input.byte 3 (i + 1) 8 output else output

/-- The 11 bytes of a name in the directory: `filename` and `extension`. -/
abbrev DosName := Fin 11 → u8

/-- The DOS name of a file name.  All 11 bytes of the array are set, whatever it held before. -/
def dosName (filename : CString) : DosName := fun k ↦ toDosFilename filename (fun _ ↦ 0) k

theorem copyName_of_lt (input : Bytes) (k i j : Nat) (output : Bytes) {a : Nat} (h : a < j) :
    (copyName input k i j output).2 a = output a := by
  induction k generalizing i j output with
  | zero => rfl
  | succ k ih =>
    rw [copyName]
    split
    · rw [ih _ _ _ (by omega), Function.update_of_ne (by omega)]
    · rfl

theorem copyExtension_of_lt (input : Bytes) (k i j : Nat) (output : Bytes) {a : Nat} (h : a < j) :
    copyExtension input k i j output a = output a := by
  induction k generalizing i j output with
  | zero => rfl
  | succ k ih =>
    rw [copyExtension]
    split
    · rw [ih _ _ _ (by omega), Function.update_of_ne (by omega)]
    · rfl

/-- The first byte of a DOS name is a space or the capital of the first character. -/
theorem dosName_zero (filename : CString) : dosName filename 0 =
    if filename.byte 0 ≠ 0 ∧ filename.byte 0 ≠ charDot then toUpper (filename.byte 0)
    else charSpace := by
  have hspace : memset (fun _ ↦ 0) 0 charSpace 11 0 = charSpace := by
    rw [memset, fillCells_apply, if_pos (by omega)]
  have hname : (copyName filename.byte 8 0 0 (memset (fun _ ↦ 0) 0 charSpace 11)).2 0 =
      if filename.byte 0 ≠ 0 ∧ filename.byte 0 ≠ charDot then toUpper (filename.byte 0)
      else charSpace := by
    rw [copyName]
    split
    · rw [copyName_of_lt _ _ _ _ _ (by omega), Function.update_self]
    · exact hspace
  rw [← hname]
  change toDosFilename filename (fun _ ↦ 0) 0 = _
  unfold toDosFilename
  simp only
  split
  · rw [copyExtension_of_lt _ _ _ _ _ (by omega)]
  · rfl

theorem toUpper_ne_zero {c : u8} (h : c ≠ 0) : toUpper c ≠ 0 := by
  revert h
  revert c
  decide +kernel

/-- A DOS name never looks like the end mark of the directory. -/
theorem dosName_zero_ne (filename : CString) : dosName filename 0 ≠ 0 := by
  rw [dosName_zero]
  split
  · rename_i h
    exact toUpper_ne_zero h.1
  · decide

/-! ## Directory entries -/

@[ext] structure DirectoryEntry where
  name : DosName
  attributes : u8
  firstCluster : u16
  fileSize : u32

/-- Entry `i` of a directory sector. -/
def entryAt (buffer : Bytes) (i : Nat) : DirectoryEntry where
  name k := buffer (32 * i + k)
  attributes := buffer (32 * i + 11)
  firstCluster := read16 buffer (32 * i + 26)
  fileSize := read32 buffer (32 * i + 28)

theorem entryAt_congr {b b' : Bytes} {i : Nat}
    (h : ∀ a, 32 * i ≤ a → a < 32 * i + 32 → b a = b' a) : entryAt b i = entryAt b' i := by
  have hname : (fun k : Fin 11 ↦ b (32 * i + k)) = fun k : Fin 11 ↦ b' (32 * i + k) := by
    funext k
    have hk := k.isLt
    exact h _ (by omega) (by omega)
  unfold entryAt
  rw [hname, h _ (by omega) (by omega), read16_congr fun a h1 h2 ↦ h a (by omega) (by omega),
    read32_congr fun a h1 h2 ↦ h a (by omega) (by omega)]

def DirectoryEntry.isEnd (e : DirectoryEntry) : Prop := e.name 0 = 0

instance (e : DirectoryEntry) : Decidable e.isEnd := inferInstanceAs (Decidable (_ = _))

/-- The first byte `0xE5` marks a deleted entry. -/
def DosName.marked (name : DosName) : Prop := name 0 = 0xE5#8

instance (name : DosName) : Decidable name.marked := inferInstanceAs (Decidable (_ = _))

def DirectoryEntry.isDeleted (e : DirectoryEntry) : Prop := e.name.marked

instance (e : DirectoryEntry) : Decidable e.isDeleted := inferInstanceAs (Decidable e.name.marked)

/-- `memcmp` on an entry and a DOS name. -/
theorem memcmp_entry_eq_zero_iff (buffer : Bytes) (i : Nat) (filename : CString) :
    memcmp (pointerAt buffer (32 * i)) (toDosFilename filename fun _ ↦ 0) 11 = 0 ↔
      (entryAt buffer i).name = dosName filename := by
  rw [memcmp_eq_zero_iff]
  constructor
  · intro h
    funext k
    exact h k k.isLt
  · intro h k hk
    exact congrFun h ⟨k, hk⟩

/-! ## Scanning the directory -/

variable {D : Type} [SectorDevice D]

/-- The two nested loops over the root directory: read each sector into the sector buffer and run
`body` on its 16 entries, until `body` returns from the function. -/
def scanRoot {β : Type} (body : (buffer : Bytes) → (sector i : Nat) → Option β) (s : FsState D) :
    FsState D × Option β :=
  forReturn (fun sector s ↦
      let s := s.readToBuffer (s.mountInfo.rootStart + BitVec.ofNat 32 sector)
      (s, firstFrom (body s.sectorBuffer sector) 16 0))
    s.mountInfo.rootSize.toNat 0 s

/-- The body of the loop in `fat12_open`: `some none` is `return 0`, `some (some e)` is the entry
found. -/
def openBody (dosName : Bytes) (buffer : Bytes) (_sector i : Nat) :
    Option (Option DirectoryEntry) :=
  if charToInt (buffer (32 * i)) = 0x00 then some none
  else if charToInt (buffer (32 * i)) = 0xE5 then none
  else if memcmp (pointerAt buffer (32 * i)) dosName 11 = 0 then some (some (entryAt buffer i))
  else none

/-- The body of the loop in `find_free_dir_entry`. -/
def freeBody (buffer : Bytes) (sector i : Nat) : Option (Nat × Nat) :=
  if charToInt (buffer (32 * i)) = 0x00 ∨ charToInt (buffer (32 * i)) = 0xE5 then some (sector, i)
  else none

/-- `find_free_dir_entry`, with `*sector_out` and `*index_out` as its result. -/
def findFreeDirEntry (s : FsState D) : FsState D × Option (Nat × Nat) := scanRoot freeBody s

/-! ## The directory as a table of slots -/

section Slots

variable (s : FsState Disk)

/-- Sector `k` of the root directory. -/
def rootSector (k : Nat) : Bytes :=
  s.disk.sector (lba28 (s.mountInfo.rootStart + BitVec.ofNat 32 k))

def slotCount : Nat := 16 * s.mountInfo.rootSize.toNat

def rootSlot (n : Nat) : DirectoryEntry := entryAt (rootSector s (n / 16)) (n % 16)

/-- What `fat12_open` does at slot `n`: stop at the end mark, or take the entry with this name. -/
def lookupBody (name : DosName) (n : Nat) : Option (Option Nat) :=
  if (rootSlot s n).isEnd then some none
  else if (rootSlot s n).name = name then some (some n)
  else none

/-- The slot of the file called `name`: the first one, if it comes before the end mark. -/
def lookup (name : DosName) : Option Nat := (firstFrom (lookupBody s name) (slotCount s) 0).join

/-- The first slot with an end mark. -/
def firstFreeSlot : Option Nat :=
  firstFrom (fun n ↦ if (rootSlot s n).isEnd then some n else none) (slotCount s) 0

end Slots

/-- The directory scans only change the sector buffer. -/
structure SameVolume (s s' : FsState D) : Prop where
  disk : s'.disk = s.disk
  mountInfo : s'.mountInfo = s.mountInfo
  fatBuffer : s'.fatBuffer = s.fatBuffer

theorem SameVolume.trans {E : Type} {s t u : FsState E} (h : SameVolume s t) (h' : SameVolume t u) :
    SameVolume s u :=
  ⟨h'.disk.trans h.disk, h'.mountInfo.trans h.mountInfo, h'.fatBuffer.trans h.fatBuffer⟩

-- What a scan finds in the sector buffer after it has read sector `k`.
theorem SameVolume.rootBuffer {s t : FsState Disk} (h : SameVolume s t) (k : Nat) {a : Nat}
    (ha : a < 512) :
    (t.readToBuffer (t.mountInfo.rootStart + BitVec.ofNat 32 k)).sectorBuffer a =
      rootSector s k a := by
  have hr := readSector_inside t.disk (t.mountInfo.rootStart + BitVec.ofNat 32 k)
    t.sectorBuffer 0 ha
  rw [Nat.zero_add, h.disk, h.mountInfo] at hr
  rw [rootSector, ← hr, ← h.disk, ← h.mountInfo]
  rfl

-- A scan that looks at the buffer only is a search over the slots.
theorem scanRoot_spec {β : Type} (s : FsState Disk) (body : Bytes → Nat → Nat → Option β)
    (g : Nat → Option β)
    (hbody : ∀ (b : Bytes) k i, i < 16 → (∀ a < 512, b a = rootSector s k a) →
      body b k i = g (16 * k + i)) :
    SameVolume s (scanRoot body s).1 ∧
      (scanRoot body s).2 = firstFrom g (slotCount s) 0 := by
  have hrows := firstFrom_nested g 16 s.mountInfo.rootSize.toNat 0
  rw [Nat.mul_zero] at hrows
  unfold scanRoot slotCount
  rw [← hrows]
  refine forReturn_spec (I := SameVolume s) (fun k t ht ↦ ?_) _ _ ⟨rfl, rfl, rfl⟩
  exact ⟨⟨ht.disk, ht.mountInfo, ht.fatBuffer⟩,
    firstFrom_congr fun i _ hi ↦ hbody _ k i (by omega) fun a ha ↦ ht.rootBuffer k ha⟩

theorem rootSlot_entry (s : FsState Disk) {b : Bytes} {k i : Nat} (hi : i < 16)
    (hb : ∀ a < 512, b a = rootSector s k a) : entryAt b i = rootSlot s (16 * k + i) := by
  rw [rootSlot, show (16 * k + i) / 16 = k by omega, show (16 * k + i) % 16 = i by omega]
  exact entryAt_congr fun a h1 h2 ↦ hb a (by omega)

/-- The byte test of the loops is the end-mark test of the table.  The test for a deleted entry
compares a signed `char` with `0xE5` and never holds. -/
theorem charToInt_entry_eq_zero_iff (b : Bytes) (i : Nat) :
    charToInt (b (32 * i)) = 0 ↔ (entryAt b i).isEnd :=
  charToInt_eq_zero_iff _

theorem charToInt_ne_E5 (c : u8) : charToInt c ≠ 0xE5 := by
  have h := charToInt_lt c
  omega

-- What `fat12_open` does at an entry of the buffer is what the lookup does at its slot.
theorem openBody_eq (s : FsState Disk) (filename : CString) {b : Bytes} {k i : Nat} (hi : i < 16)
    (hb : ∀ a < 512, b a = rootSector s k a) :
    openBody (toDosFilename filename fun _ ↦ 0) b k i =
      (lookupBody s (dosName filename) (16 * k + i)).map (Option.map (rootSlot s)) := by
  have he := rootSlot_entry s hi hb
  unfold openBody lookupBody
  rw [if_neg (charToInt_ne_E5 _), ← he]
  by_cases hend : (entryAt b i).isEnd
  · rw [if_pos ((charToInt_entry_eq_zero_iff b i).mpr hend), if_pos hend]
    rfl
  · rw [if_neg (fun h ↦ hend ((charToInt_entry_eq_zero_iff b i).mp h)), if_neg hend]
    by_cases hname : (entryAt b i).name = dosName filename
    · rw [if_pos ((memcmp_entry_eq_zero_iff b i filename).mpr hname), if_pos hname, Option.map_some,
        Option.map_some, he]
    · rw [if_neg (fun h ↦ hname ((memcmp_entry_eq_zero_iff b i filename).mp h)), if_neg hname]
      rfl

-- The search returns sector and index of the first slot that ends the directory.
theorem findFreeDirEntry_spec (s : FsState Disk) :
    SameVolume s (findFreeDirEntry s).1 ∧
      (findFreeDirEntry s).2 = (firstFreeSlot s).map fun n ↦ (n / 16, n % 16) := by
  unfold firstFreeSlot
  rw [← firstFrom_map]
  refine scanRoot_spec s _ _ fun b k i hi hb ↦ ?_
  have he := rootSlot_entry s hi hb
  unfold freeBody
  by_cases hend : (entryAt b i).isEnd
  · rw [if_pos (Or.inl ((charToInt_entry_eq_zero_iff b i).mpr hend)), if_pos (he ▸ hend)]
    simp only [Option.map_some, Option.some.injEq, Prod.mk.injEq]
    omega
  · rw [if_neg, if_neg (he ▸ hend)]
    · rfl
    · rintro (h | h)
      · exact hend ((charToInt_entry_eq_zero_iff b i).mp h)
      · exact charToInt_ne_E5 _ h

/-! ## Facts about the table -/

/-- The slots before the end mark. -/
def LiveSlot (s : FsState Disk) (n : Nat) : Prop :=
  n < slotCount s ∧ ∀ m ≤ n, ¬ (rootSlot s m).isEnd

theorem lookup_eq_some_iff (s : FsState Disk) (name : DosName) (n : Nat) :
    lookup s name = some n ↔ LiveSlot s n ∧ (rootSlot s n).name = name ∧
      ∀ m < n, (rootSlot s m).name ≠ name := by
  have hnone (m : Nat) : lookupBody s name m = none ↔
      ¬ (rootSlot s m).isEnd ∧ (rootSlot s m).name ≠ name := by
    unfold lookupBody
    split
    · simp_all
    · split <;> simp_all
  have hsome (m : Nat) : lookupBody s name m = some (some n) ↔
      ¬ (rootSlot s m).isEnd ∧ (rootSlot s m).name = name ∧ m = n := by
    unfold lookupBody
    split
    · simp_all
    · split <;> simp_all
  rw [lookup, Option.join_eq_some_iff, firstFrom_eq_some_iff]
  constructor
  · rintro ⟨i, -, hi, hbody, hfirst⟩
    obtain ⟨hlive, hname, rfl⟩ := (hsome i).mp hbody
    have hbefore (m : Nat) (hm : m < i) := (hnone m).mp (hfirst m (Nat.zero_le m) hm)
    refine ⟨⟨by omega, fun m hm ↦ ?_⟩, hname, fun m hm ↦ (hbefore m hm).2⟩
    rcases Nat.eq_or_lt_of_le hm with rfl | hm
    · exact hlive
    · exact (hbefore m hm).1
  · rintro ⟨⟨hlt, hlive⟩, hname, hfirst⟩
    exact ⟨n, Nat.zero_le n, by omega, (hsome n).mpr ⟨hlive n (Nat.le_refl n), hname, rfl⟩,
      fun m _ hm ↦ (hnone m).mpr ⟨hlive m (Nat.le_of_lt hm), hfirst m hm⟩⟩

theorem firstFreeSlot_eq_some_iff (s : FsState Disk) (n : Nat) :
    firstFreeSlot s = some n ↔ n < slotCount s ∧ (rootSlot s n).isEnd ∧
      ∀ m < n, ¬ (rootSlot s m).isEnd := by
  rw [firstFreeSlot, firstFrom_eq_some_iff]
  constructor
  · rintro ⟨i, -, hi, hbody, hfirst⟩
    split at hbody
    · cases hbody
      rename_i hend
      refine ⟨by omega, hend, fun m hm hm' ↦ ?_⟩
      have hnone := hfirst m (Nat.zero_le m) hm
      rw [if_pos hm'] at hnone
      cases hnone
    · cases hbody
  · rintro ⟨hlt, hend, hfirst⟩
    exact ⟨n, Nat.zero_le n, by omega, if_pos hend, fun m _ hm ↦ if_neg (hfirst m hm)⟩

/-- The live slots are those before the first free one. -/
theorem liveSlot_iff_lt {s : FsState Disk} {n : Nat} (hn : firstFreeSlot s = some n) (m : Nat) :
    LiveSlot s m ↔ m < n := by
  obtain ⟨hlt, hend, hbefore⟩ := (firstFreeSlot_eq_some_iff s n).mp hn
  constructor
  · intro hlive
    by_contra hge
    exact hlive.2 n (by omega) hend
  · intro hmn
    exact ⟨by omega, fun k hk ↦ hbefore k (by omega)⟩

/-! ## What the table depends on -/

/-- Two states with the same root directory. -/
structure SameRoot (s t : FsState Disk) : Prop where
  mountInfo : t.mountInfo = s.mountInfo
  sector : ∀ k < s.mountInfo.rootSize.toNat, rootSector t k = rootSector s k

theorem SameVolume.sameRoot {s t : FsState Disk} (h : SameVolume s t) : SameRoot s t := by
  refine ⟨h.mountInfo, fun k _ ↦ ?_⟩
  rw [rootSector, rootSector, h.disk, h.mountInfo]

theorem SameRoot.slotCount {s t : FsState Disk} (h : SameRoot s t) :
    slotCount t = slotCount s := by
  rw [Fs.slotCount, Fs.slotCount, h.mountInfo]

theorem SameRoot.rootSlot {s t : FsState Disk} (h : SameRoot s t) {n : Nat}
    (hn : n < Fs.slotCount s) : rootSlot t n = rootSlot s n := by
  rw [Fs.slotCount] at hn
  rw [Fs.rootSlot, Fs.rootSlot, h.sector _ (by omega)]

theorem SameRoot.lookup {s t : FsState Disk} (h : SameRoot s t) (name : DosName) :
    lookup t name = lookup s name := by
  rw [Fs.lookup, Fs.lookup, h.slotCount]
  congr 1
  apply firstFrom_congr
  intro n _ hn
  rw [lookupBody, lookupBody, h.rootSlot (by omega)]

theorem SameRoot.firstFreeSlot {s t : FsState Disk} (h : SameRoot s t) :
    firstFreeSlot t = firstFreeSlot s := by
  rw [Fs.firstFreeSlot, Fs.firstFreeSlot, h.slotCount]
  apply firstFrom_congr
  intro n _ hn
  rw [h.rootSlot (by omega)]

theorem SameRoot.liveSlot_iff {s t : FsState Disk} (h : SameRoot s t) (n : Nat) :
    LiveSlot t n ↔ LiveSlot s n := by
  rw [LiveSlot, LiveSlot, h.slotCount]
  refine and_congr_right fun hn ↦ forall₂_congr fun m hm ↦ ?_
  rw [h.rootSlot (by omega)]

/-- The root directory lies between the FATs and the data region; its LBAs do not wrap. -/
theorem Mounted.rootLba_eq {E : Type} {bpb : BPB} {s : FsState E} (h : Mounted bpb s) {k : Nat}
    (hk : k < s.mountInfo.rootSize.toNat) :
    lba28 (s.mountInfo.rootStart + BitVec.ofNat 32 k) = s.mountInfo.rootStart.toNat + k ∧
      s.mountInfo.rootStart.toNat + k < s.mountInfo.dataStart.toNat := by
  have h1 := bpb.rootStart_le
  have h2 := bpb.rootSize_le
  have h3 := bpb.dataStart_toNat
  rw [h.mountInfo] at hk ⊢
  rw [lba28_eq_mod, BitVec.toNat_add, BitVec.toNat_ofNat]
  omega

end TenOs.Fs
