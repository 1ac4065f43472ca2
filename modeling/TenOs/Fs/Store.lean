import TenOs.Fs.DeletedEntries
import TenOs.Fs.Overwrite
import TenOs.Fs.Session

/-!
# The volume as a store of files

What the volume is for: a list of named files in the order in which they were made, in a directory of
so many slots and on a disk with so many free clusters.  `storeOf` reads the store off the root
directory, the cached FAT and the first cluster of each file, and on a well formed volume the calls of
`fs.c` that the commands make are the operations of the store.
-/

namespace TenOs.Fs

open TenOs.Base TenOs.Lib TenOs.Drivers

/-! ## The store -/

/-- A file, with the 512 bytes of its first cluster. -/
structure StoredFile where
  name : DosName
  attributes : u8
  size : u32
  block : List u8

/-- The data, and zeros up to the end of the sector. -/
def padded (data : List u8) : List u8 := data ++ List.replicate (512 - data.length) 0

def StoredFile.overwrite (data : List u8) (f : StoredFile) : StoredFile :=
  { f with block := padded data }

def StoredFile.isFile (f : StoredFile) : Prop :=
  f.attributes &&& (ATTR_VOLUME_ID ||| ATTR_DIRECTORY) = 0

instance (f : StoredFile) : Decidable f.isFile := inferInstanceAs (Decidable (_ = _))

/-- The text in which a name is listed. -/
def DosName.render (name : DosName) : List u8 := renderName (newEntry name 0 0)

def StoredFile.row (f : StoredFile) : List u8 × u32 := (f.name.render, f.size)

@[ext] structure Store where
  files : List StoredFile
  slots : Nat
  free : Nat

namespace Store

/-- The first file of that name. -/
def find (st : Store) (name : DosName) : Option Nat := st.files.findIdx? fun f ↦ f.name = name

/-- There is a slot and a cluster for one more file. -/
def HasRoom (st : Store) : Prop := st.files.length < st.slots ∧ 0 < st.free

instance (st : Store) : Decidable st.HasRoom := inferInstanceAs (Decidable (_ ∧ _))

/-- A file of 256 bytes with these at its start.  A file that is there already keeps its size. -/
def save (st : Store) (name : DosName) (data : List u8) : Store :=
  match st.find name with
  | some n => { st with files := st.files.modify n (StoredFile.overwrite data) }
  | none =>
      if st.HasRoom then
        { st with
          files := st.files ++ [⟨name, ATTR_ARCHIVE, 256, padded data⟩]
          free := st.free - 1 }
      else st

/-- At most 256 bytes from the start of the file. -/
def load (st : Store) (name : DosName) : List u8 :=
  match (st.find name).bind fun n ↦ st.files[n]? with
  | some f => f.block.take (min 256 f.size.toNat)
  | none => []

def rows (st : Store) : List (List u8 × u32) :=
  (st.files.filter fun f ↦ f.isFile).map StoredFile.row

end Store

/-! ## The store of a volume -/

section StoreOf

variable (s : FsState Disk)

/-- The number of slots before the end mark. -/
def liveCount : Nat := (firstFreeSlot s).getD (slotCount s)

def fileAt (n : Nat) : StoredFile where
  name := (rootSlot s n).name
  attributes := (rootSlot s n).attributes
  size := (rootSlot s n).fileSize
  block := (List.range 512).map
    (s.disk.sector (lba28 (clusterLba s.mountInfo (rootSlot s n).firstCluster)))

def storeOf : Store where
  files := (List.range (liveCount s)).map (fileAt s)
  slots := slotCount s
  free := freeCount s.fatBuffer

theorem liveSlot_iff_liveCount (n : Nat) : LiveSlot s n ↔ n < liveCount s := by
  unfold liveCount
  cases hfree : firstFreeSlot s with
  | some m => exact liveSlot_iff_lt hfree n
  | none =>
    rw [firstFreeSlot, firstFrom_eq_none_iff] at hfree
    refine ⟨fun h ↦ h.1, fun h ↦ ⟨h, fun m hm hend ↦ ?_⟩⟩
    have hnone := hfree m (Nat.zero_le m) (by change n < slotCount s at h; omega)
    rw [if_pos hend] at hnone
    cases hnone

theorem liveCount_le : liveCount s ≤ slotCount s := by
  unfold liveCount
  cases hfree : firstFreeSlot s with
  | some m => exact Nat.le_of_lt ((firstFreeSlot_eq_some_iff s m).mp hfree).1
  | none => exact Nat.le_refl _

@[simp] theorem storeOf_slots : (storeOf s).slots = slotCount s := by rw [storeOf]

@[simp] theorem storeOf_free : (storeOf s).free = freeCount s.fatBuffer := by rw [storeOf]

theorem storeOf_length : (storeOf s).files.length = liveCount s := by simp [storeOf]

theorem storeOf_getElem {n : Nat} (h : n < (storeOf s).files.length) :
    (storeOf s).files[n] = fileAt s n := by simp [storeOf]

-- The scan of the directory stops at the first slot of that name.
theorem storeOf_find (name : DosName) : (storeOf s).find name = lookup s name := by
  have hlen := storeOf_length s
  cases hlook : lookup s name with
  | some n =>
    obtain ⟨hlive, hname, hfirst⟩ := (lookup_eq_some_iff s name n).mp hlook
    have hn := (liveSlot_iff_liveCount s n).mp hlive
    rw [Store.find, List.findIdx?_eq_some_iff_getElem]
    refine ⟨by omega, ?_, fun m hm ↦ ?_⟩
    · rw [storeOf_getElem]
      exact decide_eq_true hname
    · rw [storeOf_getElem, decide_eq_true_eq]
      exact hfirst m hm
  | none =>
    have hnone := (lookup_eq_none_iff s name).mp hlook
    rw [Store.find, List.findIdx?_eq_none_iff]
    intro f hf
    obtain ⟨n, hn, rfl⟩ := List.mem_map.mp hf
    have hlive := (liveSlot_iff_liveCount s n).mpr (List.mem_range.mp hn)
    exact decide_eq_false (hnone n hlive)

-- There is a free slot just when the files do not fill the directory.
theorem firstFreeSlot_eq_none_iff : firstFreeSlot s = none ↔ ¬ liveCount s < slotCount s := by
  unfold liveCount
  cases hfree : firstFreeSlot s with
  | some m =>
    have hlt := ((firstFreeSlot_eq_some_iff s m).mp hfree).1
    simpa using hlt
  | none => simp

theorem freeCount_pos_iff (fat : Bytes) : 0 < freeCount fat ↔ findFreeCluster fat ≠ 0 := by
  constructor
  · intro h hzero
    obtain ⟨i, -, hi⟩ := List.countP_pos_iff.mp h
    exact (findFreeCluster_eq_zero_iff fat).mp hzero _ (of_decide_eq_true hi)
  · exact fun h ↦ freeCount_pos (freeCluster_findFreeCluster h)

theorem storeOf_hasRoom_iff :
    (storeOf s).HasRoom ↔ firstFreeSlot s ≠ none ∧ findFreeCluster s.fatBuffer ≠ 0 := by
  have hslot : firstFreeSlot s ≠ none ↔ liveCount s < slotCount s := by
    rw [ne_eq, firstFreeSlot_eq_none_iff, not_not]
  rw [Store.HasRoom, storeOf_length, storeOf_slots, storeOf_free, freeCount_pos_iff, hslot]

end StoreOf

/-- The files only depend on the directory and on the first clusters. -/
theorem storeOf_congr {s t : FsState Disk} (hroot : SameRoot s t) (hfat : t.fatBuffer = s.fatBuffer)
    (hdata : ∀ n < liveCount s,
      t.disk.sector (lba28 (clusterLba s.mountInfo (rootSlot s n).firstCluster)) =
        s.disk.sector (lba28 (clusterLba s.mountInfo (rootSlot s n).firstCluster))) :
    storeOf t = storeOf s := by
  have hcount : liveCount t = liveCount s := by
    rw [liveCount, liveCount, hroot.firstFreeSlot, hroot.slotCount]
  have hfiles : (storeOf t).files = (storeOf s).files := by
    simp only [storeOf, hcount]
    refine List.map_congr_left fun n hn ↦ ?_
    have hlt := List.mem_range.mp hn
    have hslot := hroot.rootSlot (Nat.lt_of_lt_of_le hlt (liveCount_le s))
    rw [fileAt, fileAt, hslot, hroot.mountInfo, hdata n hlt]
  refine Store.ext hfiles ?_ ?_
  · rw [storeOf_slots, storeOf_slots, hroot.slotCount]
  · rw [storeOf_free, storeOf_free, hfat]

theorem SameVolume.storeOf {s t : FsState Disk} (h : SameVolume s t) : storeOf t = storeOf s :=
  storeOf_congr h.sameRoot h.fatBuffer fun n _ ↦ by rw [h.disk]

/-! ## Listing -/

theorem liveEntries_eq (s : FsState Disk) :
    liveEntries s = (List.range (liveCount s)).map (rootSlot s) := by
  have hsplit : List.range (slotCount s) =
      List.range (liveCount s) ++ List.range' (liveCount s) (slotCount s - liveCount s) := by
    have hle := liveCount_le s
    have happ := List.range'_append_1 (s := 0) (m := liveCount s) (n := slotCount s - liveCount s)
    rw [List.range_eq_range', List.range_eq_range', Nat.zero_add] at *
    rw [happ]
    congr 1
    omega
  have hfront : ∀ e ∈ (List.range (liveCount s)).map (rootSlot s), (decide ¬ e.isEnd) = true := by
    intro e he
    obtain ⟨n, hn, rfl⟩ := List.mem_map.mp he
    have hlive := (liveSlot_iff_liveCount s n).mpr (List.mem_range.mp hn)
    exact decide_eq_true (hlive.2 n (Nat.le_refl n))
  rw [liveEntries, hsplit, List.map_append, List.takeWhile_append_of_pos hfront]
  have hback : ((List.range' (liveCount s) (slotCount s - liveCount s)).map (rootSlot s)).takeWhile
      (fun e ↦ ¬ e.isEnd) = [] := by
    cases hfree : firstFreeSlot s with
    | none => rw [show slotCount s - liveCount s = 0 by rw [liveCount, hfree]; simp]; rfl
    | some m =>
      obtain ⟨hlt, hend, -⟩ := (firstFreeSlot_eq_some_iff s m).mp hfree
      have hm : liveCount s = m := by rw [liveCount, hfree]; rfl
      rw [hm, show slotCount s - m = (slotCount s - m - 1) + 1 by omega, List.range'_succ,
        List.map_cons, List.takeWhile_cons_of_neg (by simpa using hend)]
  rw [hback, List.append_nil]

theorem storeOf_rows (s : FsState Disk) : (fat12ListRoot s).2 = (storeOf s).rows := by
  have hmap : (storeOf s).files = (List.range (liveCount s)).map (fileAt s) := rfl
  rw [fat12ListRoot_rows, liveEntries_eq, Store.rows, hmap, List.filter_map, List.filter_map,
    List.map_map, List.map_map]
  rfl

/-! ## Writing -/

theorem padded_eq (data : Bytes) : padded ((List.range 256).map data) =
    (List.range 512).map fun a ↦ if a < 256 then data a else 0 := by
  have hlen : (padded ((List.range 256).map data)).length = 512 := by
    rw [padded, List.length_append, List.length_replicate, List.length_map, List.length_range]
  refine List.ext_getElem (by rw [hlen, List.length_map, List.length_range]) fun a ha ha' ↦ ?_
  have hlt : a < 512 := by simpa using ha'
  simp only [padded, List.getElem_append, List.length_map, List.length_range, List.getElem_map,
    List.getElem_range, List.getElem_replicate]
  split_ifs <;> rfl

/-- The first cluster of a live slot, at the head of its chain. -/
theorem WellFormed.head {bpb : BPB} {s : FsState Disk} (h : WellFormed bpb s) {n : Nat}
    (hn : LiveSlot s n) : ∃ cs, FatChain s.fatBuffer (rootSlot s n).firstCluster
      ((rootSlot s n).firstCluster :: cs) ∧
      ∀ c ∈ (rootSlot s n).firstCluster :: cs, 2 ≤ c.toNat ∧ c.toNat ≤ 4083 := by
  obtain ⟨cs, hne, hchain, hdata⟩ := h.chain n hn
  cases cs with
  | nil => exact absurd rfl hne
  | cons c cs =>
    have hc : (rootSlot s n).firstCluster = c := hchain.next_eq.1
    rw [hc] at hchain ⊢
    exact ⟨cs, hchain, hdata⟩

-- The chain has a first cluster, and the 256 bytes and the zeros behind them fill its sector.
theorem storeOf_write {bpb : BPB} {s : FsState Disk} (h : WellFormed bpb s)
    (hspc : bpb.sectorsPerCluster = 1) (hfats : bpb.numFats = 2) {file : FAT12File} {n : Nat}
    (hn : LiveSlot s n) (hfile : file.firstCluster = (rootSlot s n).firstCluster) (data : Bytes) :
    storeOf (fat12Write s (some file) data 256).1 =
      { storeOf s with
        files := (storeOf s).files.modify n (StoredFile.overwrite ((List.range 256).map data)) } := by
  obtain ⟨-, hconf, -⟩ := h.write hspc hfats hn hfile data 256
  generalize hw : (fat12Write s (some file) data 256).1 = w at hconf
  obtain ⟨cs, hchain, hdata⟩ := h.head hn
  have hroot := hconf.root
  have hcount : liveCount w = liveCount s := by
    rw [liveCount, liveCount, hroot.firstFreeSlot, hroot.slotCount]
  have hfiles : (storeOf w).files =
      (storeOf s).files.modify n (StoredFile.overwrite ((List.range 256).map data)) := by
    refine List.ext_getElem (by simp [storeOf_length, hcount]) fun m hm hm' ↦ ?_
    have hms : m < (storeOf s).files.length := by simpa using hm'
    have hmc : m < liveCount s := by rwa [storeOf_length] at hms
    have hlive := (liveSlot_iff_liveCount s m).mpr hmc
    have hslot := hroot.rootSlot hlive.1
    rw [storeOf_getElem w hm, List.getElem_modify, storeOf_getElem s hms, fileAt, hslot,
      hroot.mountInfo]
    by_cases hmn : n = m
    · rw [if_pos hmn, StoredFile.overwrite, padded_eq, ← hmn]
      simp only [fileAt, StoredFile.mk.injEq, true_and]
      refine List.map_congr_left fun a ha ↦ ?_
      have hlt := List.mem_range.mp ha
      have hbytes := fat12Write_bytes h.mounted hspc ⟨rfl, rfl, rfl⟩ file
        (by rw [hfile]; exact hchain) (fun c hc ↦ (hdata c hc).1) data 256 (a := a)
        (by rw [List.length_cons]; omega)
      have hmoved : moved 256 ((rootSlot s n).firstCluster :: cs) = 256 :=
        moved_of_le (by rw [List.length_cons]; change 256 ≤ _; omega)
      rw [hmoved, chainByte_first _ _ _ _ hlt, hw] at hbytes
      rw [hbytes]
      split_ifs
      · rfl
      · rfl
    · rw [if_neg hmn]
      simp only [fileAt, StoredFile.mk.injEq, true_and]
      obtain ⟨ds, hds, -⟩ := h.head hlive
      rw [hconf.other m hlive (fun heq ↦ hmn heq.symm) _ hds _ List.mem_cons_self]
  refine Store.ext hfiles ?_ ?_
  · simp only [storeOf_slots, hroot.slotCount]
  · simp only [storeOf_free, hconf.fatBuffer]

/-! ## Creating -/

-- Of a list without repetitions, one element that counted no longer does.
theorem countP_but_one {l : List Nat} {p : Nat → Bool} {x : Nat} (hl : l.Nodup) (hx : x ∈ l)
    (hp : p x = true) : l.countP p = l.countP (fun i ↦ p i && i != x) + 1 := by
  have hone : l.countP (fun i ↦ p i && i == x) = 1 := by
    rw [← List.count_eq_one_of_mem hl hx, List.count]
    refine List.countP_congr fun i _ ↦ ?_
    rw [Bool.and_eq_true]
    refine and_iff_right_of_imp fun heq ↦ ?_
    rw [beq_iff_eq.mp heq, hp]
  rw [List.countP_eq_countP_filter_add l p (fun i ↦ i != x), List.countP_filter, List.countP_filter,
    ← hone]
  congr 2
  funext i
  rw [bne, Bool.not_not]

-- Taking a cluster leaves one less to be counted.
theorem freeCount_took {c : u16} {fat fat' : Bytes} (hc : FreeCluster fat c)
    (h : TookCluster c fat fat') : freeCount fat' = freeCount fat - 1 := by
  have hself : BitVec.ofNat 16 c.toNat = c := BitVec.eq_of_toNat_eq (by
    rw [BitVec.toNat_ofNat, Nat.mod_eq_of_lt c.isLt])
  have hnot : ¬ FreeCluster fat' c := fun hfree ↦ by
    have heof := hfree.2.2
    rw [h.1] at heof
    exact absurd heof (by decide)
  have htaken (i : Nat) (hi : i ∈ List.range 4084) :
      FreeCluster fat' (BitVec.ofNat 16 i) ↔
        FreeCluster fat (BitVec.ofNat 16 i) ∧ i ≠ c.toNat := by
    have hlt := List.mem_range.mp hi
    by_cases heq : i = c.toNat
    · rw [heq, hself]
      exact iff_of_false hnot fun hcon ↦ hcon.2 rfl
    · have hne : BitVec.ofNat 16 i ≠ c := fun hcon ↦ heq (by
        rw [← hcon, BitVec.toNat_ofNat, Nat.mod_eq_of_lt (by omega)])
      have hsame : FreeCluster fat' (BitVec.ofNat 16 i) ↔ FreeCluster fat (BitVec.ofNat 16 i) :=
        and_congr_right fun _ ↦ and_congr_right fun _ ↦ by rw [h.2 _ hne]
      rw [hsame, and_iff_left heq]
  have hcount := countP_but_one (p := fun i ↦ FreeCluster fat (BitVec.ofNat 16 i))
    List.nodup_range (List.mem_range.mpr hc.2.1) (by rw [hself]; exact decide_eq_true hc)
  rw [freeCount, freeCount, hcount, Nat.add_sub_cancel]
  refine List.countP_congr fun i hi ↦ ?_
  rw [decide_eq_true_eq, htaken i hi, Bool.and_eq_true, decide_eq_true_eq, bne_iff_ne]

section Created

variable {bpb : BPB} {s t : FsState Disk} {filename : CString} {size : u32} {n : Nat} {first : u16}

-- Creating a file writes to the FATs and to the root directory, which lie before the data.
theorem Created.data (h : Created s filename size n first t) (hm : Mounted bpb s)
    (hfats : bpb.numFats = 2) (hn : n < Fs.slotCount s) {l : Nat}
    (hl : s.mountInfo.dataStart.toNat ≤ l) : t.disk.sector l = s.disk.sector l := by
  have hsector : n / 16 < s.mountInfo.rootSize.toNat := by
    rw [Fs.slotCount] at hn
    omega
  have hroot := hm.rootLba_eq hsector
  rw [h.other l (by omega)]
  have hmounted : Mounted bpb { s with fatBuffer := t.fatBuffer } := ⟨hm.bytesPerSector, hm.mountInfo⟩
  have hsync := syncFat_spec hmounted
  refine hsync.outside l (Or.inr ?_)
  have hstart := hm.rootStart_eq hfats
  have hdata := bpb.dataStart_toNat
  rw [← hm.mountInfo] at hdata
  dsimp only
  omega

/-- The new file comes behind the others; its cluster still holds what it held before. -/
theorem storeOf_created (h : Created s filename size n first t) (hwf : WellFormed bpb s)
    (hspc : bpb.sectorsPerCluster = 1) (hfats : bpb.numFats = 2) (hn : firstFreeSlot s = some n)
    (hfree : FreeCluster s.fatBuffer first) (htook : TookCluster first s.fatBuffer t.fatBuffer) :
    liveCount s = n ∧ ∃ block, storeOf t =
      { storeOf s with
        files := (storeOf s).files ++ [⟨dosName filename, ATTR_ARCHIVE, size, block⟩]
        free := (storeOf s).free - 1 } := by
  have hm := hwf.mounted
  have hcount : liveCount s = n := by rw [liveCount, hn]; rfl
  have hslots := ((firstFreeSlot_eq_some_iff s n).mp hn).1
  have hcountT : liveCount t = n + 1 := by
    have hiff (m : Nat) : m < liveCount t ↔ m < n + 1 := by
      rw [← liveSlot_iff_liveCount, h.liveSlot_iff hm hfats hwf.tail hn, liveSlot_iff_lt hn]
      omega
    have hlt := (hiff n).mpr (Nat.lt_succ_self n)
    have hge := (hiff (n + 1)).not.mpr (Nat.lt_irrefl _)
    omega
  have hold (m : Nat) (hmn : m < n) : fileAt t m = fileAt s m := by
    have hlive := (liveSlot_iff_lt hn m).mpr hmn
    obtain ⟨cs, -, hdata⟩ := hwf.head hlive
    have h2 := (hdata _ List.mem_cons_self).1
    have hlba := hm.clusterLba_eq hspc (c := (rootSlot s m).firstCluster) (by omega)
    have hkeep := h.data hm hfats hslots
      (l := lba28 (clusterLba s.mountInfo (rootSlot s m).firstCluster)) (by omega)
    rw [fileAt, fileAt, (h.kept hm hfats hn hlive).2, h.mountInfo, hkeep]
  refine ⟨hcount, (fileAt t n).block, Store.ext ?_ ?_ ?_⟩
  · have hfiles (u : FsState Disk) : (storeOf u).files = (List.range (liveCount u)).map (fileAt u) :=
      rfl
    simp only [hfiles, hcount, hcountT, List.range_succ, List.map_append, List.map_singleton]
    refine congrArg₂ _ (List.map_congr_left fun m hmn ↦ hold m (List.mem_range.mp hmn)) ?_
    simp only [fileAt, h.rootSlot_new, newEntry]
  · simp only [storeOf_slots, h.slotCount]
  · simp only [storeOf_free, freeCount_took hfree htook]

end Created

/-! ## Saving -/

/-- `fat12_create`, `fat12_open` and `fat12_write` one after the other, as the command does. -/
def saveFile (s : FsState Disk) (file : CString) (buff : Bytes) : FsState Disk :=
  let r := fat12Open (fat12Create s file 256 true).1 file true
  (fat12Write r.1 r.2 buff 256).1

theorem saveFile_of_lookup {bpb : BPB} {s t : FsState Disk} (hwf : WellFormed bpb t)
    (hspc : bpb.sectorsPerCluster = 1) (hfats : bpb.numFats = 2) {file : CString} (buff : Bytes)
    (hcreate : (fat12Create s file 256 true).1 = t) {n : Nat}
    (hn : lookup t (dosName file) = some n) :
    WellFormed bpb (saveFile s file buff) ∧ storeOf (saveFile s file buff) =
      { storeOf t with
        files := (storeOf t).files.modify n (StoredFile.overwrite ((List.range 256).map buff)) } := by
  have hlive := ((lookup_eq_some_iff t (dosName file) n).mp hn).1
  have hopen := fat12Open_of_lookup hn
  have hsame := (fat12Open_spec t file true).1
  have hwf₁ := hwf.of_sameRoot hsame.sameRoot hsame.fatBuffer
  have hlive₁ := (hsame.sameRoot.liveSlot_iff n).mpr hlive
  have hfile : (newHandle file (rootSlot t n)).firstCluster =
      (rootSlot (fat12Open t file true).1 n).firstCluster := by
    rw [hsame.sameRoot.rootSlot hlive.1]
    rfl
  have hsave : saveFile s file buff = (fat12Write (fat12Open t file true).1
      (some (newHandle file (rootSlot t n))) buff 256).1 := by
    rw [saveFile, hcreate, hopen]
  rw [hsave, storeOf_write hwf₁ hspc hfats hlive₁ hfile buff, hsame.storeOf]
  exact ⟨(hwf₁.write hspc hfats hlive₁ hfile buff 256).1, rfl⟩

theorem modify_append_last {α : Type} (l : List α) (a : α) (f : α → α) :
    (l ++ [a]).modify l.length f = l ++ [f a] := by
  induction l with
  | nil => rfl
  | cons b l ih => rw [List.cons_append, List.length_cons, List.modify_succ_cons, ih, List.cons_append]

/-- On a well formed volume a file is saved as in the store. -/
theorem storeOf_saveFile {bpb : BPB} {s : FsState Disk} (h : WellFormed bpb s)
    (hspc : bpb.sectorsPerCluster = 1) (hfats : bpb.numFats = 2) (file : CString) (buff : Bytes) :
    WellFormed bpb (saveFile s file buff) ∧ storeOf (saveFile s file buff) =
      (storeOf s).save (dosName file) ((List.range 256).map buff) := by
  have hwfCreate : WellFormed bpb (fat12Create s file 256 true).1 :=
    (h.create hfats file true (by decide) (by decide)).1
  rw [Store.save, storeOf_find]
  rcases fat12Create_cases s file 256 true with
    ⟨hrefused, -, hsame⟩ | ⟨hroom, -, n, first, hn, hcr⟩
  · cases hlook : lookup s (dosName file) with
    | some n =>
      have hlookT : lookup (fat12Create s file 256 true).1 (dosName file) = some n := by
        rw [hsame.sameRoot.lookup, hlook]
      have hsaved := saveFile_of_lookup hwfCreate hspc hfats buff rfl hlookT
      rwa [hsame.storeOf] at hsaved
    | none =>
      -- there is no room, so there is no file to write to
      have hfull : ¬ (storeOf s).HasRoom := fun hroom ↦ by
        obtain ⟨hslot, hcluster⟩ := (storeOf_hasRoom_iff s).mp hroom
        rcases hrefused with ⟨-, hfound⟩ | hnone | ⟨-, hzero⟩
        · exact hfound hlook
        · exact hslot hnone
        · exact hcluster hzero
      have hopen := fat12Open_spec (fat12Create s file 256 true).1 file true
      have hnone : (fat12Open (fat12Create s file 256 true).1 file true).2 = none := by
        rw [hopen.2, if_pos rfl, hsame.sameRoot.lookup, hlook, Option.map_none]
      have hsave : saveFile s file buff = (fat12Open (fat12Create s file 256 true).1 file true).1 := by
        rw [saveFile, hnone]
        rfl
      have hkeep := hsame.trans hopen.1
      dsimp only
      rw [if_neg hfull, hsave, hkeep.storeOf]
      exact ⟨h.of_sameRoot hkeep.sameRoot hkeep.fatBuffer, rfl⟩
  · have hnew : lookup s (dosName file) = none := by
      by_contra hfound
      exact hroom (Or.inl ⟨rfl, hfound⟩)
    have hslot : firstFreeSlot s ≠ none := fun hnone ↦ by rw [hn] at hnone; cases hnone
    rcases hcr.allocated with ⟨hzero, -, -⟩ | ⟨-, hfirst, hne, htook⟩
    · exact absurd hzero (clustersNeeded_ne_zero (by decide) (by decide))
    rw [hfirst] at hne
    have hfree := freeCluster_findFreeCluster hne
    rw [← hfirst] at hfree
    have hhas := (storeOf_hasRoom_iff s).mpr ⟨hslot, hne⟩
    obtain ⟨hcount, block, hstore⟩ := storeOf_created hcr h hspc hfats hn hfree htook
    have hlookT : lookup (fat12Create s file 256 true).1 (dosName file) = some n := by
      rw [hcr.lookup h.mounted hfats h.tail hn hnew, if_pos rfl]
    obtain ⟨hwf, hsaved⟩ := saveFile_of_lookup hwfCreate hspc hfats buff rfl hlookT
    refine ⟨hwf, ?_⟩
    have hlen : (storeOf s).files.length = n := (storeOf_length s).trans hcount
    rw [hsaved, hstore, hnew]
    dsimp only
    rw [if_pos hhas, ← hlen, modify_append_last]
    rfl

/-- After the call for a new file it can be opened, unless it is missing for want of room. -/
theorem lookup_of_create {bpb : BPB} {s : FsState Disk} (h : WellFormed bpb s)
    (hfats : bpb.numFats = 2) (file : CString) :
    (lookup (fat12Create s file 256 true).1 (dosName file)).isSome ↔
      (lookup s (dosName file)).isSome ∨ (storeOf s).HasRoom := by
  rw [storeOf_hasRoom_iff]
  rcases fat12Create_cases s file 256 true with
    ⟨hrefused, -, hsame⟩ | ⟨hroom, -, n, first, hn, hcr⟩
  · rw [hsame.sameRoot.lookup, iff_self_or]
    intro hhas
    rcases hrefused with ⟨-, hfound⟩ | hnone | ⟨-, hzero⟩
    · exact Option.isSome_iff_ne_none.mpr hfound
    · exact absurd hnone hhas.1
    · exact absurd hzero hhas.2
  · have hnew : lookup s (dosName file) = none := by
      by_contra hfound
      exact hroom (Or.inl ⟨rfl, hfound⟩)
    have hcluster : findFreeCluster s.fatBuffer ≠ 0 := fun hzero ↦
      hroom (Or.inr (Or.inr ⟨by decide, hzero⟩))
    have hslot : firstFreeSlot s ≠ none := fun hnone ↦ hroom (Or.inr (Or.inl hnone))
    rw [hcr.lookup h.mounted hfats h.tail hn hnew, if_pos rfl]
    exact iff_of_true rfl (Or.inr ⟨hslot, hcluster⟩)

-- Data that end in zeros are saved like the data without them.
theorem padded_of_getD {data : Bytes} {l : List u8} (hlen : l.length ≤ 256)
    (h : ∀ i < 256, data i = l.getD i 0) : padded ((List.range 256).map data) = padded l := by
  have hl : (padded l).length = 512 := by
    rw [padded, List.length_append, List.length_replicate]
    omega
  rw [padded_eq]
  refine List.ext_getElem (by rw [hl, List.length_map, List.length_range]) fun a ha ha' ↦ ?_
  have hlt : a < 512 := by simpa using ha
  simp only [padded, List.getElem_append, List.getElem_map, List.getElem_range,
    List.getElem_replicate]
  split_ifs with hin hlow hlow
  · rw [h a hin, List.getD_eq_getElem _ _ hlow]
  · rw [h a hin, List.getD_eq_default _ _ (by omega)]
  · omega
  · rfl

theorem Store.save_congr (st : Store) (name : DosName) {data data' : List u8}
    (h : padded data = padded data') : st.save name data = st.save name data' := by
  have hover : StoredFile.overwrite data = StoredFile.overwrite data' := by
    funext f
    rw [StoredFile.overwrite, StoredFile.overwrite, h]
  rw [Store.save, Store.save, hover, h]

/-! ## Loading -/

theorem Store.load_length (st : Store) (name : DosName) : (st.load name).length ≤ 256 := by
  unfold Store.load
  split
  · exact (List.length_take_le _ _).trans (Nat.min_le_left _ _)
  · exact Nat.zero_le _

/-- `fat12_open` and `fat12_read` one after the other. -/
def loadFile (s : FsState Disk) (file : CString) (buff : Bytes) : ReadResult Disk :=
  let r := fat12Open s file true
  fat12Read r.1 r.2 buff 256

/-- On a well formed volume the bytes that are read are those of the store, and nothing changes. -/
theorem storeOf_loadFile {bpb : BPB} {s : FsState Disk} (h : WellFormed bpb s) (file : CString)
    (buff : Bytes) : SameVolume s (loadFile s file buff).fs ∧
      ∀ a, (loadFile s file buff).buffer a =
        if a < ((storeOf s).load (dosName file)).length then
          ((storeOf s).load (dosName file)).getD a 0
        else buff a := by
  have hopen := fat12Open_spec s file true
  cases hlook : lookup s (dosName file) with
  | none =>
    have hnone : (fat12Open s file true).2 = none := by rw [hopen.2, hlook]; rfl
    have hload : (storeOf s).load (dosName file) = [] := by
      rw [Store.load, storeOf_find, hlook]
      rfl
    rw [loadFile, hnone, hload]
    exact ⟨hopen.1, fun a ↦ (if_neg (Nat.not_lt_zero a)).symm⟩
  | some n =>
    have hlive := ((lookup_eq_some_iff s (dosName file) n).mp hlook).1
    have hlt := (liveSlot_iff_liveCount s n).mp hlive
    have hhandle := fat12Open_of_lookup hlook
    obtain ⟨cs, hchain, -⟩ := h.head hlive
    have hload : (storeOf s).load (dosName file) =
        (fileAt s n).block.take (min 256 (rootSlot s n).fileSize.toNat) := by
      have hget : (storeOf s).files[n]? = some (fileAt s n) := by
        rw [List.getElem?_eq_getElem (by rw [storeOf_length]; exact hlt), storeOf_getElem]
      rw [Store.load, storeOf_find, hlook, Option.bind_some, hget]
      rfl
    have hchain₁ : FatChain (fat12Open s file true).1.fatBuffer
        (newHandle file (rootSlot s n)).currentCluster ((rootSlot s n).firstCluster :: cs) := by
      rw [hopen.1.fatBuffer]
      exact hchain
    have hfile : (newHandle file (rootSlot s n)).eof = false := rfl
    obtain ⟨file', hread⟩ := fat12Read_chain (fat12Open s file true).1 buff 256 hfile hchain₁
    have hmoved : moved (readSize (newHandle file (rootSlot s n)) 256)
        ((rootSlot s n).firstCluster :: cs) = min 256 (rootSlot s n).fileSize.toNat := by
      have hsize : (readSize (newHandle file (rootSlot s n)) 256).toNat =
          min 256 (rootSlot s n).fileSize.toNat := by
        have hsub : (rootSlot s n).fileSize - 0 = (rootSlot s n).fileSize := BitVec.sub_zero _
        simp only [readSize, newHandle, hsub]
        split_ifs with hlt
        · have hlt' : (rootSlot s n).fileSize.toNat < 256 := hlt
          omega
        · have hge : ¬ (rootSlot s n).fileSize.toNat < 256 := hlt
          change 256 = _
          omega
      rw [moved_of_le (by rw [hsize, List.length_cons]; omega), hsize]
    rw [hmoved] at hread
    have hlen : ((storeOf s).load (dosName file)).length = min 256 (rootSlot s n).fileSize.toNat := by
      rw [hload, List.length_take, fileAt, List.length_map, List.length_range]
      omega
    rw [loadFile, hhandle]
    refine ⟨hopen.1.trans hread.volume, fun a ↦ ?_⟩
    rw [hread.buffer, hlen]
    by_cases hin : a < min 256 (rootSlot s n).fileSize.toNat
    · rw [if_pos hin, if_pos hin, hload, chainByte_first _ _ _ _ (by omega), hopen.1.disk,
        hopen.1.mountInfo]
      have ha : a < 512 := by omega
      simp [fileAt, hin]
    · rw [if_neg hin, if_neg hin]

end TenOs.Fs
