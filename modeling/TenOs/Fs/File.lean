import TenOs.Fs.Directory

/-!
# `fs/fs.c`: the operations on files

`fat12_open`, `fat12_read`, `fat12_write`, `fat12_create` and `fat12_list_root`, over any drive.
A handle is the page that `fat12_open` fills; a null pointer is `none`.
-/

namespace TenOs.Fs

open TenOs.Base TenOs.Lib TenOs.Drivers

structure FAT12File where
  name : List u8
  firstCluster : u16
  currentCluster : u16
  fileSize : u32
  position : u32
  attributes : u8
  eof : Bool

def ATTR_VOLUME_ID : u8 := 0x08#8
def ATTR_DIRECTORY : u8 := 0x10#8
def ATTR_ARCHIVE : u8 := 0x20#8

variable {D : Type} [SectorDevice D]

/-! ## Opening -/

/-- The handle for an entry.  `name` is the copy of the 256 bytes from `filename` on. -/
def newHandle (filename : CString) (e : DirectoryEntry) : FAT12File where
  name := (List.range 256).map filename.byte
  firstCluster := e.firstCluster
  currentCluster := e.firstCluster
  fileSize := e.fileSize
  position := 0
  attributes := e.attributes
  eof := false

/-- `fat12_open`; `page` says whether `vmmngr_alloc_page` returns a page for the handle. -/
def fat12Open (s : FsState D) (filename : CString) (page : Bool) : FsState D × Option FAT12File :=
  let r := scanRoot (openBody (toDosFilename filename fun _ ↦ 0)) s
  match r.2.join with
  | some e => (r.1, if page then some (newHandle filename e) else none)
  | none => (r.1, none)

/-! ## Reading and writing -/

/-- `data_start + (cluster - 2) * sectors_per_cluster`. -/
def clusterLba (mountInfo : FAT12MountInfo) (cluster : u16) : u32 :=
  mountInfo.dataStart + (cluster.setWidth 32 - 2) * mountInfo.sectorsPerCluster.setWidth 32

/-- What one turn of a loop moves of the `size` bytes that are left: at most a sector. -/
def pieceSize (size : u32) : u32 := if 512#32 < size then 512#32 else size

/-- How many turns it takes to move `size` bytes. -/
def turns (size : u32) : Nat := (size.toNat + 511) / 512

structure ReadState (D : Type) where
  fs : FsState D
  file : FAT12File
  buffer : Bytes
  bytesRead : u32

/-- One turn of the loop of `fat12_read`: it always copies from the start of the sector. -/
def readTurn (r : ReadState D) (size : u32) : ReadState D :=
  let fs := r.fs.readToBuffer (clusterLba r.fs.mountInfo r.file.currentCluster)
  let bytesToCopy := pieceSize size
  { fs
    file := { r.file with
      position := r.file.position + bytesToCopy
      currentCluster := getNextCluster fs.fatBuffer r.file.currentCluster }
    buffer := memcpy r.buffer r.bytesRead.toNat fs.sectorBuffer 0 bytesToCopy.toNat
    bytesRead := r.bytesRead + bytesToCopy }

/-- The `while` loop of `fat12_read`.  A turn takes at least one byte off `size`, so `turns size`
turns reach its end. -/
def readLoop : (fuel : Nat) → ReadState D → (size : u32) → ReadState D
  | 0, r, _ => r
  | fuel + 1, r, size =>
      if 0 < size ∧ r.file.currentCluster < FAT12_EOF_MIN then
        readLoop fuel (readTurn r size) (size - pieceSize size)
      else r

structure ReadResult (D : Type) where
  fs : FsState D
  file : Option FAT12File
  buffer : Bytes
  ret : Int

/-- `fat12_read`. -/
def fat12Read (s : FsState D) (file : Option FAT12File) (buffer : Bytes) (size : u32) :
    ReadResult D :=
  match file with
  | none => ⟨s, none, buffer, 0⟩
  | some file =>
      if file.eof then ⟨s, some file, buffer, 0⟩
      else
        let bytesRemaining := file.fileSize - file.position
        let size := if bytesRemaining < size then bytesRemaining else size
        let r := readLoop (turns size) ⟨s, file, buffer, 0⟩ size
        let file :=
          if FAT12_EOF_MIN ≤ r.file.currentCluster then { r.file with eof := true } else r.file
        ⟨r.fs, some file, r.buffer, r.bytesRead.toInt⟩

structure WriteState (D : Type) where
  fs : FsState D
  file : FAT12File
  bytesWritten : u32

/-- One turn of the loop of `fat12_write`; `buffer` is the caller's and `bytesWritten` how far the
pointer has moved. -/
def writeTurn (buffer : Bytes) (w : WriteState D) (size : u32) : WriteState D :=
  let lba := clusterLba w.fs.mountInfo w.file.currentCluster
  let bytesToWrite := pieceSize size
  let cleared := memset w.fs.sectorBuffer 0 0 512
  let filled := memcpy cleared 0 buffer w.bytesWritten.toNat bytesToWrite.toNat
  let fs := { w.fs with sectorBuffer := filled }.writeFromBuffer lba
  { fs
    file := { w.file with currentCluster := getNextCluster fs.fatBuffer w.file.currentCluster }
    bytesWritten := w.bytesWritten + bytesToWrite }

/-- The `while` loop of `fat12_write`. -/
def writeLoop (buffer : Bytes) : (fuel : Nat) → WriteState D → (size : u32) → WriteState D
  | 0, w, _ => w
  | fuel + 1, w, size =>
      if 0 < size ∧ w.file.currentCluster < FAT12_EOF_MIN then
        writeLoop buffer fuel (writeTurn buffer w size) (size - pieceSize size)
      else w

/-- `fat12_write`. -/
def fat12Write (s : FsState D) (file : Option FAT12File) (buffer : Bytes) (size : u32) :
    FsState D × Option FAT12File × Int :=
  match file with
  | none => (s, none, -1)
  | some file =>
      let file := { file with currentCluster := file.firstCluster }
      let w := writeLoop buffer (turns size) ⟨s, file, 0⟩ size
      (w.fs, some w.file, w.bytesWritten.toInt)

/-! ## Creating -/

/-- "Write to both FATs", one sector of the cached FAT. -/
def syncTurn (i : Nat) (s : FsState D) : FsState D :=
  let disk := writeSector s.disk (fatLba s.mountInfo i) s.fatBuffer (i * 512)
  { s with disk := writeSector disk (fatCopyLba s.mountInfo i) s.fatBuffer (i * 512) }

/-- `sync_fat`. -/
def syncFat (s : FsState D) : FsState D := forLoop syncTurn s.mountInfo.sectorsPerFat.toNat 0 s

/-- The allocation loop of `fat12_create` from turn `i` on, with `k` turns left.  Returns the cached
FAT and, unless the volume ran out of clusters, `first_cluster`. -/
def allocateClusters (clustersNeeded : u32) :
    (k i : Nat) → (fat : Bytes) → (firstCluster prevCluster : u16) → Bytes × Option u16
  | 0, _, fat, firstCluster, _ => (fat, some firstCluster)
  | k + 1, i, fat, firstCluster, prevCluster =>
      let cluster := findFreeCluster fat
      if cluster = 0 then (fat, none)
      else
        let fat := if i = 0 then fat else setClusterValue fat prevCluster cluster
        let fat := setClusterValue fat cluster
          (if BitVec.ofNat 32 i = clustersNeeded - 1 then FAT12_EOF else 0)
        allocateClusters clustersNeeded k (i + 1) fat (if i = 0 then cluster else firstCluster)
          cluster

/-- The sector buffer with entry `i` filled in for the new file. -/
def fillEntry (buffer : Bytes) (i : Nat) (dosName : Bytes) (firstCluster : u16) (size : u32) :
    Bytes :=
  let buffer := memcpy buffer (32 * i) dosName 0 11
  let buffer := Function.update buffer (32 * i + 11) ATTR_ARCHIVE
  let buffer := write16 buffer (32 * i + 26) firstCluster
  write32 buffer (32 * i + 28) size

/-- The end of `fat12_create`: read the directory sector, fill in the entry, write it back. -/
def storeEntry (s : FsState D) (dirSector dirIndex : Nat) (dosName : Bytes) (firstCluster : u16)
    (size : u32) : FsState D :=
  let lba := s.mountInfo.rootStart + BitVec.ofNat 32 dirSector
  let s := s.readToBuffer lba
  let filled := fillEntry s.sectorBuffer dirIndex dosName firstCluster size
  { s with sectorBuffer := filled }.writeFromBuffer lba

/-- `fat12_create` with the value it returns; `page` is for the call of `fat12_open`. -/
def fat12Create (s : FsState D) (filename : CString) (size : u32) (page : Bool) :
    FsState D × Int :=
  let dosName := toDosFilename filename fun _ ↦ 0
  let opened := fat12Open s filename page
  if opened.2.isSome then (opened.1, -1)
  else
    let free := findFreeDirEntry opened.1
    match free.2 with
    | none => (free.1, -1)
    | some (dirSector, dirIndex) =>
        let s := free.1
        let clustersNeeded := (size + 511#32) / 512#32
        let alloc := allocateClusters clustersNeeded clustersNeeded.toNat 0 s.fatBuffer 0 0
        let s := { s with fatBuffer := alloc.1 }
        match alloc.2 with
        | none => (s, -1)
        | some firstCluster =>
            (storeEntry (syncFat s) dirSector dirIndex dosName firstCluster size, 0)

/-! ## Listing -/

/-- The text of `name[13]` before its NUL. -/
def renderName (e : DirectoryEntry) : List u8 :=
  let filename := (List.ofFn fun j : Fin 8 ↦ e.name (j.castAdd 3)).takeWhile (· ≠ charSpace)
  let extension := (List.ofFn fun k : Fin 3 ↦ e.name (k.natAdd 8)).takeWhile (· ≠ charSpace)
  if e.name (Fin.natAdd 8 (0 : Fin 3)) = charSpace then filename
  else filename ++ charDot :: extension

/-- One turn of the inner loop of `fat12_list_root` over the rows printed so far; `some ()` is
`goto end_list`. -/
def listBody (buffer : Bytes) (i : Nat) (rows : List (List u8 × u32)) :
    List (List u8 × u32) × Option Unit :=
  let e := entryAt buffer i
  if charToInt (buffer (32 * i)) = 0x00 then (rows, some ())
  else if charToInt (buffer (32 * i)) = 0xE5 then (rows, none)
  else if e.attributes &&& (ATTR_VOLUME_ID ||| ATTR_DIRECTORY) ≠ 0 then (rows, none)
  else (rows ++ [(renderName e, e.fileSize)], none)

/-- `fat12_list_root`: the name and size it prints in each row; it returns their number. -/
def fat12ListRoot (s : FsState D) : FsState D × List (List u8 × u32) :=
  (forReturn (fun sector (st : FsState D × List (List u8 × u32)) ↦
      let s := st.1.readToBuffer (st.1.mountInfo.rootStart + BitVec.ofNat 32 sector)
      let r := forReturn (fun i rows ↦ listBody s.sectorBuffer i rows) 16 0 st.2
      ((s, r.1), r.2))
    s.mountInfo.rootSize.toNat 0 (s, [])).1

/-! ## What each operation keeps -/

section Frame

variable (s : FsState Disk)

/-- `fat12_open` returns a handle for the entry that `lookup` finds, if there is a page for it, and
changes nothing but the sector buffer. -/
theorem fat12Open_spec (filename : CString) (page : Bool) :
    SameVolume s (fat12Open s filename page).1 ∧
      (fat12Open s filename page).2 =
        if page then (lookup s (dosName filename)).map fun n ↦ newHandle filename (rootSlot s n)
        else none := by
  obtain ⟨hsame, hscan⟩ := scanRoot_spec s (openBody (toDosFilename filename fun _ ↦ 0))
    (fun n ↦ (lookupBody s (dosName filename) n).map (Option.map (rootSlot s)))
    fun b k i hi hb ↦ openBody_eq s filename hi hb
  rw [firstFrom_map] at hscan
  unfold fat12Open lookup
  simp only [hscan]
  rcases firstFrom (lookupBody s (dosName filename)) (slotCount s) 0 with _ | _ | n
  · exact ⟨hsame, by cases page <;> rfl⟩
  · exact ⟨hsame, by cases page <;> rfl⟩
  · exact ⟨hsame, rfl⟩

theorem fat12ListRoot_spec : SameVolume s (fat12ListRoot s).1 := by
  unfold fat12ListRoot
  refine forReturn_inv (I := fun st : FsState Disk × List (List u8 × u32) ↦ SameVolume s st.1)
    (fun k st hst ↦ ?_) _ _ ⟨rfl, rfl, rfl⟩
  exact ⟨hst.disk, hst.mountInfo, hst.fatBuffer⟩

/-- Reading changes neither the disk nor the FAT. -/
theorem readLoop_sameVolume (fuel : Nat) (r : ReadState Disk) (size : u32) :
    SameVolume r.fs (readLoop fuel r size).fs := by
  induction fuel generalizing r size with
  | zero => exact ⟨rfl, rfl, rfl⟩
  | succ fuel ih =>
    rw [readLoop]
    split
    · have h := ih (readTurn r size) (size - pieceSize size)
      exact ⟨h.disk, h.mountInfo, h.fatBuffer⟩
    · exact ⟨rfl, rfl, rfl⟩

theorem fat12Read_sameVolume (file : Option FAT12File) (buffer : Bytes) (size : u32) :
    SameVolume s (fat12Read s file buffer size).fs := by
  unfold fat12Read
  split
  · exact ⟨rfl, rfl, rfl⟩
  · split
    · exact ⟨rfl, rfl, rfl⟩
    · rename_i file _
      exact readLoop_sameVolume (turns _) ⟨s, file, buffer, 0⟩ _

/-- Writing changes neither the geometry nor the cached FAT. -/
theorem writeLoop_frame (buffer : Bytes) (fuel : Nat) (w : WriteState Disk) (size : u32) :
    (writeLoop buffer fuel w size).fs.mountInfo = w.fs.mountInfo ∧
      (writeLoop buffer fuel w size).fs.fatBuffer = w.fs.fatBuffer := by
  induction fuel generalizing w size with
  | zero => exact ⟨rfl, rfl⟩
  | succ fuel ih =>
    rw [writeLoop]
    split
    · exact ih (writeTurn buffer w size) _
    · exact ⟨rfl, rfl⟩

theorem syncFat_frame : (syncFat s).mountInfo = s.mountInfo ∧
    (syncFat s).fatBuffer = s.fatBuffer := by
  unfold syncFat
  exact forLoop_inv
    (fun _ (t : FsState Disk) ↦ t.mountInfo = s.mountInfo ∧ t.fatBuffer = s.fatBuffer) ⟨rfl, rfl⟩
    fun i t _ _ ht ↦ ht

end Frame

end TenOs.Fs
