import TenOs.Fs.Handle
import TenOs.Fs.RootMap

/-!
# The sectors of the file operations

`fat12_read` and `fat12_write` only test a cluster number against the end marks, so a walk goes through
the marks for free, reserved and bad clusters as if they were clusters.  The file made by
`fat12_create` for size 0 starts at cluster 0, whose sector lies in the root directory.
-/

namespace TenOs.Fs

open TenOs.Base TenOs.Lib TenOs.Drivers

/-! ## A drive that keeps a log -/

/-- A drive and the sectors it was asked for, the last one at the end. -/
structure LoggedDisk where
  disk : Disk
  log : List u32

instance : SectorDevice LoggedDisk where
  readSector d lba buffer off :=
    let r := readSector d.disk lba buffer off
    (r.1, ⟨r.2, d.log ++ [lba]⟩)
  writeSector d lba buffer off := ⟨writeSector d.disk lba buffer off, d.log ++ [lba]⟩

/-- The driver's state with an empty log, and without the log. -/
def FsState.logged (s : FsState Disk) : FsState LoggedDisk :=
  ⟨⟨s.disk, []⟩, s.mountInfo, s.fatBuffer, s.sectorBuffer⟩

def FsState.unlogged (s : FsState LoggedDisk) : FsState Disk :=
  ⟨s.disk.disk, s.mountInfo, s.fatBuffer, s.sectorBuffer⟩

/-- The sectors that a call of `fat12_read` reads. -/
def sectorsRead (s : FsState Disk) (file : FAT12File) (buffer : Bytes) (size : u32) : List u32 :=
  (fat12Read s.logged (some file) buffer size).fs.disk.log

/-- The sectors that a call of `fat12_write` writes. -/
def sectorsWritten (s : FsState Disk) (file : FAT12File) (buffer : Bytes) (size : u32) : List u32 :=
  (fat12Write s.logged (some file) buffer size).1.disk.log

/-! ## The walk along the chain -/

/-- The clusters of the chain from `c` on, at most `k` of them and up to the end mark. -/
def walked (fat : Bytes) : (k : Nat) → (c : u16) → List u16
  | 0, _ => []
  | k + 1, c => if c < FAT12_EOF_MIN then c :: walked fat k (getNextCluster fat c) else []

theorem readLoop_log (r : ReadState LoggedDisk) (size : u32) :
    (readLoop (turns size) r size).fs.disk.log = r.fs.disk.log ++
      (walked r.fs.fatBuffer (turns size) r.file.currentCluster).map (clusterLba r.fs.mountInfo) := by
  generalize hn : turns size = n
  induction n generalizing r size with
  | zero => exact (List.append_nil _).symm
  | succ n ih =>
    have hpos := pos_of_turns hn
    rw [turns_of_pos hpos] at hn
    rw [readLoop, walked]
    by_cases hgo : r.file.currentCluster < FAT12_EOF_MIN
    · have hrest := ih (readTurn r size) (size - pieceSize size) (Nat.succ.inj hn)
      rw [if_pos ⟨hpos, hgo⟩, if_pos hgo, hrest, List.map_cons, List.append_cons]
      rfl
    · rw [if_neg fun h ↦ hgo h.2, if_neg hgo, List.map_nil, List.append_nil]

theorem writeLoop_log (buffer : Bytes) (w : WriteState LoggedDisk) (size : u32) :
    (writeLoop buffer (turns size) w size).fs.disk.log = w.fs.disk.log ++
      (walked w.fs.fatBuffer (turns size) w.file.currentCluster).map (clusterLba w.fs.mountInfo) := by
  generalize hn : turns size = n
  induction n generalizing w size with
  | zero => exact (List.append_nil _).symm
  | succ n ih =>
    have hpos := pos_of_turns hn
    rw [turns_of_pos hpos] at hn
    rw [writeLoop, walked]
    by_cases hgo : w.file.currentCluster < FAT12_EOF_MIN
    · have hrest := ih (writeTurn buffer w size) (size - pieceSize size) (Nat.succ.inj hn)
      rw [if_pos ⟨hpos, hgo⟩, if_pos hgo, hrest, List.map_cons, List.append_cons]
      rfl
    · rw [if_neg fun h ↦ hgo h.2, if_neg hgo, List.map_nil, List.append_nil]

/-- The log changes nothing: without it the calls are those on the plain drive. -/
theorem readLoop_unlogged (fuel : Nat) (r : ReadState LoggedDisk) (size : u32) :
    readLoop fuel ⟨r.fs.unlogged, r.file, r.buffer, r.bytesRead⟩ size =
      ⟨(readLoop fuel r size).fs.unlogged, (readLoop fuel r size).file,
        (readLoop fuel r size).buffer, (readLoop fuel r size).bytesRead⟩ := by
  induction fuel generalizing r size with
  | zero => rfl
  | succ fuel ih =>
    rw [readLoop, readLoop]
    by_cases hgo : 0 < size ∧ r.file.currentCluster < FAT12_EOF_MIN
    · rw [if_pos hgo, if_pos hgo, ← ih]
      rfl
    · rw [if_neg hgo, if_neg hgo]

theorem writeLoop_unlogged (buffer : Bytes) (fuel : Nat) (w : WriteState LoggedDisk) (size : u32) :
    writeLoop buffer fuel ⟨w.fs.unlogged, w.file, w.bytesWritten⟩ size =
      ⟨(writeLoop buffer fuel w size).fs.unlogged, (writeLoop buffer fuel w size).file,
        (writeLoop buffer fuel w size).bytesWritten⟩ := by
  induction fuel generalizing w size with
  | zero => rfl
  | succ fuel ih =>
    rw [writeLoop, writeLoop]
    by_cases hgo : 0 < size ∧ w.file.currentCluster < FAT12_EOF_MIN
    · rw [if_pos hgo, if_pos hgo, ← ih]
      rfl
    · rw [if_neg hgo, if_neg hgo]

theorem fat12Read_unlogged (s : FsState Disk) (file : FAT12File) (buffer : Bytes) (size : u32) :
    fat12Read s (some file) buffer size =
      let r := fat12Read s.logged (some file) buffer size
      ⟨r.fs.unlogged, r.file, r.buffer, r.ret⟩ := by
  cases heof : file.eof with
  | true => simp only [fat12Read, heof, if_true]; rfl
  | false =>
    have hloop := readLoop_unlogged (turns (readSize file size)) ⟨s.logged, file, buffer, 0⟩
      (readSize file size)
    change readLoop _ ⟨s, file, buffer, 0⟩ _ = _ at hloop
    rw [fat12Read_of_not_eof s buffer size heof, fat12Read_of_not_eof s.logged buffer size heof, hloop]

theorem fat12Write_unlogged (s : FsState Disk) (file : FAT12File) (buffer : Bytes) (size : u32) :
    fat12Write s (some file) buffer size =
      let w := fat12Write s.logged (some file) buffer size
      (w.1.unlogged, w.2) := by
  have hloop := writeLoop_unlogged buffer (turns size)
    ⟨s.logged, { file with currentCluster := file.firstCluster }, 0⟩ size
  change writeLoop buffer _ ⟨s, _, 0⟩ _ = _ at hloop
  simp only [fat12Write, hloop]

theorem sectorsRead_eq (s : FsState Disk) (file : FAT12File) (buffer : Bytes) (size : u32) :
    sectorsRead s file buffer size = if file.eof then [] else
      (walked s.fatBuffer (turns (readSize file size)) file.currentCluster).map
        (clusterLba s.mountInfo) := by
  unfold sectorsRead
  cases heof : file.eof with
  | true => simp only [fat12Read, heof, if_true]; rfl
  | false =>
    rw [fat12Read_of_not_eof s.logged buffer size heof]
    exact (readLoop_log _ _).trans (List.nil_append _)

theorem sectorsWritten_eq (s : FsState Disk) (file : FAT12File) (buffer : Bytes) (size : u32) :
    sectorsWritten s file buffer size =
      (walked s.fatBuffer (turns size) file.firstCluster).map (clusterLba s.mountInfo) :=
  (writeLoop_log buffer _ size).trans (List.nil_append _)

/-! ## Data clusters -/

/-- A cluster number that is no mark. -/
def DataCluster (c : Nat) : Prop := 2 ≤ c ∧ c ≤ 0xFEF

/-- The sector of a data cluster, with no wrap-around in its number. -/
def DataSector (mountInfo : FAT12MountInfo) (lba : u32) : Prop :=
  ∃ c, DataCluster c ∧ lba.toNat = mountInfo.dataStart.toNat + (c - 2)

/-- Only the sectors of data clusters are those of data clusters: the others come before the data
region or belong to a mark. -/
theorem Mounted.dataSector_iff {bpb : BPB} {s : FsState Disk} (h : Mounted bpb s)
    (hspc : bpb.sectorsPerCluster = 1) (c : u16) :
    DataSector s.mountInfo (clusterLba s.mountInfo c) ↔ DataCluster c.toNat := by
  have hdata := bpb.dataStart_lt
  have hlt := c.isLt
  have hlba := h.clusterLba_toNat hspc c
  rw [h.mountInfo] at hlba ⊢
  unfold DataSector DataCluster
  rw [hlba]
  constructor
  · intro h
    obtain ⟨d, hd, heq⟩ := h
    omega
  · intro hc
    exact ⟨c.toNat, hc, by omega⟩

/-- What `fat12_read` and `fat12_write` touch are sectors of data clusters exactly when the clusters
they walk are no marks. -/
theorem keepsToData_iff {bpb : BPB} {s : FsState Disk} (hm : Mounted bpb s)
    (hspc : bpb.sectorsPerCluster = 1) (file : FAT12File) (buffer : Bytes) (size : u32) :
    ((∀ l ∈ sectorsRead s file buffer size, DataSector s.mountInfo l) ↔ file.eof = false →
      ∀ c ∈ walked s.fatBuffer (turns (readSize file size)) file.currentCluster,
        DataCluster c.toNat) ∧
    ((∀ l ∈ sectorsWritten s file buffer size, DataSector s.mountInfo l) ↔
      ∀ c ∈ walked s.fatBuffer (turns size) file.firstCluster, DataCluster c.toNat) := by
  rw [sectorsRead_eq, sectorsWritten_eq]
  constructor
  · cases file.eof with
    | true => simp
    | false => simp [hm.dataSector_iff hspc]
  · simp only [List.forall_mem_map, hm.dataSector_iff hspc]

theorem keepsToData_noteVolume :
    ((∀ l ∈ sectorsRead noteVolume noteFile (fun _ ↦ 0) 700, DataSector noteVolume.mountInfo l) ↔
      noteFile.eof = false → ∀ c ∈ walked noteVolume.fatBuffer (turns (readSize noteFile 700))
        noteFile.currentCluster, DataCluster c.toNat) ∧
    ((∀ l ∈ sectorsWritten noteVolume noteFile (fun _ ↦ 0) 700, DataSector noteVolume.mountInfo l) ↔
      ∀ c ∈ walked noteVolume.fatBuffer (turns 700) noteFile.firstCluster, DataCluster c.toNat) :=
  keepsToData_iff mounted_noteVolume (by decide +kernel) noteFile (fun _ ↦ 0) 700

/-! ## An empty file -/

/-- The blank volume after `fat12_create("BIG", 0)`, and the handle for the new file. -/
def emptyVolume : FsState Disk := (fat12Create blankVolume bigFile 0 true).1

def emptyFile : FAT12File := newHandle bigFile (newEntry (dosName bigFile) 0 0)

-- No cluster is needed, so none is looked for.
theorem created_emptyVolume : (fat12Create blankVolume bigFile 0 true).2 = 0 ∧
    Created blankVolume bigFile 0 0 0 emptyVolume := by
  have hzero : ((0 : u32) + 511#32) / 512#32 = 0 := by decide
  rcases fat12Create_cases blankVolume bigFile 0 true with
    ⟨href, -, -⟩ | ⟨-, hret, n, first, hn, hcreated⟩
  · rcases href with ⟨-, hused⟩ | hfull | ⟨hneed, -⟩
    · exact absurd (lookup_blankVolume _) hused
    · rw [firstFreeSlot_blankVolume] at hfull
      cases hfull
    · exact absurd hzero hneed
  · rw [firstFreeSlot_blankVolume] at hn
    cases hn
    rcases hcreated.allocated with ⟨-, -, hfirst⟩ | ⟨hneed, -⟩
    · rw [hfirst] at hcreated
      exact ⟨hret, hcreated⟩
    · exact absurd hzero hneed

theorem fat12Open_emptyVolume : fat12Open emptyVolume bigFile true =
    ((fat12Open emptyVolume bigFile true).1, some emptyFile) := by
  obtain ⟨-, hcreated⟩ := created_emptyVolume
  have hlook := hcreated.lookup mounted_blankVolume (by decide +kernel) zeroTail_blankVolume
    firstFreeSlot_blankVolume (lookup_blankVolume _) (dosName bigFile)
  rw [if_pos rfl] at hlook
  rw [fat12Open_of_lookup hlook, hcreated.rootSlot_new, emptyFile]

/-- Writing one byte to the empty file writes to sector 686, which is in the root directory. -/
theorem not_keepsToData_emptyVolume :
    (fat12Create blankVolume bigFile 0 true).2 = 0 ∧
    (fat12Open emptyVolume bigFile true).2 = some emptyFile ∧
    sectorsWritten (fat12Open emptyVolume bigFile true).1 emptyFile (fun _ ↦ 7) 1 = [686#32] ∧
    emptyVolume.mountInfo.rootStart.toNat ≤ 686 ∧ ¬ DataSector emptyVolume.mountInfo 686#32 := by
  obtain ⟨hret, hcreated⟩ := created_emptyVolume
  have hmount : emptyVolume.mountInfo = blankVolume.mountInfo := hcreated.mountInfo
  have hdata : blankVolume.mountInfo.dataStart.toNat = 688 := by decide +kernel
  have hsame := (fat12Open_spec emptyVolume bigFile true).1
  refine ⟨hret, congrArg Prod.snd fat12Open_emptyVolume, ?_, ?_, ?_⟩
  · have hwalked (fat : Bytes) : walked fat (turns 1) emptyFile.firstCluster = [0] := rfl
    rw [sectorsWritten_eq, hwalked, hsame.mountInfo, hmount]
    decide +kernel
  · rw [hmount]
    decide +kernel
  · rintro ⟨c, -, hlba⟩
    rw [hmount, hdata] at hlba
    change 686 = 688 + (c - 2) at hlba
    omega

end TenOs.Fs
