import TenOs.Fs.Sequential

/-!
# What a write leaves of the old contents

`fat12_write` clears the sector buffer before each copy and writes whole sectors, so behind the last
byte it writes the rest of that sector becomes zero.  It also goes on past the size in the directory
entry, to the end of the chain, and what it writes there cannot be read back.
-/

namespace TenOs.Fs

open TenOs.Base TenOs.Lib TenOs.Drivers

/-! ## The last sector -/

theorem writeTurn_sector_behind (buffer : Bytes) (w : WriteState Disk) (size : u32) {a : Nat}
    (h : (pieceSize size).toNat ≤ a) (ha : a < 512) :
    (writeTurn buffer w size).fs.disk.sector
      (lba28 (clusterLba w.fs.mountInfo w.file.currentCluster)) a = 0 := by
  have hwrite := writeSector_same w.fs.disk (clusterLba w.fs.mountInfo w.file.currentCluster)
    (memcpy (memset w.fs.sectorBuffer 0 0 512) 0 buffer w.bytesWritten.toNat
      (pieceSize size).toNat) 0 ha
  have hcopy := copyCells_outside (memset w.fs.sectorBuffer 0 0 512) buffer
    (d := 0) (s := w.bytesWritten.toNat) (n := (pieceSize size).toNat) (a := a) (Or.inr (by omega))
  have hclear : memset w.fs.sectorBuffer 0 0 512 a = 0 := by
    rw [memset, fillCells_apply, if_pos (by omega)]
  rw [Nat.zero_add] at hwrite
  exact hwrite.trans (hcopy.trans hclear)

-- Induction on the chain: the turn that writes the last byte is the last to write at all.
theorem writeLoop_cleared (buffer : Bytes) (cs : List u16) (w : WriteState Disk) (size : u32)
    (hchain : FatChain w.fs.fatBuffer w.file.currentCluster cs)
    (hinj : ∀ c ∈ cs, ∀ d ∈ cs,
      lba28 (clusterLba w.fs.mountInfo c) = lba28 (clusterLba w.fs.mountInfo d) → c = d)
    (hover : w.bytesWritten.toNat + size.toNat < 2 ^ 32) {a : Nat} (ha : moved size cs ≤ a)
    (hend : a < 512 * ((moved size cs + 511) / 512)) :
    chainByte (writeLoop buffer (turns size) w size).fs.disk w.fs.mountInfo cs a = 0 := by
  induction cs generalizing w size a with
  | nil =>
    rw [moved, List.length_nil] at hend
    omega
  | cons c cs ih =>
    by_cases hpos : 0 < size
    · have hcur := hchain.next_eq
      have hgo : 0 < size ∧ w.file.currentCluster < FAT12_EOF_MIN :=
        ⟨hpos, BitVec.not_le.mp hchain.2.1⟩
      have hpiece := pieceSize_toNat size
      have hrest := sub_pieceSize_toNat size
      have hmoved := moved_cons c cs hpos
      have hwritten : (writeTurn buffer w size).bytesWritten.toNat =
          w.bytesWritten.toNat + (pieceSize size).toNat := add_pieceSize_toNat hover
      have hinj' (d : u16) (hd : d ∈ cs) (e : u16) (he : e ∈ cs) :=
        hinj d (List.mem_cons_of_mem c hd) e (List.mem_cons_of_mem c he)
      rw [turns_of_pos hpos, writeLoop, if_pos hgo]
      by_cases hlast : moved (size - pieceSize size) cs = 0
      · -- nothing is left to write, so the sector of this turn stays
        have hdone := writeLoop_chain buffer cs (writeTurn buffer w size) (size - pieceSize size)
          hchain.2.2 hinj' (by omega)
        rw [hlast] at hdone hmoved
        have hkeep := hdone.outside (lba28 (clusterLba w.fs.mountInfo c)) fun d hd ↦ by
          rw [List.take_zero] at hd
          cases hd
        have hsame := writeTurn_sector_behind buffer w size (a := a) (by omega) (by omega)
        rw [hcur.1] at hsame
        rw [chainByte_first _ _ _ _ (by omega), hkeep, hsame]
      · have h512 : (pieceSize size).toNat = 512 := pieceSize_of_moved size cs (by omega)
        rw [chainByte_rest _ _ _ _ (by omega)]
        exact ih (writeTurn buffer w size) (size - pieceSize size) hchain.2.2 hinj' (by omega)
          (by omega) (by omega)
    · rw [moved_of_not_pos hpos] at hend
      omega

/-! ## The bytes of the file -/

/-- The bytes of the clusters after a write: the data, zeros to the end of the last sector written,
and the old contents. -/
theorem fat12Write_bytes {bpb : BPB} {s s₁ : FsState Disk} (hm : Mounted bpb s)
    (hspc : bpb.sectorsPerCluster = 1) (hsame : SameVolume s s₁) (file : FAT12File) {cs : List u16}
    (hchain : FatChain s.fatBuffer file.firstCluster cs) (hdata : ∀ c ∈ cs, 2 ≤ c.toNat)
    (data : Bytes) (n : u32) {a : Nat} (ha : a < 512 * cs.length) :
    chainByte (fat12Write s₁ (some file) data n).1.disk s.mountInfo cs a =
      if a < moved n cs then data a
      else if a < 512 * ((moved n cs + 511) / 512) then 0
      else chainByte s.disk s.mountInfo cs a := by
  have hm₁ := hm.of_sameVolume hsame
  have hchain₁ : FatChain s₁.fatBuffer file.firstCluster cs := by rwa [hsame.fatBuffer]
  obtain ⟨file', hw⟩ := fat12Write_chain hm₁ hspc file data n hchain₁ hdata
  have hstored := hw.stored
  have houtside := hw.outside
  rw [hsame.mountInfo] at hstored houtside
  by_cases hin : a < moved n cs
  · rw [if_pos hin, hstored a hin]
  rw [if_neg hin]
  by_cases hclear : a < 512 * ((moved n cs + 511) / 512)
  · rw [if_pos hclear, ← hsame.mountInfo]
    refine writeLoop_cleared data cs ⟨s₁, { file with currentCluster := file.firstCluster }, 0⟩ n
      hchain₁ (fun c hc d hd heq ↦ hm₁.clusterLba_inj hspc (hdata c hc) (hdata d hd) heq) ?_
      (by omega) hclear
    change 0 + n.toNat < 2 ^ 32
    have hlt := n.isLt
    omega
  · -- a cluster behind those that were written
    rw [if_neg hclear, chainByte, chainByte, hsame.disk.symm]
    have hlt : a / 512 < cs.length := by omega
    rw [List.getD_eq_getElem _ _ hlt]
    rw [houtside]
    intro c hc heq
    obtain ⟨i, hi, rfl⟩ := List.mem_iff_getElem.mp hc
    rw [List.length_take] at hi
    rw [List.getElem_take] at heq
    have hcluster := hm.clusterLba_inj hspc (hdata _ (List.getElem_mem _)) (hdata _ (List.getElem_mem _))
      heq
    have hindex := (hchain.nodup.getElem_inj_iff).mp hcluster
    omega

/-- Reading the file through a new handle after writing `n` bytes of `data` gives what was reported as
written, followed by the old bytes. -/
def WritesExactly (s s₁ : FsState Disk) (filename : CString) (file : FAT12File) (cs : List u16)
    (data buffer : Bytes) (n : u32) : Prop :=
  let w := fat12Write s₁ (some file) data n
  ∃ s₂ file₂, fat12Open w.1 filename true = (s₂, some file₂) ∧
    let r := fat12Read s₂ (some file₂) buffer file₂.fileSize
    (List.range r.ret.toNat).map r.buffer = (List.range w.2.2.toNat).map data ++
      (List.range (file.fileSize.toNat - w.2.2.toNat)).map fun i ↦
        chainByte s.disk s.mountInfo cs (w.2.2.toNat + i)

/-- The same of the bytes that the two calls move. -/
theorem writesExactly_iff_bytes {bpb : BPB} {s s₁ : FsState Disk} (hm : Mounted bpb s)
    (hspc : bpb.sectorsPerCluster = 1) {filename : CString} {file : FAT12File}
    (hopen : fat12Open s filename true = (s₁, some file)) {cs : List u16}
    (hchain : FatChain s.fatBuffer file.firstCluster cs) (hdata : ∀ c ∈ cs, 2 ≤ c.toNat)
    (hfit : file.fileSize.toNat ≤ 512 * cs.length) (data buffer : Bytes) (n : u32) :
    WritesExactly s s₁ filename file cs data buffer n ↔
      (List.range file.fileSize.toNat).map (fun a ↦
        if a < moved n cs then data a
        else if a < 512 * ((moved n cs + 511) / 512) then 0
        else chainByte s.disk s.mountInfo cs a) =
      (List.range (moved n cs)).map data ++ (List.range (file.fileSize.toNat - moved n cs)).map
        fun i ↦ chainByte s.disk s.mountInfo cs (moved n cs + i) := by
  obtain ⟨hsame, -⟩ := fat12Open_eq_some hopen
  have hchain₁ : FatChain s₁.fatBuffer file.firstCluster cs := by rwa [hsame.fatBuffer]
  obtain ⟨file', hw⟩ := fat12Write_chain (hm.of_sameVolume hsame) hspc file data n hchain₁ hdata
  have hlen := hchain.length_le
  have hle : moved n cs ≤ 512 * cs.length := Nat.min_le_right _ _
  have hret : (fat12Write s₁ (some file) data n).2.2.toNat = moved n cs := by
    rw [hw.ret, toInt_ofNat (by omega), Int.toNat_natCast]
  have hreopen := hw.reopen hm hspc hopen hdata
  have hchain₂ : FatChain (fat12Write s₁ (some file) data n).1.fatBuffer file.firstCluster cs := by
    rwa [hw.fatBuffer]
  obtain ⟨hread, hbuffer, -⟩ := fat12Read_opened hreopen hchain₂ hfit buffer (Nat.le_refl _)
  have hbytes : (List.range file.fileSize.toNat).map
      (fat12Read (fat12Open (fat12Write s₁ (some file) data n).1 filename true).1 (some file) buffer
        file.fileSize).buffer = (List.range file.fileSize.toNat).map (fun a ↦
          if a < moved n cs then data a
          else if a < 512 * ((moved n cs + 511) / 512) then 0
          else chainByte s.disk s.mountInfo cs a) := by
    apply List.map_congr_left
    intro a ha
    have hlt := List.mem_range.mp ha
    rw [hbuffer, if_pos hlt, hw.mountInfo, hsame.mountInfo,
      fat12Write_bytes hm hspc hsame file hchain hdata data n (by omega)]
  rw [← hbytes]
  unfold WritesExactly
  simp only [hret]
  constructor
  · intro h
    obtain ⟨s₂, file₂, hopen₂, h⟩ := h
    rw [hreopen] at hopen₂
    cases hopen₂
    rwa [hread, Int.toNat_natCast] at h
  · intro h
    refine ⟨_, _, hreopen, ?_⟩
    rwa [hread, Int.toNat_natCast]

/-- No old byte of the file that the last sector of the write covers is lost, and the write ends within
the file. -/
def KeepsRest (s : FsState Disk) (file : FAT12File) (cs : List u16) (n : u32) : Prop :=
  moved n cs ≤ file.fileSize.toNat ∧ ∀ a, moved n cs ≤ a → a < file.fileSize.toNat →
    a < 512 * ((moved n cs + 511) / 512) → chainByte s.disk s.mountInfo cs a = 0

theorem split_range (f : Nat → u8) {m k : Nat} (h : m ≤ k) : (List.range k).map f =
    (List.range m).map f ++ (List.range (k - m)).map fun i ↦ f (m + i) := by
  have hsplit := map_range_add f 0 m (k - m)
  simp only [Nat.zero_add] at hsplit
  rwa [Nat.add_sub_cancel' h] at hsplit

section Exact

variable {bpb : BPB} {s s₁ : FsState Disk} {filename : CString} {file : FAT12File} {cs : List u16}
  (hm : Mounted bpb s) (hspc : bpb.sectorsPerCluster = 1)
  (hopen : fat12Open s filename true = (s₁, some file))
  (hchain : FatChain s.fatBuffer file.firstCluster cs) (hdata : ∀ c ∈ cs, 2 ≤ c.toNat)
  (hfit : file.fileSize.toNat ≤ 512 * cs.length) (data buffer : Bytes) (n : u32)
include hm hspc hopen hchain hdata hfit

theorem keepsRest_of_writesExactly (h : WritesExactly s s₁ filename file cs data buffer n) :
    KeepsRest s file cs n := by
  have hbytes := (writesExactly_iff_bytes hm hspc hopen hchain hdata hfit data buffer n).mp h
  have hlen := congrArg List.length hbytes
  simp only [List.length_map, List.length_range, List.length_append] at hlen
  have hle : moved n cs ≤ file.fileSize.toNat := by omega
  refine ⟨hle, fun a hma ha hclear ↦ ?_⟩
  rw [split_range _ hle] at hbytes
  have hrest := List.append_inj_right hbytes (by simp only [List.length_map])
  have hbyte := List.map_inj_left.mp hrest (a - moved n cs) (List.mem_range.mpr (by omega))
  rw [Nat.add_sub_cancel' hma, if_neg (by omega), if_pos hclear] at hbyte
  exact hbyte.symm

theorem writesExactly_of_keepsRest (h : KeepsRest s file cs n) :
    WritesExactly s s₁ filename file cs data buffer n := by
  apply (writesExactly_iff_bytes hm hspc hopen hchain hdata hfit data buffer n).mpr
  rw [split_range _ h.1]
  congr 1
  · exact List.map_congr_left fun a ha ↦ if_pos (List.mem_range.mp ha)
  · apply List.map_congr_left
    intro i hi
    have hlt := List.mem_range.mp hi
    rw [if_neg (by omega)]
    by_cases hclear : moved n cs + i < 512 * ((moved n cs + 511) / 512)
    · rw [if_pos hclear, h.2 _ (by omega) (by omega) hclear]
    · rw [if_neg hclear]

/-- A write changes exactly the bytes it reports when it ends within the file and what its last sector
held behind it, as far as the file goes, was zero. -/
theorem writesExactly_iff :
    WritesExactly s s₁ filename file cs data buffer n ↔ KeepsRest s file cs n :=
  ⟨keepsRest_of_writesExactly hm hspc hopen hchain hdata hfit data buffer n,
    writesExactly_of_keepsRest hm hspc hopen hchain hdata hfit data buffer n⟩

end Exact

theorem writesExactly_iff_noteVolume :
    WritesExactly noteVolume (fat12Open noteVolume noteName true).1 noteName noteFile [2, 3]
      (fun _ ↦ 7) (fun _ ↦ 0) 600 ↔ KeepsRest noteVolume noteFile [2, 3] 600 :=
  writesExactly_iff mounted_noteVolume (by decide +kernel) fat12Open_noteVolume
    (by rw [firstCluster_noteFile]; exact fatChain_noteVolume) (by simp)
    (by rw [fileSize_noteFile]; decide) _ _ _

/-- The volume with the file of 700 bytes, all of them 5. -/
def fivesVolume : FsState Disk := noteVolume.withData fun _ _ ↦ 5

/-- Writing 100 bytes loses the next 412, and of 1000 bytes that are reported as written 700 can be
read back. -/
theorem not_writesExactly_fivesVolume :
    (fat12Open fivesVolume noteName true).2 = some noteFile ∧
      FatChain fivesVolume.fatBuffer noteFile.firstCluster [2, 3] ∧ noteFile.fileSize = 700 ∧
      ¬ WritesExactly fivesVolume (fat12Open fivesVolume noteName true).1 noteName noteFile [2, 3]
        (fun _ ↦ 7) (fun _ ↦ 0) 100 ∧
      ¬ WritesExactly fivesVolume (fat12Open fivesVolume noteName true).1 noteName noteFile [2, 3]
        (fun _ ↦ 7) (fun _ ↦ 0) 1000 := by
  have hopen : fat12Open fivesVolume noteName true =
      ((fat12Open fivesVolume noteName true).1, some noteFile) :=
    fat12Open_withData mounted_noteVolume fat12Open_noteVolume fun _ _ ↦ 5
  have hmounted : Mounted (BPB.ofSector bootSector) fivesVolume :=
    ⟨mounted_noteVolume.bytesPerSector, rfl⟩
  have hspc : (BPB.ofSector bootSector).sectorsPerCluster = 1 := by decide +kernel
  have hchain : FatChain fivesVolume.fatBuffer noteFile.firstCluster [2, 3] := by
    rw [firstCluster_noteFile]
    exact fatChain_noteVolume
  have hdata : ∀ c ∈ [2, 3], 2 ≤ BitVec.toNat (c : u16) := by simp
  have hfit : noteFile.fileSize.toNat ≤ 512 * [2, 3].length := by
    rw [fileSize_noteFile]
    decide
  refine ⟨congrArg Prod.snd hopen, hchain, fileSize_noteFile, fun h ↦ ?_, fun h ↦ ?_⟩
  · have hkeeps := keepsRest_of_writesExactly hmounted hspc hopen hchain hdata hfit _ _ _ h
    have hbyte := hkeeps.2 100 (by decide) (by rw [fileSize_noteFile]; decide) (by decide)
    revert hbyte
    decide +kernel
  · have hkeeps := keepsRest_of_writesExactly hmounted hspc hopen hchain hdata hfit _ _ _ h
    have hle := hkeeps.1
    rw [fileSize_noteFile] at hle
    exact absurd hle (by decide)

end TenOs.Fs
