import TenOs.Fs.File

/-!
# Reading and writing along a chain

What the loops of `fat12_read` and `fat12_write` do when the handle stands at the start of a chain:
they move the bytes of its clusters one after the other, as far as the size and the chain reach.
-/

namespace TenOs.Fs

open TenOs.Base TenOs.Lib TenOs.Drivers

/-! ## The sectors of the clusters -/

section Clusters

variable {bpb : BPB} {s : FsState Disk}

theorem BPB.dataStart_lt (bpb : BPB) : bpb.mountInfo.dataStart.toNat < 2 ^ 27 := by
  have h1 := bpb.rootStart_le
  have h2 := bpb.rootSize_le
  rw [bpb.dataStart_toNat]
  omega

/-- With one sector per cluster the sector of a cluster is a sum, up to a wrap-around. -/
theorem Mounted.clusterLba_toNat (h : Mounted bpb s) (hspc : bpb.sectorsPerCluster = 1) (c : u16) :
    (clusterLba s.mountInfo c).toNat =
      (s.mountInfo.dataStart.toNat + (2 ^ 32 - 2 + c.toNat)) % 2 ^ 32 := by
  have hlt := c.isLt
  have hone : s.mountInfo.sectorsPerCluster.setWidth 32 = 1#32 := by
    rw [h.mountInfo]
    change bpb.sectorsPerCluster.setWidth 32 = _
    rw [hspc]
    rfl
  have htwo : (2 : u32).toNat = 2 := rfl
  rw [clusterLba, hone, BitVec.mul_one, BitVec.toNat_add, BitVec.toNat_sub, BitVec.toNat_setWidth,
    htwo]
  omega

/-- The sectors of the clusters follow each other, and no LBA wraps. -/
theorem Mounted.clusterLba_eq (h : Mounted bpb s) (hspc : bpb.sectorsPerCluster = 1) {c : u16}
    (hc : 2 ≤ s.mountInfo.dataStart.toNat + c.toNat) :
    lba28 (clusterLba s.mountInfo c) + 2 = s.mountInfo.dataStart.toNat + c.toNat := by
  have hdata := bpb.dataStart_lt
  have hlt := c.isLt
  have hlba := h.clusterLba_toNat hspc c
  rw [h.mountInfo] at hc hlba ⊢
  rw [lba28_eq_mod, hlba]
  omega

theorem Mounted.clusterLba_inj (h : Mounted bpb s) (hspc : bpb.sectorsPerCluster = 1) {c d : u16}
    (hc : 2 ≤ c.toNat) (hd : 2 ≤ d.toNat)
    (heq : lba28 (clusterLba s.mountInfo c) = lba28 (clusterLba s.mountInfo d)) : c = d := by
  have h1 := h.clusterLba_eq hspc (c := c) (by omega)
  have h2 := h.clusterLba_eq hspc (c := d) (by omega)
  apply BitVec.eq_of_toNat_eq
  omega

/-- Byte `a` of the file whose chain is `cs`. -/
def chainByte (disk : Disk) (mountInfo : FAT12MountInfo) (cs : List u16) (a : Nat) : u8 :=
  disk.sector (lba28 (clusterLba mountInfo (cs.getD (a / 512) 0))) (a % 512)

theorem chainByte_first (disk : Disk) (mountInfo : FAT12MountInfo) (c : u16) (cs : List u16)
    {a : Nat} (h : a < 512) :
    chainByte disk mountInfo (c :: cs) a = disk.sector (lba28 (clusterLba mountInfo c)) a := by
  rw [chainByte, show a / 512 = 0 by omega, show a % 512 = a by omega]
  rfl

theorem chainByte_rest (disk : Disk) (mountInfo : FAT12MountInfo) (c : u16) (cs : List u16)
    {a : Nat} (h : 512 ≤ a) :
    chainByte disk mountInfo (c :: cs) a = chainByte disk mountInfo cs (a - 512) := by
  rw [chainByte, chainByte, show a / 512 = (a - 512) / 512 + 1 by omega,
    show a % 512 = (a - 512) % 512 by omega]
  rfl

theorem chainByte_drop (disk : Disk) (mountInfo : FAT12MountInfo) (cs : List u16) (k a : Nat) :
    chainByte disk mountInfo (cs.drop k) a = chainByte disk mountInfo cs (512 * k + a) := by
  have hget : (cs.drop k).getD (a / 512) 0 = cs.getD ((512 * k + a) / 512) 0 := by
    rw [List.getD_eq_getElem?_getD, List.getD_eq_getElem?_getD, List.getElem?_drop,
      show k + a / 512 = (512 * k + a) / 512 by omega]
  rw [chainByte, chainByte, hget, show a % 512 = (512 * k + a) % 512 by omega]

end Clusters

/-! ## One turn -/

theorem pieceSize_toNat (size : u32) : (pieceSize size).toNat = min size.toNat 512 := by
  have h512 : (512#32).toNat = 512 := rfl
  unfold pieceSize
  split
  · rename_i h
    rw [BitVec.lt_def, h512] at h
    omega
  · rename_i h
    rw [BitVec.lt_def, h512] at h
    omega

theorem sub_pieceSize_toNat (size : u32) :
    (size - pieceSize size).toNat = size.toNat - 512 := by
  have hp := pieceSize_toNat size
  have hle : pieceSize size ≤ size := by
    rw [BitVec.le_def]
    omega
  rw [BitVec.toNat_sub_of_le hle]
  omega

theorem turns_of_pos {size : u32} (h : 0 < size) :
    turns size = turns (size - pieceSize size) + 1 := by
  have hpos : 0 < size.toNat := h
  unfold turns
  rw [sub_pieceSize_toNat]
  omega

theorem add_pieceSize_toNat {b size : u32} (h : b.toNat + size.toNat < 2 ^ 32) :
    (b + pieceSize size).toNat = b.toNat + (pieceSize size).toNat := by
  have hpiece := pieceSize_toNat size
  rw [BitVec.toNat_add]
  omega

theorem readLoop_of_stop {D : Type} [SectorDevice D] (fuel : Nat) {r : ReadState D} {size : u32}
    (h : ¬ (0 < size ∧ r.file.currentCluster < FAT12_EOF_MIN)) : readLoop fuel r size = r := by
  cases fuel with
  | zero => rfl
  | succ fuel => rw [readLoop, if_neg h]

theorem writeLoop_of_stop {D : Type} [SectorDevice D] (buffer : Bytes) (fuel : Nat)
    {w : WriteState D} {size : u32}
    (h : ¬ (0 < size ∧ w.file.currentCluster < FAT12_EOF_MIN)) :
    writeLoop buffer fuel w size = w := by
  cases fuel with
  | zero => rfl
  | succ fuel => rw [writeLoop, if_neg h]

/-- Reading writes nothing behind the bytes that were asked for. -/
theorem readLoop_buffer_behind {D : Type} [SectorDevice D] (fuel : Nat) (r : ReadState D)
    {size : u32} {a : Nat} (h : r.bytesRead.toNat + size.toNat < 2 ^ 32)
    (ha : r.bytesRead.toNat + size.toNat ≤ a) : (readLoop fuel r size).buffer a = r.buffer a := by
  induction fuel generalizing r size with
  | zero => rfl
  | succ fuel ih =>
    rw [readLoop]
    split
    · have hpiece := pieceSize_toNat size
      have hrest := sub_pieceSize_toNat size
      have hread : (readTurn r size).bytesRead.toNat =
          r.bytesRead.toNat + (pieceSize size).toNat := add_pieceSize_toNat h
      rw [ih (readTurn r size) (by omega) (by omega)]
      exact copyCells_outside _ _ (by omega)
    · rfl

/-- How many bytes a loop moves: what was asked for, unless the chain ends before. -/
def moved (size : u32) (cs : List u16) : Nat := min size.toNat (512 * cs.length)

theorem moved_cons {size : u32} (c : u16) (cs : List u16) (h : 0 < size) :
    moved size (c :: cs) = (pieceSize size).toNat + moved (size - pieceSize size) cs := by
  have hpos : 0 < size.toNat := h
  have hlen : (c :: cs).length = cs.length + 1 := rfl
  unfold moved
  rw [sub_pieceSize_toNat, pieceSize_toNat, hlen]
  omega

/-- A turn that is not the last moves a whole sector. -/
theorem pieceSize_of_moved (size : u32) (cs : List u16)
    (h : 0 < moved (size - pieceSize size) cs) : (pieceSize size).toNat = 512 := by
  unfold moved at h
  rw [sub_pieceSize_toNat] at h
  rw [pieceSize_toNat]
  omega

theorem clusters_cons {size : u32} (c : u16) (cs : List u16) (h : 0 < size) :
    (moved size (c :: cs) + 511) / 512 =
      (moved (size - pieceSize size) cs + 511) / 512 + 1 := by
  have hpos : 0 < size.toNat := h
  have hlen : (c :: cs).length = cs.length + 1 := rfl
  unfold moved
  rw [sub_pieceSize_toNat, hlen]
  omega

theorem moved_of_not_pos {size : u32} {cs : List u16} (h : ¬ 0 < size) : moved size cs = 0 := by
  have hzero : size.toNat = 0 := Nat.eq_zero_of_not_pos h
  rw [moved, hzero, Nat.zero_min]

theorem moved_le_size (size : u32) (cs : List u16) : moved size cs ≤ size.toNat :=
  Nat.min_le_left _ _

theorem moved_of_le {size : u32} {cs : List u16} (h : size.toNat ≤ 512 * cs.length) :
    moved size cs = size.toNat :=
  Nat.min_eq_left h

theorem ofNat_piece_add (size : u32) (m : Nat) :
    BitVec.ofNat 32 ((pieceSize size).toNat + m) = pieceSize size + BitVec.ofNat 32 m := by
  rw [BitVec.ofNat_add, BitVec.ofNat_toNat, BitVec.setWidth_eq]

/-! ## Reading -/

/-- What the loop of `fat12_read` has done after moving `m` bytes of the chain `cs`. -/
structure ReadDone (r : ReadState Disk) (cs : List u16) (m : Nat) (t : ReadState Disk) : Prop where
  volume : SameVolume r.fs t.fs
  bytesRead : t.bytesRead = r.bytesRead + BitVec.ofNat 32 m
  file : t.file = { r.file with
    position := r.file.position + BitVec.ofNat 32 m, currentCluster := t.file.currentCluster }
  chain : FatChain r.fs.fatBuffer t.file.currentCluster (cs.drop ((m + 511) / 512))
  buffer : ∀ a, t.buffer a =
    if r.bytesRead.toNat ≤ a ∧ a < r.bytesRead.toNat + m then
      chainByte r.fs.disk r.fs.mountInfo cs (a - r.bytesRead.toNat)
    else r.buffer a

theorem ReadDone.refl (r : ReadState Disk) {cs : List u16}
    (h : FatChain r.fs.fatBuffer r.file.currentCluster cs) : ReadDone r cs 0 r := by
  refine ⟨⟨rfl, rfl, rfl⟩, (BitVec.add_zero _).symm, ?_, h, fun a ↦ (if_neg (by omega)).symm⟩
  rw [BitVec.add_zero]

/-- The sector that a turn copies from is the whole sector of the current cluster. -/
theorem readTurn_buffer (r : ReadState Disk) (size : u32) (a : Nat) :
    (readTurn r size).buffer a =
      if r.bytesRead.toNat ≤ a ∧ a < r.bytesRead.toNat + (pieceSize size).toNat then
        r.fs.disk.sector (lba28 (clusterLba r.fs.mountInfo r.file.currentCluster))
          (a - r.bytesRead.toNat)
      else r.buffer a := by
  have hpiece := pieceSize_toNat size
  have hcopy := copyCells_apply r.buffer
    (r.fs.readToBuffer (clusterLba r.fs.mountInfo r.file.currentCluster)).sectorBuffer
    r.bytesRead.toNat 0 (pieceSize size).toNat a
  change copyCells _ _ _ _ _ _ = _
  rw [hcopy]
  by_cases ha : r.bytesRead.toNat ≤ a ∧ a < r.bytesRead.toNat + (pieceSize size).toNat
  · rw [if_pos ha, if_pos ha]
    exact readSector_inside _ _ _ 0 (by omega)
  · rw [if_neg ha, if_neg ha]

-- Induction on the chain: a turn for each cluster, until the bytes asked for are there.
theorem readLoop_chain (cs : List u16) (r : ReadState Disk) (size : u32)
    (hchain : FatChain r.fs.fatBuffer r.file.currentCluster cs)
    (hover : r.bytesRead.toNat + size.toNat < 2 ^ 32) :
    ReadDone r cs (moved size cs) (readLoop (turns size) r size) := by
  induction cs generalizing r size with
  | nil =>
    have hstop : ¬ (0 < size ∧ r.file.currentCluster < FAT12_EOF_MIN) :=
      fun h ↦ BitVec.not_lt.mpr hchain h.2
    have hmoved : moved size [] = 0 := Nat.min_eq_right (Nat.zero_le _)
    rw [readLoop_of_stop _ hstop, hmoved]
    exact ReadDone.refl r hchain
  | cons c cs ih =>
    by_cases hpos : 0 < size
    · have hcur := hchain.next_eq
      have hgo : 0 < size ∧ r.file.currentCluster < FAT12_EOF_MIN :=
        ⟨hpos, BitVec.not_le.mp hchain.2.1⟩
      rw [turns_of_pos hpos, readLoop, if_pos hgo]
      have hpiece := pieceSize_toNat size
      have hrest := sub_pieceSize_toNat size
      have hread : (readTurn r size).bytesRead.toNat =
          r.bytesRead.toNat + (pieceSize size).toNat := add_pieceSize_toNat hover
      -- the rest of the chain, from the state after this turn
      have h := ih (readTurn r size) (size - pieceSize size) hchain.2.2 (by omega)
      have hmoved := moved_cons c cs hpos
      refine ⟨⟨h.volume.disk, h.volume.mountInfo, h.volume.fatBuffer⟩, ?_, ?_, ?_, fun a ↦ ?_⟩
      · rw [h.bytesRead, hmoved, ofNat_piece_add, ← BitVec.add_assoc]
        rfl
      · rw [hmoved, ofNat_piece_add, ← BitVec.add_assoc]
        exact h.file
      · rw [clusters_cons c cs hpos]
        exact h.chain
      · rw [h.buffer, readTurn_buffer, hread, hmoved, hcur.1]
        by_cases hfst : r.bytesRead.toNat ≤ a ∧ a < r.bytesRead.toNat + (pieceSize size).toNat
        · rw [if_neg (by omega), if_pos hfst, if_pos (by omega), chainByte_first _ _ _ _ (by omega)]
        · rw [if_neg hfst]
          by_cases hsnd : r.bytesRead.toNat + (pieceSize size).toNat ≤ a ∧
              a < r.bytesRead.toNat + (pieceSize size).toNat + moved (size - pieceSize size) cs
          · have h512 : (pieceSize size).toNat = 512 := pieceSize_of_moved size cs (by omega)
            rw [if_pos hsnd, if_pos (by omega), chainByte_rest _ _ _ _ (by omega), h512, Nat.sub_sub]
            rfl
          · rw [if_neg hsnd, if_neg (by omega)]
    · rw [readLoop_of_stop _ fun h ↦ hpos h.1, moved_of_not_pos hpos]
      exact ReadDone.refl r hchain

/-! ## Writing -/

/-- What the loop of `fat12_write` has done after moving `m` bytes of `buffer` to the chain `cs`. -/
structure WriteDone (buffer : Bytes) (w : WriteState Disk) (cs : List u16) (m : Nat)
    (t : WriteState Disk) : Prop where
  mountInfo : t.fs.mountInfo = w.fs.mountInfo
  fatBuffer : t.fs.fatBuffer = w.fs.fatBuffer
  bytesWritten : t.bytesWritten = w.bytesWritten + BitVec.ofNat 32 m
  file : t.file = { w.file with currentCluster := t.file.currentCluster }
  chain : FatChain w.fs.fatBuffer t.file.currentCluster (cs.drop ((m + 511) / 512))
  outside : ∀ l, (∀ c ∈ cs.take ((m + 511) / 512), l ≠ lba28 (clusterLba w.fs.mountInfo c)) →
    t.fs.disk.sector l = w.fs.disk.sector l
  stored : ∀ a < m,
    chainByte t.fs.disk w.fs.mountInfo cs a = buffer (w.bytesWritten.toNat + a)

theorem WriteDone.refl (buffer : Bytes) (w : WriteState Disk) {cs : List u16}
    (h : FatChain w.fs.fatBuffer w.file.currentCluster cs) : WriteDone buffer w cs 0 w :=
  ⟨rfl, rfl, (BitVec.add_zero _).symm, rfl, h, fun _ _ ↦ rfl, fun _ ha ↦ absurd ha (Nat.not_lt_zero _)⟩

-- The buffer is cleared before the copy, and the whole sector is written.
theorem writeTurn_sector_same (buffer : Bytes) (w : WriteState Disk) (size : u32) {a : Nat}
    (h : a < (pieceSize size).toNat) :
    (writeTurn buffer w size).fs.disk.sector
      (lba28 (clusterLba w.fs.mountInfo w.file.currentCluster)) a =
        buffer (w.bytesWritten.toNat + a) := by
  have hpiece := pieceSize_toNat size
  have hwrite := writeSector_same w.fs.disk (clusterLba w.fs.mountInfo w.file.currentCluster)
    (memcpy (memset w.fs.sectorBuffer 0 0 512) 0 buffer w.bytesWritten.toNat
      (pieceSize size).toNat) 0 (i := a) (by omega)
  have hcopy := copyCells_inside (memset w.fs.sectorBuffer 0 0 512) buffer (d := 0)
    (s := w.bytesWritten.toNat) h
  exact hwrite.trans hcopy

theorem writeTurn_sector_other (buffer : Bytes) (w : WriteState Disk) (size : u32) {l : Nat}
    (h : l ≠ lba28 (clusterLba w.fs.mountInfo w.file.currentCluster)) :
    (writeTurn buffer w size).fs.disk.sector l = w.fs.disk.sector l :=
  writeSector_other _ _ _ _ h

-- Induction on the chain, as for reading; distinct clusters have distinct sectors.
theorem writeLoop_chain (buffer : Bytes) (cs : List u16) (w : WriteState Disk) (size : u32)
    (hchain : FatChain w.fs.fatBuffer w.file.currentCluster cs)
    (hinj : ∀ c ∈ cs, ∀ d ∈ cs,
      lba28 (clusterLba w.fs.mountInfo c) = lba28 (clusterLba w.fs.mountInfo d) → c = d)
    (hover : w.bytesWritten.toNat + size.toNat < 2 ^ 32) :
    WriteDone buffer w cs (moved size cs) (writeLoop buffer (turns size) w size) := by
  induction cs generalizing w size with
  | nil =>
    have hstop : ¬ (0 < size ∧ w.file.currentCluster < FAT12_EOF_MIN) :=
      fun h ↦ BitVec.not_lt.mpr hchain h.2
    have hmoved : moved size [] = 0 := Nat.min_eq_right (Nat.zero_le _)
    rw [writeLoop_of_stop _ _ hstop, hmoved]
    exact WriteDone.refl buffer w hchain
  | cons c cs ih =>
    by_cases hpos : 0 < size
    · have hcur := hchain.next_eq
      have hgo : 0 < size ∧ w.file.currentCluster < FAT12_EOF_MIN :=
        ⟨hpos, BitVec.not_le.mp hchain.2.1⟩
      rw [turns_of_pos hpos, writeLoop, if_pos hgo]
      have hpiece := pieceSize_toNat size
      have hrest := sub_pieceSize_toNat size
      have hwritten : (writeTurn buffer w size).bytesWritten.toNat =
          w.bytesWritten.toNat + (pieceSize size).toNat := add_pieceSize_toNat hover
      have h := ih (writeTurn buffer w size) (size - pieceSize size) hchain.2.2
        (fun d hd e he ↦ hinj d (List.mem_cons_of_mem c hd) e (List.mem_cons_of_mem c he)) (by omega)
      have hmoved := moved_cons c cs hpos
      -- the later turns write to other clusters, and these have other sectors
      have hfar (d : u16) (hd : d ∈ cs) :
          lba28 (clusterLba w.fs.mountInfo c) ≠ lba28 (clusterLba w.fs.mountInfo d) := by
        intro heq
        have hcd := hinj c List.mem_cons_self d (List.mem_cons_of_mem c hd) heq
        rw [← hcd] at hd
        exact (List.nodup_cons.mp hchain.nodup).1 hd
      refine ⟨h.mountInfo, h.fatBuffer, ?_, h.file, ?_, fun l hl ↦ ?_, fun a ha ↦ ?_⟩
      · rw [h.bytesWritten, hmoved, ofNat_piece_add, ← BitVec.add_assoc]
        rfl
      · rw [clusters_cons c cs hpos]
        exact h.chain
      · rw [clusters_cons c cs hpos, List.take_succ_cons] at hl
        rw [h.outside l fun d hd ↦ hl d (List.mem_cons_of_mem c hd)]
        apply writeTurn_sector_other
        rw [hcur.1]
        exact hl c List.mem_cons_self
      · by_cases hfst : a < 512
        · have hkeep : (writeLoop buffer (turns (size - pieceSize size)) (writeTurn buffer w size)
              (size - pieceSize size)).fs.disk.sector (lba28 (clusterLba w.fs.mountInfo c)) =
                (writeTurn buffer w size).fs.disk.sector (lba28 (clusterLba w.fs.mountInfo c)) :=
            h.outside _ fun d hd ↦ hfar d (List.mem_of_mem_take hd)
          have hsame := writeTurn_sector_same buffer w size (a := a) (by
            by_contra hbig
            have h512 := pieceSize_of_moved size cs (by omega)
            omega)
          rw [hcur.1] at hsame
          rw [chainByte_first _ _ _ _ hfst, hkeep, hsame]
        · have h512 : (pieceSize size).toNat = 512 := by
            rw [hpiece]
            have hle := moved_le_size size (c :: cs)
            omega
          have hst := h.stored (a - 512) (by omega)
          rw [hwritten, h512, show w.bytesWritten.toNat + 512 + (a - 512) =
            w.bytesWritten.toNat + a by omega] at hst
          rw [chainByte_rest _ _ _ _ (by omega)]
          exact hst
    · rw [writeLoop_of_stop _ _ fun h ↦ hpos h.1, moved_of_not_pos hpos]
      exact WriteDone.refl buffer w hchain

/-! ## Whole calls -/

/-- The size after `fat12_read` has cut it down to what is left of the file. -/
def readSize (file : FAT12File) (size : u32) : u32 :=
  if file.fileSize - file.position < size then file.fileSize - file.position else size

theorem readSize_le (file : FAT12File) (size : u32) : (readSize file size).toNat ≤ size.toNat := by
  unfold readSize
  split
  · rename_i h
    exact Nat.le_of_lt h
  · exact Nat.le_refl _

theorem toInt_ofNat {m : Nat} (h : m < 2 ^ 31) : (BitVec.ofNat 32 m).toInt = m := by
  have hm : (BitVec.ofNat 32 m).toNat = m := by
    rw [BitVec.toNat_ofNat, Nat.mod_eq_of_lt (by omega)]
  rw [BitVec.toInt_eq_toNat_of_lt (by omega), hm]

theorem fat12Read_of_not_eof {D : Type} [SectorDevice D] (s : FsState D) {file : FAT12File}
    (buffer : Bytes) (size : u32) (heof : file.eof = false) : fat12Read s (some file) buffer size =
      let r := readLoop (turns (readSize file size)) ⟨s, file, buffer, 0⟩ (readSize file size)
      ⟨r.fs, some (if FAT12_EOF_MIN ≤ r.file.currentCluster then { r.file with eof := true }
        else r.file), r.buffer, r.bytesRead.toInt⟩ := by
  simp only [fat12Read, heof, Bool.false_eq_true, if_false]
  rfl

theorem fat12Read_buffer_behind {D : Type} [SectorDevice D] (s : FsState D)
    (file : Option FAT12File) (buffer : Bytes) {size : u32} {a : Nat} (ha : size.toNat ≤ a) :
    (fat12Read s file buffer size).buffer a = buffer a := by
  cases file with
  | none => rfl
  | some file =>
    cases heof : file.eof with
    | true =>
      rw [fat12Read, heof]
      rfl
    | false =>
      have hle := readSize_le file size
      have hlt := size.isLt
      have hzero : (0 : u32).toNat = 0 := rfl
      rw [fat12Read_of_not_eof s buffer size heof]
      exact readLoop_buffer_behind _ ⟨s, file, buffer, 0⟩ (by rw [hzero]; omega)
        (by rw [hzero]; omega)

/-- One call of `fat12_read` on a handle that stands at the start of the chain `cs`. -/
structure FileRead (s : FsState Disk) (file : FAT12File) (buffer : Bytes) (cs : List u16) (m : Nat)
    (r : ReadResult Disk) (file' : FAT12File) : Prop where
  volume : SameVolume s r.fs
  ret : r.ret = (BitVec.ofNat 32 m).toInt
  result : r.file = some file'
  handle : file' = { file with
    position := file.position + BitVec.ofNat 32 m
    currentCluster := file'.currentCluster
    eof := decide (FAT12_EOF_MIN ≤ file'.currentCluster) }
  chain : FatChain s.fatBuffer file'.currentCluster (cs.drop ((m + 511) / 512))
  buffer : ∀ a, r.buffer a = if a < m then chainByte s.disk s.mountInfo cs a else buffer a

theorem fat12Read_chain (s : FsState Disk) {file : FAT12File} (buffer : Bytes) (size : u32)
    {cs : List u16} (heof : file.eof = false) (hchain : FatChain s.fatBuffer file.currentCluster cs) :
    ∃ file', FileRead s file buffer cs (moved (readSize file size) cs)
      (fat12Read s (some file) buffer size) file' := by
  have hlt := (readSize file size).isLt
  have h := readLoop_chain cs ⟨s, file, buffer, 0⟩ (readSize file size) hchain
    (by change 0 + _ < _; omega)
  rw [fat12Read_of_not_eof s buffer size heof]
  generalize readLoop (turns (readSize file size)) ⟨s, file, buffer, 0⟩ (readSize file size) = r at h
  refine ⟨_, h.volume, ?_, rfl, ?_, ?_, fun a ↦ ?_⟩
  · exact congrArg BitVec.toInt (h.bytesRead.trans (BitVec.zero_add _))
  · by_cases hstop : FAT12_EOF_MIN ≤ r.file.currentCluster
    · rw [if_pos hstop, h.file]
      simp only [hstop, decide_true]
    · rw [if_neg hstop, h.file]
      simp only [hstop, decide_false, heof]
  · have hcur : (if FAT12_EOF_MIN ≤ r.file.currentCluster then { r.file with eof := true }
        else r.file).currentCluster = r.file.currentCluster := by
      split <;> rfl
    rw [hcur]
    exact h.chain
  · have hb := h.buffer a
    simpa only [show (0 : u32).toNat = 0 from rfl, Nat.zero_le, true_and, Nat.zero_add,
      Nat.sub_zero] using hb

/-- One call of `fat12_write` on a handle whose chain is `cs`. -/
structure FileWritten (s : FsState Disk) (file : FAT12File) (buffer : Bytes) (cs : List u16) (m : Nat)
    (w : FsState Disk × Option FAT12File × Int) (file' : FAT12File) : Prop where
  mountInfo : w.1.mountInfo = s.mountInfo
  fatBuffer : w.1.fatBuffer = s.fatBuffer
  ret : w.2.2 = (BitVec.ofNat 32 m).toInt
  result : w.2.1 = some file'
  handle : file' = { file with currentCluster := file'.currentCluster }
  outside : ∀ l, (∀ c ∈ cs.take ((m + 511) / 512), l ≠ lba28 (clusterLba s.mountInfo c)) →
    w.1.disk.sector l = s.disk.sector l
  stored : ∀ a < m, chainByte w.1.disk s.mountInfo cs a = buffer a

theorem fat12Write_chain {bpb : BPB} {s : FsState Disk} (hm : Mounted bpb s)
    (hspc : bpb.sectorsPerCluster = 1) (file : FAT12File) (buffer : Bytes) (size : u32)
    {cs : List u16} (hchain : FatChain s.fatBuffer file.firstCluster cs)
    (hdata : ∀ c ∈ cs, 2 ≤ c.toNat) :
    ∃ file', FileWritten s file buffer cs (moved size cs)
      (fat12Write s (some file) buffer size) file' := by
  have hlt := size.isLt
  have h := writeLoop_chain buffer cs
    ⟨s, { file with currentCluster := file.firstCluster }, 0⟩ size hchain
    (fun c hc d hd heq ↦ hm.clusterLba_inj hspc (hdata c hc) (hdata d hd) heq)
    (by change 0 + _ < _; omega)
  refine ⟨_, h.mountInfo, h.fatBuffer, ?_, rfl, h.file, h.outside, fun a ha ↦ ?_⟩
  · exact congrArg BitVec.toInt (h.bytesWritten.trans (BitVec.zero_add _))
  · have hst := h.stored a ha
    rw [show (0 : u32).toNat = 0 from rfl, Nat.zero_add] at hst
    exact hst

/-- Writing to the clusters of a file leaves the root directory alone. -/
theorem FileWritten.sameRoot {bpb : BPB} {s : FsState Disk} {file file' : FAT12File}
    {buffer : Bytes} {cs : List u16} {m : Nat} {w : FsState Disk × Option FAT12File × Int}
    (h : FileWritten s file buffer cs m w file') (hm : Mounted bpb s)
    (hspc : bpb.sectorsPerCluster = 1) (hdata : ∀ c ∈ cs, 2 ≤ c.toNat) : SameRoot s w.1 := by
  refine ⟨h.mountInfo, fun k hk ↦ ?_⟩
  have hroot := hm.rootLba_eq hk
  rw [rootSector, rootSector, h.mountInfo]
  apply h.outside
  intro c hc
  have h2 := hdata c (List.mem_of_mem_take hc)
  have hlba := hm.clusterLba_eq hspc (c := c) (by omega)
  omega

/-! ## Write, then read back -/

/-- The handle that `fat12_open` returns stands at the start of the file that `lookup` finds. -/
theorem fat12Open_eq_some {s s₁ : FsState Disk} {filename : CString} {file : FAT12File}
    (h : fat12Open s filename true = (s₁, some file)) :
    SameVolume s s₁ ∧ ∃ n, lookup s (dosName filename) = some n ∧
      file = newHandle filename (rootSlot s n) := by
  obtain ⟨hsame, hhandle⟩ := fat12Open_spec s filename true
  rw [h] at hsame hhandle
  refine ⟨hsame, ?_⟩
  rw [if_pos rfl] at hhandle
  obtain ⟨n, hn, hfile⟩ := Option.map_eq_some_iff.mp hhandle.symm
  exact ⟨n, hn, hfile.symm⟩

theorem fat12Open_of_lookup {s : FsState Disk} {filename : CString} {n : Nat}
    (h : lookup s (dosName filename) = some n) : fat12Open s filename true =
      ((fat12Open s filename true).1, some (newHandle filename (rootSlot s n))) := by
  have hhandle := (fat12Open_spec s filename true).2
  rw [if_pos rfl, h, Option.map_some] at hhandle
  exact Prod.ext rfl hhandle

/-- The first read through a new handle returns the start of the file. -/
theorem fat12Read_opened {s s₁ : FsState Disk} {filename : CString} {file : FAT12File}
    (hopen : fat12Open s filename true = (s₁, some file)) {cs : List u16}
    (hchain : FatChain s.fatBuffer file.firstCluster cs)
    (hfit : file.fileSize.toNat ≤ 512 * cs.length) (buffer : Bytes) {n : u32}
    (hn : n.toNat ≤ file.fileSize.toNat) :
    let r := fat12Read s₁ (some file) buffer n
    r.ret = n.toNat ∧
      (∀ a, r.buffer a = if a < n.toNat then chainByte s.disk s.mountInfo cs a else buffer a) ∧
      SameVolume s r.fs := by
  intro r
  obtain ⟨hsame, slot, -, hfile⟩ := fat12Open_eq_some hopen
  have heof : file.eof = false := by rw [hfile]; rfl
  have hcur : file.currentCluster = file.firstCluster := by rw [hfile]; rfl
  have hpos : file.position = 0 := by rw [hfile]; rfl
  have hsize : readSize file n = n := by
    rw [readSize, hpos, show file.fileSize - 0 = file.fileSize from BitVec.sub_zero _,
      if_neg (BitVec.not_lt.mpr hn)]
  have hchain₁ : FatChain s₁.fatBuffer file.currentCluster cs := by rwa [hsame.fatBuffer, hcur]
  have hlen := hchain.length_le
  obtain ⟨file', hr⟩ := fat12Read_chain s₁ buffer n heof hchain₁
  rw [hsize, moved_of_le (by omega)] at hr
  refine ⟨hr.ret.trans (toInt_ofNat (by omega)), fun a ↦ ?_, hsame.trans hr.volume⟩
  rw [hr.buffer, hsame.disk, hsame.mountInfo]

theorem Mounted.of_sameVolume {bpb : BPB} {s s₁ : FsState Disk} (h : Mounted bpb s)
    (hsame : SameVolume s s₁) : Mounted bpb s₁ :=
  ⟨h.bytesPerSector, hsame.mountInfo.trans h.mountInfo⟩

/-- The handle that is opened after a write is the same as before: the directory is untouched. -/
theorem FileWritten.reopen {bpb : BPB} {s s₁ : FsState Disk} {filename : CString}
    {file file' : FAT12File} {buffer : Bytes} {cs : List u16} {m : Nat}
    {w : FsState Disk × Option FAT12File × Int} (h : FileWritten s₁ file buffer cs m w file')
    (hm : Mounted bpb s) (hspc : bpb.sectorsPerCluster = 1)
    (hopen : fat12Open s filename true = (s₁, some file)) (hdata : ∀ c ∈ cs, 2 ≤ c.toNat) :
    fat12Open w.1 filename true = ((fat12Open w.1 filename true).1, some file) := by
  obtain ⟨hsame, slot, hslot, hfile⟩ := fat12Open_eq_some hopen
  have hroot₁ := h.sameRoot (hm.of_sameVolume hsame) hspc hdata
  have hroot : SameRoot s w.1 := ⟨hroot₁.mountInfo.trans hsame.mountInfo, fun k hk ↦
    (hroot₁.sector k (by rwa [hsame.mountInfo])).trans (hsame.sameRoot.sector k hk)⟩
  have hlive := ((lookup_eq_some_iff _ _ _).mp hslot).1
  have hlook : lookup w.1 (dosName filename) = some slot := by rw [hroot.lookup, hslot]
  rw [fat12Open_of_lookup hlook, hroot.rootSlot hlive.1, ← hfile]

/-- Data of at most the file's size, written through one handle and read through a later one, come
back; nothing else on the disk has changed. -/
theorem write_read_back {bpb : BPB} {s s₁ : FsState Disk} (hm : Mounted bpb s)
    (hspc : bpb.sectorsPerCluster = 1) (filename : CString) {file : FAT12File}
    (hopen : fat12Open s filename true = (s₁, some file)) {cs : List u16}
    (hchain : FatChain s.fatBuffer file.firstCluster cs) (hdata : ∀ c ∈ cs, 2 ≤ c.toNat)
    (hfit : file.fileSize.toNat ≤ 512 * cs.length) (data buffer : Bytes) {n : u32}
    (hn : n.toNat ≤ file.fileSize.toNat) :
    let w := fat12Write s₁ (some file) data n
    w.2.2 = n.toNat ∧
      (∃ s₂ file₂, fat12Open w.1 filename true = (s₂, some file₂) ∧
        let r := fat12Read s₂ (some file₂) buffer n
        r.ret = n.toNat ∧ (∀ a, r.buffer a = if a < n.toNat then data a else buffer a) ∧
          SameVolume w.1 r.fs) ∧
      (∀ l, (∀ c ∈ cs.take ((n.toNat + 511) / 512), l ≠ lba28 (clusterLba s.mountInfo c)) →
        w.1.disk.sector l = s.disk.sector l) ∧
      w.1.fatBuffer = s.fatBuffer := by
  intro w
  obtain ⟨hsame, -⟩ := fat12Open_eq_some hopen
  have hchain₁ : FatChain s₁.fatBuffer file.firstCluster cs := by rwa [hsame.fatBuffer]
  obtain ⟨file', hw⟩ := fat12Write_chain (hm.of_sameVolume hsame) hspc file data n hchain₁ hdata
  change FileWritten s₁ file data cs (moved n cs) w file' at hw
  have hlen := hchain.length_le
  rw [moved_of_le (by omega)] at hw
  have hreopen := hw.reopen hm hspc hopen hdata
  have hchain₂ : FatChain w.1.fatBuffer file.firstCluster cs := by rwa [hw.fatBuffer]
  obtain ⟨hret, hbuffer, hvolume⟩ := fat12Read_opened hreopen hchain₂ hfit buffer hn
  refine ⟨hw.ret.trans (toInt_ofNat (by omega)), ⟨(fat12Open w.1 filename true).1, file, hreopen,
    hret, fun a ↦ ?_, hvolume⟩, ?_, hw.fatBuffer.trans hsame.fatBuffer⟩
  · rw [hbuffer]
    by_cases ha : a < n.toNat
    · rw [if_pos ha, if_pos ha, hw.mountInfo, hw.stored a ha]
    · rw [if_neg ha, if_neg ha]
  · intro l hl
    rw [hw.outside l (by rwa [hsame.mountInfo]), hsame.disk]

/-! A file of two clusters on an otherwise blank volume. -/

def noteName : CString := CString.ofList [0x4E, 0x4F, 0x54, 0x45] (by decide)

def noteVolume : FsState Disk where
  disk.sector := Function.update blankVolume.disk.sector 656
    (fillEntry (fun _ ↦ 0) 0 (toDosFilename noteName fun _ ↦ 0) 2 700)
  mountInfo := blankVolume.mountInfo
  fatBuffer := setClusterValue (setClusterValue (fun _ ↦ 0) 2 3) 3 FAT12_EOF
  sectorBuffer _ := 0

def noteFile : FAT12File := newHandle noteName (rootSlot noteVolume 0)

theorem mounted_noteVolume : Mounted (BPB.ofSector bootSector) noteVolume :=
  ⟨mounted_blankVolume.bytesPerSector, rfl⟩

theorem lookup_noteVolume : lookup noteVolume (dosName noteName) = some 0 := by
  have hname : (rootSlot noteVolume 0).name = dosName noteName := by
    funext k
    revert k
    decide +kernel
  apply (lookup_eq_some_iff _ _ _).mpr
  refine ⟨⟨by decide +kernel, fun m hm ↦ ?_⟩, hname, fun m hm ↦ absurd hm (Nat.not_lt_zero m)⟩
  rw [Nat.le_zero.mp hm, DirectoryEntry.isEnd, hname]
  exact dosName_zero_ne noteName

theorem fat12Open_noteVolume : fat12Open noteVolume noteName true =
    ((fat12Open noteVolume noteName true).1, some noteFile) :=
  fat12Open_of_lookup lookup_noteVolume

theorem fatChain_noteVolume : FatChain noteVolume.fatBuffer 2 [2, 3] :=
  ⟨rfl, by decide +kernel, by decide +kernel, by decide +kernel,
    ChainFrom.nil_iff.mpr (by decide +kernel)⟩

theorem firstCluster_noteFile : noteFile.firstCluster = 2 := by decide +kernel

theorem fileSize_noteFile : noteFile.fileSize = 700 := by decide +kernel

theorem write_read_back_noteVolume :
    let w := fat12Write (fat12Open noteVolume noteName true).1 (some noteFile) (fun _ ↦ 7) 600
    w.2.2 = (600 : u32).toNat ∧
      (∃ s₂ file₂, fat12Open w.1 noteName true = (s₂, some file₂) ∧
        let r := fat12Read s₂ (some file₂) (fun _ ↦ 0) 600
        r.ret = (600 : u32).toNat ∧
          (∀ a, r.buffer a = if a < (600 : u32).toNat then 7 else 0) ∧
          SameVolume w.1 r.fs) ∧
      (∀ l, (∀ c ∈ [2, 3].take (((600 : u32).toNat + 511) / 512),
          l ≠ lba28 (clusterLba noteVolume.mountInfo c)) →
        w.1.disk.sector l = noteVolume.disk.sector l) ∧
      w.1.fatBuffer = noteVolume.fatBuffer :=
  write_read_back mounted_noteVolume (by decide +kernel) noteName fat12Open_noteVolume
    (by rw [firstCluster_noteFile]; exact fatChain_noteVolume) (by simp)
    (by rw [fileSize_noteFile]; decide) (fun _ ↦ 7) (fun _ ↦ 0) (by rw [fileSize_noteFile]; decide)

end TenOs.Fs
