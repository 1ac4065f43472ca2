import TenOs.Fs.Faults
import TenOs.Fs.Transfer

/-!
# `fat12_read` on a drive whose reads may fail

Turn `j` of the loop copies what the sector buffer holds after `j + 1` reads.
-/

namespace TenOs.Fs

open TenOs.Base TenOs.Lib TenOs.Drivers

/-- The cluster that follows `c` after `j` steps. -/
def clusterAt (fat : Bytes) (c : u16) : Nat → u16
  | 0 => c
  | j + 1 => getNextCluster fat (clusterAt fat c j)

/-- The LBA that turn `j` reads for a handle that stands at cluster `c`. -/
def fileLba {E : Type} (s : FsState E) (c : u16) (j : Nat) : u32 :=
  clusterLba s.mountInfo (clusterAt s.fatBuffer c j)

/-- What `n` turns from turn `j` on have done. -/
structure TurnsMade (s : FsState FaultyDisk) (c : u16) (size : u32) (j n : Nat)
    (r r' : ReadState FaultyDisk) : Prop where
  le : n ≤ turns size
  made : ∀ i < n, clusterAt s.fatBuffer c (j + i) < FAT12_EOF_MIN
  stop : n < turns size → ¬ clusterAt s.fatBuffer c (j + n) < FAT12_EOF_MIN
  bytesRead : r'.bytesRead.toNat = r.bytesRead.toNat + min size.toNat (512 * n)
  before : ∀ a < r.bytesRead.toNat, r'.buffer a = r.buffer a
  moved : ∀ a < min size.toNat (512 * n),
    r'.buffer (r.bytesRead.toNat + a) = heldAfter s (fileLba s c) (j + a / 512 + 1) (a % 512)

theorem TurnsMade.refl {s : FsState FaultyDisk} {c : u16} {size : u32} {j : Nat}
    (h : 0 < turns size → ¬ clusterAt s.fatBuffer c j < FAT12_EOF_MIN)
    (r : ReadState FaultyDisk) : TurnsMade s c size j 0 r r := by
  refine ⟨Nat.zero_le _, fun i hi ↦ by omega, h, ?_, fun _ _ ↦ rfl, fun a ha ↦ by omega⟩
  rw [Nat.mul_zero, Nat.min_zero, Nat.add_zero]

section Turn

variable {s : FsState FaultyDisk} {c : u16} {j : Nat} {r : ReadState FaultyDisk}

theorem readTurn_fs (hfs : r.fs = afterReads s (fileLba s c) j)
    (hcluster : r.file.currentCluster = clusterAt s.fatBuffer c j) (size : u32) :
    (readTurn r size).fs = afterReads s (fileLba s c) (j + 1) := by
  have hlba : clusterLba r.fs.mountInfo r.file.currentCluster = fileLba s c j := by
    rw [hfs, hcluster]
    rfl
  change r.fs.readToBuffer (clusterLba r.fs.mountInfo r.file.currentCluster) = _
  rw [hlba, hfs, readToBuffer_afterReads]

theorem readTurn_currentCluster (hfs : r.fs = afterReads s (fileLba s c) j)
    (hcluster : r.file.currentCluster = clusterAt s.fatBuffer c j) (size : u32) :
    (readTurn r size).file.currentCluster = clusterAt s.fatBuffer c (j + 1) := by
  change getNextCluster (readTurn r size).fs.fatBuffer r.file.currentCluster = _
  rw [readTurn_fs hfs hcluster, hcluster]
  rfl

theorem readTurn_buffer_faulty (hfs : r.fs = afterReads s (fileLba s c) j)
    (hcluster : r.file.currentCluster = clusterAt s.fatBuffer c j) (size : u32) (a : Nat) :
    (readTurn r size).buffer a =
      if r.bytesRead.toNat ≤ a ∧ a < r.bytesRead.toNat + (pieceSize size).toNat then
        heldAfter s (fileLba s c) (j + 1) (a - r.bytesRead.toNat)
      else r.buffer a := by
  change copyCells r.buffer r.bytesRead.toNat (readTurn r size).fs.sectorBuffer 0
    (pieceSize size).toNat a = _
  rw [copyCells_apply, readTurn_fs hfs hcluster, Nat.zero_add]
  rfl

/-- A turn, and then the `n` turns of the rest of the call. -/
theorem TurnsMade.turn {size : u32} {n : Nat} {r' : ReadState FaultyDisk}
    (hfs : r.fs = afterReads s (fileLba s c) j)
    (hcluster : r.file.currentCluster = clusterAt s.fatBuffer c j)
    (hsize : r.bytesRead.toNat + size.toNat < 2 ^ 32) (hpos : 0 < size)
    (hend : clusterAt s.fatBuffer c j < FAT12_EOF_MIN)
    (h : TurnsMade s c (size - pieceSize size) (j + 1) n (readTurn r size) r') :
    TurnsMade s c size j (n + 1) r r' := by
  have hpiece := pieceSize_toNat size
  have hrest := sub_pieceSize_toNat size
  have hturns := turns_of_pos hpos
  have hbuffer := readTurn_buffer_faulty hfs hcluster size
  have hread : (readTurn r size).bytesRead.toNat =
      r.bytesRead.toNat + (pieceSize size).toNat := add_pieceSize_toNat hsize
  refine ⟨?_, fun i hi ↦ ?_, fun hlt ↦ ?_, ?_, fun a ha ↦ ?_, fun a ha ↦ ?_⟩
  · have hle := h.le
    omega
  · cases i with
    | zero => exact hend
    | succ i =>
      rw [show j + (i + 1) = j + 1 + i by omega]
      exact h.made i (by omega)
  · rw [show j + (n + 1) = j + 1 + n by omega]
    exact h.stop (by omega)
  · rw [h.bytesRead]
    omega
  · rw [h.before a (by omega), hbuffer, if_neg (by omega)]
  · by_cases hfirst : a < (pieceSize size).toNat
    · -- the bytes of this turn
      rw [h.before _ (by omega), hbuffer, if_pos (by omega), Nat.add_sub_cancel_left,
        show a / 512 = 0 by omega, show a % 512 = a by omega]
    · -- the bytes of the later turns, which follow a whole sector
      have hmoved := h.moved (a - 512) (by omega)
      rw [show (readTurn r size).bytesRead.toNat + (a - 512) = r.bytesRead.toNat + a by omega,
        show j + 1 + (a - 512) / 512 + 1 = j + a / 512 + 1 by omega,
        show (a - 512) % 512 = a % 512 by omega] at hmoved
      exact hmoved

end Turn

-- Induction on the fuel, with `j` the number of the turn in the call.
theorem readLoop_faulty (s : FsState FaultyDisk) (c : u16) (fuel j : Nat)
    (r : ReadState FaultyDisk) {size : u32} (hfuel : fuel = turns size)
    (hfs : r.fs = afterReads s (fileLba s c) j)
    (hcluster : r.file.currentCluster = clusterAt s.fatBuffer c j)
    (hsize : r.bytesRead.toNat + size.toNat < 2 ^ 32) :
    ∃ n, TurnsMade s c size j n r (readLoop fuel r size) := by
  induction fuel generalizing j r size with
  | zero => exact ⟨0, TurnsMade.refl (fun h ↦ by omega) r⟩
  | succ fuel ih =>
    have hpos : 0 < size := by
      rw [BitVec.lt_def]
      unfold turns at hfuel
      change 0 < size.toNat
      omega
    by_cases hend : clusterAt s.fatBuffer c j < FAT12_EOF_MIN
    case neg =>
      rw [readLoop_of_stop _ fun h ↦ hend (hcluster ▸ h.2)]
      exact ⟨0, TurnsMade.refl (fun _ ↦ hend) r⟩
    rw [readLoop, hcluster, if_pos ⟨hpos, hend⟩]
    have hpiece := pieceSize_toNat size
    have hrest := sub_pieceSize_toNat size
    have hturns := turns_of_pos hpos
    have hread : (readTurn r size).bytesRead.toNat =
        r.bytesRead.toNat + (pieceSize size).toNat := add_pieceSize_toNat hsize
    have hturns' : fuel = turns (size - pieceSize size) := by omega
    obtain ⟨n, hn⟩ := ih (j + 1) (readTurn r size) hturns' (readTurn_fs hfs hcluster size)
      (readTurn_currentCluster hfs hcluster size) (by omega)
    exact ⟨n + 1, hn.turn hfs hcluster hsize hpos hend⟩

/-! ## What a call counts -/

/-- The call makes turn `j`. -/
def TurnMade {E : Type} (s : FsState E) (file : FAT12File) (size : u32) (j : Nat) : Prop :=
  file.eof = false ∧ j < turns (readSize file size) ∧
    ∀ i ≤ j, clusterAt s.fatBuffer file.currentCluster i < FAT12_EOF_MIN

-- Byte `a` is counted when turn `a / 512` is made.
theorem fat12Read_faulty (s : FsState FaultyDisk) (file : FAT12File) (buffer : Bytes) (size : u32) :
    let r := fat12Read s (some file) buffer size
    ∀ a, (a < (BitVec.ofInt 32 r.ret).toNat ↔
        a < (readSize file size).toNat ∧ TurnMade s file size (a / 512)) ∧
      (a < (BitVec.ofInt 32 r.ret).toNat → r.buffer a =
        heldAfter s (fileLba s file.currentCluster) (a / 512 + 1) (a % 512)) := by
  intro r a
  cases heof : file.eof with
  | true =>
    have hret : r.ret = 0 := by
      simp only [r, fat12Read, heof, if_true]
    rw [hret]
    refine ⟨iff_of_false (Nat.not_lt_zero a) fun h ↦ ?_, fun h ↦ absurd h (Nat.not_lt_zero a)⟩
    have hclear := h.2.1
    rw [heof] at hclear
    cases hclear
  | false =>
    have hr := fat12Read_of_not_eof s buffer size heof
    have hzero : (0 : u32).toNat = 0 := rfl
    have hlt := (readSize file size).isLt
    obtain ⟨n, hn⟩ := readLoop_faulty s file.currentCluster (turns (readSize file size)) 0
      ⟨s, file, buffer, 0⟩ rfl rfl rfl (by rw [hzero]; omega)
    simp only [r, hr]
    generalize readLoop (turns (readSize file size)) ⟨s, file, buffer, 0⟩ (readSize file size) = t
      at hn
    have hcount : (BitVec.ofInt 32 t.bytesRead.toInt).toNat =
        min (readSize file size).toNat (512 * n) := by
      rw [BitVec.ofInt_toInt, hn.bytesRead, hzero, Nat.zero_add]
    have hmade (j : Nat) (hj : j < turns (readSize file size)) :
        TurnMade s file size j ↔ j < n := by
      constructor
      · intro h
        by_contra hge
        have hclusters := h.2.2 n (by omega)
        rw [← Nat.zero_add n] at hclusters
        exact hn.stop (by omega) hclusters
      · intro hjn
        refine ⟨heof, hj, fun i hi ↦ ?_⟩
        rw [← Nat.zero_add i]
        exact hn.made i (by omega)
    have hturn (ha : a < (readSize file size).toNat) : a / 512 < turns (readSize file size) := by
      unfold turns
      omega
    rw [hcount]
    constructor
    · constructor
      · intro ha
        exact ⟨by omega, (hmade _ (hturn (by omega))).mpr (by omega)⟩
      · rintro ⟨ha, hj⟩
        have hjn := (hmade _ (hturn ha)).mp hj
        omega
    · intro ha
      have hmoved := hn.moved a ha
      rw [hzero, Nat.zero_add, Nat.zero_add] at hmoved
      exact hmoved

/-- Whatever is on the drive and in the sector buffer, the bytes that the call counts are those of the
sectors of the file. -/
def ReadsOwn (s : FsState FaultyDisk) (file : FAT12File) (size : u32) : Prop :=
  ∀ sector stale buffer, let r := fat12Read (withContents s sector stale) (some file) buffer size
    ∀ a < (BitVec.ofInt 32 r.ret).toNat,
      r.buffer a = sector (lba28 (fileLba s file.currentCluster (a / 512))) (a % 512)

/-- A turn may only go without a read of its own when the last read of the call that did not fail was
of the same sector. -/
theorem readsOwn_iff (s : FsState FaultyDisk) (file : FAT12File) (size : u32) :
    ReadsOwn s file size ↔ ∀ j, TurnMade s file size j → ∃ i, LastGood s i (j + 1) ∧
      lba28 (fileLba s file.currentCluster i) = lba28 (fileLba s file.currentCluster j) := by
  constructor
  · intro h j hj
    -- the sector of turn `j` is marked, and nothing else is
    let sector : Nat → Bytes := fun l _ ↦
      if l = lba28 (fileLba s file.currentCluster j) then 1 else 0
    have hread := fat12Read_faulty (withContents s sector fun _ ↦ 0) file (fun _ ↦ 0) size (512 * j)
    have hdiv : 512 * j / 512 = j := by omega
    have hmod : 512 * j % 512 = 0 := by omega
    rw [hdiv, hmod] at hread
    have hin : 512 * j < (readSize file size).toNat := by
      have hlt := hj.2.1
      unfold turns at hlt
      omega
    have hcount := hread.1.mpr ⟨hin, hj⟩
    have hown := h sector (fun _ ↦ 0) (fun _ ↦ 0) (512 * j) hcount
    rw [hread.2 hcount, hdiv, hmod] at hown
    have hone : sector (lba28 (fileLba s file.currentCluster j)) 0 = 1 := if_pos rfl
    rw [hone] at hown
    rcases heldAfter_cases (withContents s sector fun _ ↦ 0)
      (fileLba (withContents s sector fun _ ↦ 0) file.currentCluster) (j + 1) with
      hstale | ⟨i, hi⟩
    · rw [hstale] at hown
      have hblank : (0 : u8) = 1 := hown
      exact absurd hblank (by decide)
    · rw [heldAfter_lastGood hi (by omega)] at hown
      refine ⟨i, ⟨hi.lt, hi.good, hi.later⟩, ?_⟩
      by_contra hne
      have hunmarked : sector (lba28 (fileLba s file.currentCluster i)) 0 = 0 := if_neg hne
      exact absurd (hown.symm.trans hunmarked) (by decide)
  · intro h sector stale buffer r a ha
    have hread := fat12Read_faulty (withContents s sector stale) file buffer size a
    obtain ⟨i, hi, hsame⟩ := h (a / 512) (hread.1.mp ha).2
    have hgood : LastGood (withContents s sector stale) i (a / 512 + 1) := ⟨hi.lt, hi.good, hi.later⟩
    rw [← hsame]
    exact (hread.2 ha).trans (heldAfter_lastGood hgood (by omega))

end TenOs.Fs
