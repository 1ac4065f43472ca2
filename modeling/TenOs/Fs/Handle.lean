import TenOs.Base.Run
import TenOs.Base.While
import TenOs.Fs.Transfer

/-!
# One handle on any volume

`fat12_read` and `fat12_write` follow whatever links the cached FAT holds, cycles included.  The
loops end because every turn takes bytes off the size, and the position stays within the file
because `fat12_read` cuts the size down to what is left of it.
-/

namespace TenOs.Fs

open TenOs.Base TenOs.Lib TenOs.Drivers

variable {D : Type} [SectorDevice D]

/-! ## The two loops without a bound on their turns -/

/-- The condition of the loop of `fat12_read`, on its variables and the `size` that is left. -/
def ReadGuard (r : ReadState D × u32) : Prop :=
  0 < r.2 ∧ r.1.file.currentCluster < FAT12_EOF_MIN

def readBody (r : ReadState D × u32) : ReadState D × u32 :=
  (readTurn r.1 r.2, r.2 - pieceSize r.2)

def WriteGuard (w : WriteState D × u32) : Prop :=
  0 < w.2 ∧ w.1.file.currentCluster < FAT12_EOF_MIN

def writeBody (buffer : Bytes) (w : WriteState D × u32) : WriteState D × u32 :=
  (writeTurn buffer w.1 w.2, w.2 - pieceSize w.2)

theorem not_pos_of_turns {size : u32} (h : turns size = 0) : ¬ 0 < size := by
  intro hpos
  rw [turns_of_pos hpos] at h
  cases h

theorem pos_of_turns {size : u32} {n : Nat} (h : turns size = n + 1) : 0 < size := by
  rw [turns] at h
  change 0 < size.toNat
  omega

-- Induction on the number of turns that the size allows.
theorem readLoop_whileRun (r : ReadState D) (size : u32) :
    ∃ trace rest, trace.length ≤ turns size ∧
      WhileRun ReadGuard readBody (r, size) trace (readLoop (turns size) r size, rest) := by
  generalize hn : turns size = n
  induction n generalizing r size with
  | zero =>
    exact ⟨[], size, Nat.le_refl 0, WhileRun.stop fun hg ↦ not_pos_of_turns hn hg.1⟩
  | succ n ih =>
    by_cases hg : 0 < size ∧ r.file.currentCluster < FAT12_EOF_MIN
    · rw [turns_of_pos hg.1] at hn
      obtain ⟨trace, rest, hlen, hrun⟩ :=
        ih (readTurn r size) (size - pieceSize size) (Nat.succ.inj hn)
      rw [readLoop, if_pos hg]
      exact ⟨(r, size) :: trace, rest, Nat.succ_le_succ hlen, WhileRun.turn hg hrun⟩
    · rw [readLoop, if_neg hg]
      exact ⟨[], size, Nat.zero_le _, WhileRun.stop hg⟩

theorem writeLoop_whileRun (buffer : Bytes) (w : WriteState D) (size : u32) :
    ∃ trace rest, trace.length ≤ turns size ∧
      WhileRun WriteGuard (writeBody buffer) (w, size) trace
        (writeLoop buffer (turns size) w size, rest) := by
  generalize hn : turns size = n
  induction n generalizing w size with
  | zero =>
    exact ⟨[], size, Nat.le_refl 0, WhileRun.stop fun hg ↦ not_pos_of_turns hn hg.1⟩
  | succ n ih =>
    by_cases hg : 0 < size ∧ w.file.currentCluster < FAT12_EOF_MIN
    · rw [turns_of_pos hg.1] at hn
      obtain ⟨trace, rest, hlen, hrun⟩ :=
        ih (writeTurn buffer w size) (size - pieceSize size) (Nat.succ.inj hn)
      rw [writeLoop, if_pos hg]
      exact ⟨(w, size) :: trace, rest, Nat.succ_le_succ hlen, WhileRun.turn hg hrun⟩
    · rw [writeLoop, if_neg hg]
      exact ⟨[], size, Nat.zero_le _, WhileRun.stop hg⟩

/-! ## What a run of the loop adds up to -/

/-- After any number of turns the bytes read and the size that is left make up what they were at the
start, and so do the position and that size. -/
structure ReadProgress (r t : ReadState D × u32) : Prop where
  le : t.2.toNat ≤ r.2.toNat
  bytesRead : t.1.bytesRead.toNat + t.2.toNat = r.1.bytesRead.toNat + r.2.toNat
  position : t.1.file.position.toNat + t.2.toNat = r.1.file.position.toNat + r.2.toNat
  file : t.1.file = { r.1.file with
    position := t.1.file.position, currentCluster := t.1.file.currentCluster }

theorem ReadProgress.turn {r t : ReadState D × u32} (h : ReadProgress r t)
    (hread : r.1.bytesRead.toNat + r.2.toNat < 2 ^ 32)
    (hpos : r.1.file.position.toNat + r.2.toNat < 2 ^ 32) : ReadProgress r (readBody t) := by
  have hpiece := pieceSize_toNat t.2
  have hrest := sub_pieceSize_toNat t.2
  have hle := h.le
  have hb := h.bytesRead
  have hp := h.position
  have hread' : (t.1.bytesRead + pieceSize t.2).toNat =
      t.1.bytesRead.toNat + (pieceSize t.2).toNat := add_pieceSize_toNat (by omega)
  have hpos' : (t.1.file.position + pieceSize t.2).toNat =
      t.1.file.position.toNat + (pieceSize t.2).toNat := add_pieceSize_toNat (by omega)
  constructor
  · change (t.2 - pieceSize t.2).toNat ≤ _
    omega
  · change (t.1.bytesRead + pieceSize t.2).toNat + (t.2 - pieceSize t.2).toNat = _
    omega
  · change (t.1.file.position + pieceSize t.2).toNat + (t.2 - pieceSize t.2).toNat = _
    omega
  · have hturn : (readBody t).1.file = { t.1.file with
        position := (readBody t).1.file.position
        currentCluster := (readBody t).1.file.currentCluster } := rfl
    rw [hturn, h.file]

theorem readRun_progress {r t : ReadState D × u32} {trace : List (ReadState D × u32)}
    (hread : r.1.bytesRead.toNat + r.2.toNat < 2 ^ 32)
    (hpos : r.1.file.position.toNat + r.2.toNat < 2 ^ 32)
    (h : WhileRun ReadGuard readBody r trace t) :
    (∀ u ∈ trace, ReadProgress r u) ∧ ReadProgress r t :=
  h.inv (ReadProgress r) (fun _ hu _ ↦ hu.turn hread hpos) ⟨Nat.le_refl _, rfl, rfl, rfl⟩

theorem readLoop_bytesRead_le (r : ReadState D) (size : u32)
    (hread : r.bytesRead.toNat + size.toNat < 2 ^ 32)
    (hpos : r.file.position.toNat + size.toNat < 2 ^ 32) :
    r.bytesRead.toNat ≤ (readLoop (turns size) r size).bytesRead.toNat := by
  obtain ⟨trace, rest, -, hrun⟩ := readLoop_whileRun r size
  have hend := (readRun_progress hread hpos hrun).2
  have hle := hend.le
  have hsum := hend.bytesRead
  simp only at hle hsum
  omega

/-- The caller's buffer only takes bytes: with another one the loop does the same, and stores the
same bytes from where it starts to where it ends. -/
theorem readLoop_withBuffer (r : ReadState D) (size : u32) (b : Bytes)
    (hread : r.bytesRead.toNat + size.toNat < 2 ^ 32)
    (hpos : r.file.position.toNat + size.toNat < 2 ^ 32) :
    readLoop (turns size) { r with buffer := b } size =
      { readLoop (turns size) r size with
        buffer := fun a ↦
          if r.bytesRead.toNat ≤ a ∧ a < (readLoop (turns size) r size).bytesRead.toNat then
            (readLoop (turns size) r size).buffer a
          else b a } := by
  generalize hn : turns size = n
  induction n generalizing r size b with
  | zero =>
    have hempty (a : Nat) : ¬ (r.bytesRead.toNat ≤ a ∧ a < r.bytesRead.toNat) := by omega
    simp only [readLoop, hempty, if_false]
  | succ n ih =>
    by_cases hg : 0 < size ∧ r.file.currentCluster < FAT12_EOF_MIN
    · have hsucc := turns_of_pos hg.1
      have hn' : turns (size - pieceSize size) = n := by omega
      have hpiece := pieceSize_toNat size
      have hrest := sub_pieceSize_toNat size
      have hread' : (readTurn r size).bytesRead.toNat =
          r.bytesRead.toNat + (pieceSize size).toNat := add_pieceSize_toNat hread
      have hpos' : (readTurn r size).file.position.toNat =
          r.file.position.toNat + (pieceSize size).toNat := add_pieceSize_toNat hpos
      have hmono := readLoop_bytesRead_le (readTurn r size) (size - pieceSize size)
        (by omega) (by omega)
      rw [hn'] at hmono
      set source := (r.fs.readToBuffer
        (clusterLba r.fs.mountInfo r.file.currentCluster)).sectorBuffer
      have hcopy (b : Bytes) (a : Nat) := copyCells_apply b source r.bytesRead.toNat 0
        (pieceSize size).toNat a
      have hrun (b : Bytes) := ih (readTurn r size) (size - pieceSize size) b (by omega) (by omega)
        hn'
      have hkeep := congrArg ReadState.buffer (hrun (readTurn r size).buffer)
      rw [readLoop, readLoop, if_pos hg, if_pos hg]
      refine (hrun (memcpy b r.bytesRead.toNat source 0 (pieceSize size).toNat)).trans ?_
      refine congrArg (fun buffer ↦
        { readLoop n (readTurn r size) (size - pieceSize size) with buffer }) (funext fun a ↦ ?_)
      have hsame := congrFun hkeep a
      simp only at hsame
      rw [hread'] at hmono hsame ⊢
      change (if _ then _ else copyCells _ _ _ _ _ _) = _
      rw [hcopy]
      change _ = if _ then _ else copyCells _ _ _ _ _ _ at hsame
      rw [hcopy] at hsame
      by_cases hfst : r.bytesRead.toNat ≤ a ∧ a < r.bytesRead.toNat + (pieceSize size).toNat
      · -- a byte of this turn, in both buffers the same byte of the sector
        rw [if_neg (by omega), if_pos hfst] at hsame ⊢
        rw [if_pos (by omega), hsame]
      · rw [if_neg hfst]
        by_cases hsnd : r.bytesRead.toNat + (pieceSize size).toNat ≤ a ∧
            a < (readLoop n (readTurn r size) (size - pieceSize size)).bytesRead.toNat
        · rw [if_pos hsnd, if_pos (by omega)]
        · rw [if_neg hsnd, if_neg (by omega)]
    · have hempty (a : Nat) : ¬ (r.bytesRead.toNat ≤ a ∧ a < r.bytesRead.toNat) := by omega
      simp only [readLoop, if_neg hg, hempty, if_false]

/-! ## Whole calls -/

theorem readSize_toNat {file : FAT12File} (h : file.position.toNat ≤ file.fileSize.toNat)
    (size : u32) :
    (readSize file size).toNat = min size.toNat (file.fileSize.toNat - file.position.toNat) := by
  have hsub : (file.fileSize - file.position).toNat =
      file.fileSize.toNat - file.position.toNat := BitVec.toNat_sub_of_le h
  unfold readSize
  split
  · rename_i hlt
    rw [BitVec.lt_def, hsub] at hlt
    omega
  · rename_i hlt
    rw [BitVec.lt_def, hsub] at hlt
    omega

/-- The loop of a call of `fat12_read` with `buffer` ends after the turns of `trace` in `t`. -/
def ReadRun (s : FsState D) (file : FAT12File) (buffer : Bytes) (size : u32)
    (trace : List (ReadState D × u32)) (t : ReadState D) : Prop :=
  ∃ rest, WhileRun ReadGuard readBody (⟨s, file, buffer, 0⟩, readSize file size) trace (t, rest)

def WriteRun (s : FsState D) (file : FAT12File) (buffer : Bytes) (size : u32)
    (trace : List (WriteState D × u32)) (t : WriteState D) : Prop :=
  ∃ rest, WhileRun WriteGuard (writeBody buffer)
    (⟨s, { file with currentCluster := file.firstCluster }, 0⟩, size) trace (t, rest)

/-- A call of `fat12_read` that returns `n` bytes.  It stores the first `n` bytes of the caller's
buffer, whatever they were, and no other; `data` is what it stores. -/
structure SafeRead (s : FsState D) (file : FAT12File) (size : u32) (n : Nat) : Prop where
  le : n ≤ min size.toNat (file.fileSize.toNat - file.position.toNat)
  ret : ∀ buffer, (fat12Read s (some file) buffer size).ret = (BitVec.ofNat 32 n).toInt
  stored : ∃ data : Bytes, ∀ buffer a,
    (fat12Read s (some file) buffer size).buffer a = if a < n then data a else buffer a
  handle : ∀ buffer, ∃ file', (fat12Read s (some file) buffer size).file = some file' ∧
    file'.position.toNat = file.position.toNat + n ∧ file'.fileSize = file.fileSize ∧
    file'.firstCluster = file.firstCluster ∧ (file.eof = true → file' = file)
  ends : ∀ buffer, file.eof = false → ∃ trace t, ReadRun s file buffer size trace t ∧
    (∀ r ∈ trace, r.1.file.currentCluster.toNat < 0xFF8 ∧
      r.1.file.position.toNat ≤ file.fileSize.toNat) ∧
    (fat12Read s (some file) buffer size).fs = t.fs ∧
    (fat12Read s (some file) buffer size).buffer = t.buffer ∧
    (fat12Read s (some file) buffer size).ret = t.bytesRead.toInt

/-- A call of `fat12_write`. -/
structure SafeWrite (s : FsState D) (file : FAT12File) (buffer : Bytes) (size : u32) : Prop where
  ends : ∃ trace t, WriteRun s file buffer size trace t ∧
    (∀ w ∈ trace, w.1.file.currentCluster.toNat < 0xFF8) ∧
    fat12Write s (some file) buffer size = (t.fs, some t.file, t.bytesWritten.toInt)
  handle : ∃ file', (fat12Write s (some file) buffer size).2.1 = some file' ∧
    file' = { file with currentCluster := file'.currentCluster }

theorem safeRead_of_eof (s : FsState D) {file : FAT12File} (size : u32) (heof : file.eof = true) :
    SafeRead s file size 0 := by
  have hcall (buffer : Bytes) :
      fat12Read s (some file) buffer size = ⟨s, some file, buffer, 0⟩ := by
    simp only [fat12Read, heof, if_true]
  constructor
  · exact Nat.zero_le _
  · intro buffer
    rw [hcall]
    rfl
  · refine ⟨fun _ ↦ 0, fun buffer a ↦ ?_⟩
    rw [hcall, if_neg (Nat.not_lt_zero a)]
  · intro buffer
    rw [hcall]
    exact ⟨file, rfl, rfl, rfl, rfl, fun _ ↦ rfl⟩
  · intro buffer hnot
    rw [heof] at hnot
    cases hnot

/-- The loop of a call, from a position within the file. -/
theorem readRun_of_le (s : FsState D) {file : FAT12File} (buffer : Bytes) (size : u32)
    (hle : file.position.toNat ≤ file.fileSize.toNat) :
    let r := readLoop (turns (readSize file size)) ⟨s, file, buffer, 0⟩ (readSize file size)
    r.bytesRead.toNat ≤ (readSize file size).toNat ∧
      r.file.position.toNat = file.position.toNat + r.bytesRead.toNat ∧
      r.file = { file with
        position := r.file.position, currentCluster := r.file.currentCluster } ∧
      ∃ trace, ReadRun s file buffer size trace r ∧
        ∀ u ∈ trace, u.1.file.currentCluster.toNat < 0xFF8 ∧
          u.1.file.position.toNat ≤ file.fileSize.toNat := by
  intro r
  have hsize := readSize_toNat hle size
  have hfile := file.fileSize.isLt
  have hread : (0 : u32).toNat + (readSize file size).toNat < 2 ^ 32 := by
    have hlt := (readSize file size).isLt
    rwa [show (0 : u32).toNat = 0 from rfl, Nat.zero_add]
  have hpos : file.position.toNat + (readSize file size).toNat < 2 ^ 32 := by omega
  obtain ⟨trace, rest, -, hrun⟩ := readLoop_whileRun ⟨s, file, buffer, 0⟩ (readSize file size)
  obtain ⟨htrace, hend⟩ := readRun_progress hread hpos hrun
  have hsum : r.bytesRead.toNat + rest.toNat = 0 + (readSize file size).toNat := hend.bytesRead
  have hsum' : r.file.position.toNat + rest.toNat =
      file.position.toNat + (readSize file size).toNat := hend.position
  refine ⟨by omega, by omega, hend.file, trace, ⟨rest, hrun⟩, fun u hu ↦ ⟨?_, ?_⟩⟩
  · exact (hrun.guard_of_mem hu).2
  · have hu' : u.1.file.position.toNat + u.2.toNat =
        file.position.toNat + (readSize file size).toNat := (htrace u hu).position
    omega

theorem safeRead_of_not_eof (s : FsState D) {file : FAT12File} (size : u32)
    (heof : file.eof = false) (hle : file.position.toNat ≤ file.fileSize.toNat) :
    ∃ n, SafeRead s file size n := by
  have hsize := readSize_toNat hle size
  have hfile := file.fileSize.isLt
  have hzero : (0 : u32).toNat = 0 := rfl
  -- every buffer sees the same loop, so the one with an empty buffer tells what is stored
  set r₀ := readLoop (turns (readSize file size)) ⟨s, file, fun _ ↦ 0, 0⟩ (readSize file size)
  have hloop (buffer : Bytes) :
      readLoop (turns (readSize file size)) ⟨s, file, buffer, 0⟩ (readSize file size) =
        { r₀ with
          buffer := fun a ↦ if a < r₀.bytesRead.toNat then r₀.buffer a else buffer a } := by
    have h := readLoop_withBuffer (⟨s, file, fun _ ↦ 0, 0⟩ : ReadState D) (readSize file size)
      buffer (by have := (readSize file size).isLt; rw [hzero]; omega)
      (by change file.position.toNat + _ < _; omega)
    simpa only [hzero, Nat.zero_le, true_and] using h
  have hcall (buffer : Bytes) := fat12Read_of_not_eof s buffer size heof
  refine ⟨r₀.bytesRead.toNat, ?_, fun buffer ↦ ?_, ⟨r₀.buffer, fun buffer a ↦ ?_⟩,
    fun buffer ↦ ?_, fun buffer _ ↦ ?_⟩
  · rw [← hsize]
    exact (readRun_of_le s _ size hle).1
  · rw [hcall, hloop, BitVec.ofNat_toNat, BitVec.setWidth_eq]
  · rw [hcall, hloop]
  · obtain ⟨-, hpos, hkeep, -⟩ := readRun_of_le s buffer size hle
    have hfileSize := congrArg FAT12File.fileSize hkeep
    have hfirst := congrArg FAT12File.firstCluster hkeep
    rw [hloop] at hpos hfileSize hfirst
    rw [hcall, hloop]
    refine ⟨_, rfl, ?_, ?_, ?_, fun h ↦ absurd h (by rw [heof]; decide)⟩
    · split <;> exact hpos
    · split <;> exact hfileSize
    · split <;> exact hfirst
  · obtain ⟨-, -, -, trace, hrun, htrace⟩ := readRun_of_le s buffer size hle
    rw [hcall]
    exact ⟨trace, _, hrun, htrace, rfl, rfl, rfl⟩

theorem safeRead_of_le (s : FsState D) {file : FAT12File} (size : u32)
    (hle : file.position.toNat ≤ file.fileSize.toNat) : ∃ n, SafeRead s file size n := by
  cases heof : file.eof with
  | true => exact ⟨0, safeRead_of_eof s size heof⟩
  | false => exact safeRead_of_not_eof s size heof hle

-- Writing never moves anything but the current cluster.
theorem writeLoop_file (buffer : Bytes) (fuel : Nat) (w : WriteState D) (size : u32) :
    (writeLoop buffer fuel w size).file =
      { w.file with currentCluster := (writeLoop buffer fuel w size).file.currentCluster } := by
  induction fuel generalizing w size with
  | zero => rfl
  | succ fuel ih =>
    rw [writeLoop]
    split
    · exact ih (writeTurn buffer w size) _
    · rfl

theorem safeWrite (s : FsState D) (file : FAT12File) (buffer : Bytes) (size : u32) :
    SafeWrite s file buffer size := by
  set w₀ : WriteState D := ⟨s, { file with currentCluster := file.firstCluster }, 0⟩
  constructor
  · obtain ⟨trace, rest, -, hrun⟩ := writeLoop_whileRun buffer w₀ size
    exact ⟨trace, _, ⟨rest, hrun⟩, fun w hw ↦ (hrun.guard_of_mem hw).2, rfl⟩
  · exact ⟨_, rfl, writeLoop_file buffer (turns size) w₀ size⟩

/-! ## Every sequence of calls -/

/-- What can happen to an open handle: a call that uses it, or something else that leaves the driver
in another state. -/
inductive HandleCall (D : Type)
  | read (buffer : Bytes) (size : u32)
  | write (buffer : Bytes) (size : u32)
  | other (s : FsState D)

/-- The driver and the handle after the call. -/
def HandleCall.step (st : FsState D × FAT12File) : HandleCall D → FsState D × FAT12File
  | read buffer size =>
      let r := fat12Read st.1 (some st.2) buffer size
      (r.fs, r.file.getD st.2)
  | write buffer size =>
      let w := fat12Write st.1 (some st.2) buffer size
      (w.1, w.2.1.getD st.2)
  | other s => (s, st.2)

/-- The states that calls lead to, in any order and number. -/
abbrev HandleRun (st st' : FsState D × FAT12File) : Prop :=
  Run HandleCall.step (fun _ _ ↦ True) st st'

/-- What every call on the handle may rely on. -/
structure HandleSafe (s : FsState D) (file : FAT12File) : Prop where
  position_le : file.position.toNat ≤ file.fileSize.toNat
  read : ∀ size, ∃ n, SafeRead s file size n
  write : ∀ buffer size, SafeWrite s file buffer size
  eof : file.eof = true → ∀ later, HandleRun (s, file) later → ∀ buffer size,
    (fat12Read later.1 (some later.2) buffer size).ret = 0

theorem HandleCall.step_position_le {st : FsState D × FAT12File}
    (h : st.2.position.toNat ≤ st.2.fileSize.toNat) (c : HandleCall D) :
    (c.step st).2.position.toNat ≤ (c.step st).2.fileSize.toNat := by
  cases c with
  | read buffer size =>
    obtain ⟨n, hn⟩ := safeRead_of_le st.1 size h
    obtain ⟨file', hfile, hpos, hsize, -⟩ := hn.handle buffer
    have hle := hn.le
    change ((fat12Read st.1 (some st.2) buffer size).file.getD st.2).position.toNat ≤
      ((fat12Read st.1 (some st.2) buffer size).file.getD st.2).fileSize.toNat
    rw [hfile, Option.getD_some, hpos, hsize]
    omega
  | write buffer size =>
    obtain ⟨file', hfile, hkeep⟩ := (safeWrite st.1 st.2 buffer size).handle
    change ((fat12Write st.1 (some st.2) buffer size).2.1.getD st.2).position.toNat ≤
      ((fat12Write st.1 (some st.2) buffer size).2.1.getD st.2).fileSize.toNat
    rw [hfile, Option.getD_some, hkeep]
    exact h
  | other s => exact h

theorem HandleCall.step_eof {st : FsState D × FAT12File} (h : st.2.eof = true)
    (c : HandleCall D) : (c.step st).2.eof = true := by
  cases c with
  | read buffer size =>
    have hcall : fat12Read st.1 (some st.2) buffer size = ⟨st.1, some st.2, buffer, 0⟩ := by
      simp only [fat12Read, h, if_true]
    change ((fat12Read st.1 (some st.2) buffer size).file.getD st.2).eof = true
    rw [hcall]
    exact h
  | write buffer size =>
    obtain ⟨file', hfile, hkeep⟩ := (safeWrite st.1 st.2 buffer size).handle
    change ((fat12Write st.1 (some st.2) buffer size).2.1.getD st.2).eof = true
    rw [hfile, Option.getD_some, hkeep]
    exact h
  | other s => exact h

theorem fat12Open_eq_newHandle {s s₁ : FsState D} {filename : CString} {page : Bool}
    {file : FAT12File} (h : fat12Open s filename page = (s₁, some file)) :
    ∃ e, file = newHandle filename e := by
  unfold fat12Open at h
  simp only at h
  split at h
  · cases page with
    | true => exact ⟨_, (Option.some.inj (congrArg Prod.snd h)).symm⟩
    | false => cases congrArg Prod.snd h
  · cases congrArg Prod.snd h

/-- Whatever the cached FAT, the entry and the drive hold, and whatever is called in whatever order:
the calls on a handle end, and `fat12_read` stays within the file. -/
theorem handleSafe_of_run {s s₁ t : FsState D} {filename : CString} {page : Bool}
    {file file' : FAT12File} (hopen : fat12Open s filename page = (s₁, some file))
    (h : HandleRun (s₁, file) (t, file')) : HandleSafe t file' := by
  have hle : file'.position.toNat ≤ file'.fileSize.toNat := by
    refine h.inv (fun st ↦ st.2.position.toNat ≤ st.2.fileSize.toNat) ?_
      fun st c hst _ ↦ c.step_position_le hst
    obtain ⟨e, rfl⟩ := fat12Open_eq_newHandle hopen
    exact Nat.zero_le _
  refine ⟨hle, fun size ↦ safeRead_of_le t size hle, safeWrite t file',
    fun heof later hlater buffer size ↦ ?_⟩
  have hstill : later.2.eof = true :=
    hlater.inv (fun st ↦ st.2.eof = true) heof fun st c hst _ ↦ c.step_eof hst
  simp only [fat12Read, hstill, if_true]

-- Two calls, one after the other.
theorem handleRun_two {st : FsState D × FAT12File} (c d : HandleCall D) :
    HandleRun st (HandleCall.step (HandleCall.step st c) d) :=
  Run.step (Run.step Run.start trivial) trivial

theorem handleSafe_noteVolume :
    let st := HandleCall.step (HandleCall.step ((fat12Open noteVolume noteName true).1, noteFile)
      (.read (fun _ ↦ 0) 512)) (.write (fun _ ↦ 7) 600)
    HandleSafe st.1 st.2 := by
  intro st
  have hrun : HandleRun ((fat12Open noteVolume noteName true).1, noteFile) st := handleRun_two _ _
  clear_value st
  exact handleSafe_of_run fat12Open_noteVolume hrun

end TenOs.Fs
