import TenOs.Fs.Create

/-!
# Failing reads

`ata_read_sector` returns without touching the buffer when the drive reports an error, and
`read_sector` has no result to tell its caller so.  On a drive whose reads may fail, the sector buffer
holds what the last successful read left there.
-/

namespace TenOs.Fs

open TenOs.Base TenOs.Lib TenOs.Drivers

/-- A drive on which read number `n` fails if `fails n` says so; `reads` is how many there were. -/
structure FaultyDisk where
  disk : Disk
  fails : Nat → Bool
  reads : Nat

instance : SectorDevice FaultyDisk where
  readSector d lba buffer off :=
    (if d.fails d.reads then buffer else ataReadSector d.disk lba buffer off,
      { d with reads := d.reads + 1 })
  writeSector d lba buffer off := { d with disk := ataWriteSector d.disk lba buffer off }

/-! ## The sector buffer -/

section Reads

variable (s : FsState FaultyDisk) (lba : Nat → u32)

/-- Whether read `j` from now fails. -/
def failsAt (j : Nat) : Bool := s.disk.fails (s.disk.reads + j)

/-- The sector buffer after `j` reads into it, of the sectors `lba 0, …, lba (j - 1)`. -/
def heldAfter : Nat → Bytes
  | 0 => s.sectorBuffer
  | j + 1 =>
      if failsAt s j then heldAfter j else ataReadSector s.disk.disk (lba j) (heldAfter j) 0

def afterReads (j : Nat) : FsState FaultyDisk where
  disk := { s.disk with reads := s.disk.reads + j }
  mountInfo := s.mountInfo
  fatBuffer := s.fatBuffer
  sectorBuffer := heldAfter s lba j

theorem readToBuffer_afterReads (j : Nat) :
    (afterReads s lba j).readToBuffer (lba j) = afterReads s lba (j + 1) := rfl

variable {s lba}

theorem heldAfter_succ_good {j a : Nat} (h : failsAt s j = false) (ha : a < 512) :
    heldAfter s lba (j + 1) a = s.disk.disk.sector (lba28 (lba j)) a := by
  rw [heldAfter, h, if_neg (by decide), ataReadSector]
  simpa only [Nat.zero_add] using copyCells_inside (heldAfter s lba j)
    (s.disk.disk.sector (lba28 (lba j))) (d := 0) (s := 0) ha

theorem heldAfter_succ_fails {j : Nat} (h : failsAt s j = true) :
    heldAfter s lba (j + 1) = heldAfter s lba j := by
  rw [heldAfter, h, if_pos rfl]

/-- Read `i` is the last one before read `j` that did not fail. -/
structure LastGood (s : FsState FaultyDisk) (i j : Nat) : Prop where
  lt : i < j
  good : failsAt s i = false
  later : ∀ k, i < k → k < j → failsAt s k = true

-- The reads after the last good one have left the buffer alone.
theorem heldAfter_lastGood {i j a : Nat} (h : LastGood s i j) (ha : a < 512) :
    heldAfter s lba j a = s.disk.disk.sector (lba28 (lba i)) a := by
  obtain ⟨hlt, hgood, hlater⟩ := h
  induction j with
  | zero => omega
  | succ j ih =>
    rcases Nat.lt_or_eq_of_le (Nat.le_of_lt_succ hlt) with hij | rfl
    · rw [heldAfter_succ_fails (hlater j hij (by omega))]
      exact ih hij fun k h1 h2 ↦ hlater k h1 (by omega)
    · exact heldAfter_succ_good hgood ha

-- Either no read was good, or there is a last good one.
theorem heldAfter_cases (s : FsState FaultyDisk) (lba : Nat → u32) (j : Nat) :
    heldAfter s lba j = s.sectorBuffer ∨ ∃ i, LastGood s i j := by
  induction j with
  | zero => exact Or.inl rfl
  | succ j ih =>
    cases hj : failsAt s j with
    | false => exact Or.inr ⟨j, by omega, hj, fun k h1 h2 ↦ by omega⟩
    | true =>
      rw [heldAfter_succ_fails hj]
      rcases ih with hstale | ⟨i, hlt, hgood, hlater⟩
      · exact Or.inl hstale
      · refine Or.inr ⟨i, by omega, hgood, fun k h1 h2 ↦ ?_⟩
        rcases Nat.lt_or_eq_of_le (Nat.le_of_lt_succ h2) with h2 | rfl
        · exact hlater k h1 h2
        · exact hj

end Reads

/-! ## Scanning the root directory -/

/-- The LBA of sector `k` of the root directory. -/
def rootLba {E : Type} (s : FsState E) (k : Nat) : u32 :=
  s.mountInfo.rootStart + BitVec.ofNat 32 k

def rootCount {E : Type} (s : FsState E) : Nat := s.mountInfo.rootSize.toNat

section Scan

variable {β : Type} (body : Bytes → Nat → Nat → Option β) (s : FsState FaultyDisk)

/-- What the scan returns at sector `k`. -/
def scanAt (k : Nat) : Option β := firstFrom (body (heldAfter s (rootLba s) (k + 1)) k) 16 0

-- The scan as a search over the sectors; each turn looks at what the buffer holds then.
theorem scanRoot_faulty : scanRoot body s =
    match firstFrom (fun k ↦ (scanAt body s k).map fun v ↦ (k, v)) (rootCount s) 0 with
    | some (k, v) => (afterReads s (rootLba s) (k + 1), some v)
    | none => (afterReads s (rootLba s) (rootCount s), none) := by
  have hloop (n start : Nat) : forReturn (fun sector (t : FsState FaultyDisk) ↦
      let t := t.readToBuffer (t.mountInfo.rootStart + BitVec.ofNat 32 sector)
      (t, firstFrom (body t.sectorBuffer sector) 16 0)) n start (afterReads s (rootLba s) start) =
        match firstFrom (fun k ↦ (scanAt body s k).map fun v ↦ (k, v)) n start with
        | some (k, v) => (afterReads s (rootLba s) (k + 1), some v)
        | none => (afterReads s (rootLba s) (start + n), none) := by
    induction n generalizing start with
    | zero => rfl
    | succ n ih =>
      have hturn : (afterReads s (rootLba s) start).readToBuffer
          ((afterReads s (rootLba s) start).mountInfo.rootStart + BitVec.ofNat 32 start) =
            afterReads s (rootLba s) (start + 1) := readToBuffer_afterReads s (rootLba s) start
      have hscan : firstFrom (body (afterReads s (rootLba s) (start + 1)).sectorBuffer start) 16 0 =
        scanAt body s start := rfl
      rw [forReturn, firstFrom]
      simp only [hturn, hscan]
      cases scanAt body s start with
      | some v => rfl
      | none =>
        simp only [Option.map_none]
        rw [ih, show start + 1 + n = start + (n + 1) by omega]
  have hrun := hloop (rootCount s) 0
  rw [Nat.zero_add] at hrun
  exact hrun

theorem scanRoot_frame : (scanRoot body s).1.mountInfo = s.mountInfo ∧
    (scanRoot body s).1.fatBuffer = s.fatBuffer := by
  rw [scanRoot_faulty]
  split <;> exact ⟨rfl, rfl⟩

variable {body s}

/-- The two ways a scan ends.  Whether `body` returns does not depend on the sector number, so a hit
in a buffer that the last read left as it was can only be in the one from before the scan. -/
theorem scanRoot_cases (hbody : ∀ b k k' i, body b k i = none → body b k' i = none) :
    (∃ k < rootCount s, ∃ v, scanRoot body s = (afterReads s (rootLba s) (k + 1), some v) ∧
        scanAt body s k = some v ∧ (failsAt s k = true → k = 0)) ∨
      (scanRoot body s = (afterReads s (rootLba s) (rootCount s), none) ∧
        ∀ k < rootCount s, scanAt body s k = none) := by
  rw [scanRoot_faulty]
  cases hfirst : firstFrom (fun k ↦ (scanAt body s k).map fun v ↦ (k, v)) (rootCount s) 0 with
  | none =>
    refine Or.inr ⟨rfl, fun k hk ↦ ?_⟩
    have hnone := (firstFrom_eq_none_iff _ _ _).mp hfirst k (Nat.zero_le k) (by omega)
    exact Option.map_eq_none_iff.mp hnone
  | some r =>
    obtain ⟨k, -, hk, hr, hbefore⟩ := (firstFrom_eq_some_iff _ _ _ _).mp hfirst
    obtain ⟨v, hv, rfl⟩ := Option.map_eq_some_iff.mp hr
    refine Or.inl ⟨k, by omega, v, rfl, hv, fun hfail ↦ ?_⟩
    by_contra hk0
    obtain ⟨j, rfl⟩ := Nat.exists_eq_succ_of_ne_zero hk0
    -- the turn before had the same buffer and went through it without a hit
    have hprev := Option.map_eq_none_iff.mp (hbefore j (Nat.zero_le j) (by omega))
    rw [scanAt, firstFrom_eq_none_iff] at hprev
    rw [scanAt, heldAfter_succ_fails hfail] at hv
    have hnone : firstFrom (body (heldAfter s (rootLba s) (j + 1)) (j + 1)) 16 0 = none :=
      (firstFrom_eq_none_iff _ _ _).mpr fun i h1 h2 ↦ hbody _ j _ i (hprev i h1 h2)
    rw [hnone] at hv
    cases hv

theorem scanRoot_hit {k : Nat} {v : β} (hk : k < rootCount s)
    (hbefore : ∀ j < k, scanAt body s j = none) (hv : scanAt body s k = some v) :
    scanRoot body s = (afterReads s (rootLba s) (k + 1), some v) := by
  have hfirst : firstFrom (fun k ↦ (scanAt body s k).map fun v ↦ (k, v)) (rootCount s) 0 =
      some (k, v) := by
    rw [firstFrom_eq_some_iff]
    refine ⟨k, Nat.zero_le k, by omega, by rw [hv]; rfl, fun j _ hj ↦ ?_⟩
    rw [hbefore j hj]
    rfl
  rw [scanRoot_faulty, hfirst]

end Scan

theorem openBody_sector (dosName b : Bytes) (k k' i : Nat)
    (h : openBody dosName b k i = none) : openBody dosName b k' i = none := h

theorem freeBody_eq_none_iff (b : Bytes) (k i : Nat) :
    freeBody b k i = none ↔ ¬ (entryAt b i).isEnd := by
  unfold freeBody
  rw [← charToInt_entry_eq_zero_iff]
  by_cases hend : charToInt (b (32 * i)) = 0
  · rw [if_pos (Or.inl hend)]
    exact iff_of_false (by simp) fun h ↦ h hend
  · rw [if_neg (not_or.mpr ⟨hend, charToInt_ne_E5 _⟩)]
    exact iff_of_true rfl hend

theorem freeBody_sector (b : Bytes) (k k' i : Nat) (h : freeBody b k i = none) :
    freeBody b k' i = none :=
  (freeBody_eq_none_iff b k' i).mpr ((freeBody_eq_none_iff b k i).mp h)

/-! ## Opening -/

/-- The same driver with other sectors on the drive and another sector buffer. -/
def withContents (s : FsState FaultyDisk) (sector : Nat → Bytes) (stale : Bytes) :
    FsState FaultyDisk where
  disk := { s.disk with disk := ⟨sector⟩ }
  mountInfo := s.mountInfo
  fatBuffer := s.fatBuffer
  sectorBuffer := stale

/-- Whatever is on the drive and in the sector buffer, a handle is made from an entry of a root sector
that the call has read. -/
def OpensRead (s : FsState FaultyDisk) (filename : CString) : Prop :=
  ∀ sector stale page file, (fat12Open (withContents s sector stale) filename page).2 = some file →
    ∃ k < rootCount s, failsAt s k = false ∧
      ∃ i < 16, file = newHandle filename (entryAt (sector (lba28 (rootLba s k))) i)

theorem openBody_eq_some {dosName b : Bytes} {k i : Nat} {e : DirectoryEntry}
    (h : openBody dosName b k i = some (some e)) : e = entryAt b i := by
  unfold openBody at h
  split at h
  · cases h
  · split at h
    · cases h
    · split at h
      · cases h
        rfl
      · cases h

theorem openBody_end {dosName b : Bytes} {k i : Nat} (h : (entryAt b i).isEnd) :
    openBody dosName b k i = some none :=
  if_pos ((charToInt_entry_eq_zero_iff b i).mpr h)

theorem fat12Open_handle (s : FsState FaultyDisk) (filename : CString) (page : Bool)
    (file : FAT12File) : (fat12Open s filename page).2 = some file ↔
      page = true ∧ ∃ e, (scanRoot (openBody (toDosFilename filename fun _ ↦ 0)) s).2 = some (some e) ∧
        newHandle filename e = file := by
  unfold fat12Open
  rcases scanRoot (openBody (toDosFilename filename fun _ ↦ 0)) s with ⟨t, _ | _ | e⟩
  · simp
  · simp
  · cases page <;> simp

-- With a failed first read, an entry that lies in the buffer is taken for one of the drive.
theorem firstRead_of_opensRead {s : FsState FaultyDisk} {filename : CString}
    (h : OpensRead s filename) : rootCount s = 0 ∨ failsAt s 0 = false := by
  by_contra hboth
  obtain ⟨hcount, hfail⟩ := not_or.mp hboth
  rw [Bool.not_eq_false] at hfail
  -- an entry for the name lies in the sector buffer, and the drive is blank
  let stale := fillEntry (fun _ ↦ 0) 0 (toDosFilename filename fun _ ↦ 0) 2 0
  have hentry : entryAt stale 0 = newEntry (dosName filename) 2 0 := entryAt_fillEntry_self _ _ _ _ _
  have hbody : openBody (toDosFilename filename fun _ ↦ 0) stale 0 0 =
      some (some (entryAt stale 0)) := by
    have hend : ¬ (entryAt stale 0).isEnd := by
      rw [hentry]
      exact dosName_zero_ne filename
    unfold openBody
    rw [if_neg (mt (charToInt_entry_eq_zero_iff stale 0).mp hend), if_neg (charToInt_ne_E5 _),
      if_pos ((memcmp_entry_eq_zero_iff stale 0 filename).mpr (by rw [hentry]; rfl))]
  have hscan : scanAt (openBody (toDosFilename filename fun _ ↦ 0))
      (withContents s (fun _ _ ↦ 0) stale) 0 = some (some (entryAt stale 0)) := by
    have hheld : heldAfter (withContents s (fun _ _ ↦ 0) stale)
        (rootLba (withContents s (fun _ _ ↦ 0) stale)) 1 = stale := heldAfter_succ_fails hfail
    rw [scanAt, hheld, firstFrom, hbody]
  have hcount' : 0 < rootCount (withContents s (fun _ _ ↦ 0) stale) := Nat.pos_of_ne_zero hcount
  have hrun := scanRoot_hit hcount' (fun j hj ↦ absurd hj (Nat.not_lt_zero j)) hscan
  have hopen := (fat12Open_handle (withContents s (fun _ _ ↦ 0) stale) filename true _).mpr
    ⟨rfl, entryAt stale 0, by rw [hrun], rfl⟩
  obtain ⟨k, -, -, i, -, hfile⟩ := h _ stale true _ hopen
  rw [hentry] at hfile
  have hcluster : (2 : u16) = 0#8 ++ 0#8 := congrArg FAT12File.firstCluster hfile
  exact absurd hcluster (by decide)

-- A later sector whose read failed shows the one before, where nothing was found.
theorem opensRead_of_firstRead {s : FsState FaultyDisk}
    (h : rootCount s = 0 ∨ failsAt s 0 = false) (filename : CString) : OpensRead s filename := by
  intro sector stale page file hopen
  obtain ⟨-, e, hscan, rfl⟩ := (fat12Open_handle _ _ _ _).mp hopen
  rcases scanRoot_cases (s := withContents s sector stale) (openBody_sector _) with
    ⟨k, hk, v, hrun, hv, hfail⟩ | ⟨hrun, -⟩
  · rw [hrun] at hscan
    cases hscan
    have hgood : failsAt s k = false := by
      by_contra hbad
      rw [Bool.not_eq_false] at hbad
      have hk0 := hfail hbad
      rcases h with hcount | hgood
      · have hcount' : rootCount (withContents s sector stale) = 0 := hcount
        omega
      · rw [hk0, hgood] at hbad
        cases hbad
    obtain ⟨i, -, hi, hbody, -⟩ := (firstFrom_eq_some_iff _ _ _ _).mp hv
    refine ⟨k, hk, hgood, i, by omega, ?_⟩
    rw [openBody_eq_some hbody]
    congr 1
    exact entryAt_congr fun a h1 h2 ↦ heldAfter_succ_good (s := withContents s sector stale) hgood
      (by omega)
  · rw [hrun] at hscan
    cases hscan

theorem opensRead_iff (s : FsState FaultyDisk) (filename : CString) :
    OpensRead s filename ↔ rootCount s = 0 ∨ failsAt s 0 = false :=
  ⟨firstRead_of_opensRead, fun h ↦ opensRead_of_firstRead h filename⟩

end TenOs.Fs
