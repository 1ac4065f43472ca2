import TenOs.Fs.FaultyRead

/-!
# `fat12_create` on a drive whose reads may fail

The call scans the root directory twice, for the name and for a free slot, and reads the sector of the
slot once more before it writes it back.  It uses the sector buffer throughout.
-/

namespace TenOs.Fs

open TenOs.Base TenOs.Lib TenOs.Drivers

/-! ## The end of the call -/

section Store

variable (s : FsState FaultyDisk) (k i : Nat) (name : Bytes) (first : u16) (size : u32)

theorem syncFat_faulty : (syncFat s).mountInfo = s.mountInfo ∧ (syncFat s).fatBuffer = s.fatBuffer ∧
    (syncFat s).sectorBuffer = s.sectorBuffer :=
  forLoop_inv (fun _ (t : FsState FaultyDisk) ↦ t.mountInfo = s.mountInfo ∧
    t.fatBuffer = s.fatBuffer ∧ t.sectorBuffer = s.sectorBuffer) ⟨rfl, rfl, rfl⟩ fun _ _ _ _ h ↦ h

-- What is written back is the sector read, or the stale buffer, with the entry filled in.
theorem storeEntry_faulty : ∃ b : Bytes,
    (∀ a < 512, (storeEntry s k i name first size).disk.disk.sector (lba28 (rootLba s k)) a =
      fillEntry b i name first size a) ∧
    (b = s.sectorBuffer ∨ ∀ a < 512, b a = s.disk.disk.sector (lba28 (rootLba s k)) a) := by
  refine ⟨(s.readToBuffer (rootLba s k)).sectorBuffer, fun a ha ↦ ?_, ?_⟩
  · have hwrite := writeSector_same s.disk.disk (rootLba s k)
      (fillEntry (s.readToBuffer (rootLba s k)).sectorBuffer i name first size) 0 ha
    rw [Nat.zero_add] at hwrite
    exact hwrite
  · cases hfail : failsAt s 0 with
    | true =>
      have hheld : heldAfter s (fun _ ↦ rootLba s k) 1 = s.sectorBuffer :=
        heldAfter_succ_fails hfail
      exact Or.inl hheld
    | false =>
      have hheld (a : Nat) (ha : a < 512) : heldAfter s (fun _ ↦ rootLba s k) 1 a =
          s.disk.disk.sector (lba28 (rootLba s k)) a := heldAfter_succ_good hfail ha
      exact Or.inr hheld

end Store

-- A call that succeeds has not opened the file.
theorem fat12Open_of_created {s : FsState FaultyDisk} {filename : CString} {size : u32} {page : Bool}
    (hret : (fat12Create s filename size page).2 = 0) : (fat12Open s filename page).2 = none := by
  cases hopened : (fat12Open s filename page).2 with
  | none => rfl
  | some file =>
    rw [fat12Create, hopened] at hret
    have hused : (-1 : Int) = 0 := hret
    exact absurd hused (by decide)

/-- Clusters enough are free, as far as the allocation loop asks for them. -/
def HasCluster (fat : Bytes) (size : u32) : Prop :=
  (size + 511#32) / 512#32 = 0 ∨ findFreeCluster fat ≠ 0

-- Whether the call succeeds, once it has found a slot, and how it ends then.
theorem fat12Create_eq_zero_iff {s t : FsState FaultyDisk} {filename : CString} {page : Bool}
    (hopen : (fat12Open s filename page).2 = none) {k i : Nat}
    (hfind : findFreeDirEntry (fat12Open s filename page).1 = (t, some (k, i))) (size : u32) :
    (fat12Create s filename size page).2 = 0 ↔ HasCluster t.fatBuffer size := by
  rw [fat12Create_of_found hopen hfind]
  rcases allocateClusters_spec ((size + 511#32) / 512#32) t.fatBuffer with
    ⟨hzero, halloc⟩ | ⟨hneed, hfull, halloc⟩ | ⟨hneed, hfree, fat', halloc, -⟩
  · rw [halloc]
    exact iff_of_true rfl (Or.inl hzero)
  · have hfail : ¬ (-1 : Int) = 0 := by decide
    rw [halloc]
    refine iff_of_false hfail ?_
    rintro (h | h)
    · exact hneed h
    · exact h hfull
  · rw [halloc]
    exact iff_of_true rfl (Or.inr hfree)

-- A call that succeeds ends by storing the entry.
theorem fat12Create_store {s t : FsState FaultyDisk} {filename : CString} {page : Bool}
    (hopen : (fat12Open s filename page).2 = none) {k i : Nat}
    (hfind : findFreeDirEntry (fat12Open s filename page).1 = (t, some (k, i))) {size : u32}
    (hret : (fat12Create s filename size page).2 = 0) :
    ∃ first, (fat12Create s filename size page).1 =
      storeEntry (syncFat { t with fatBuffer := (fat12Create s filename size page).1.fatBuffer }) k i
        (toDosFilename filename fun _ ↦ 0) first size := by
  rw [fat12Create_of_found hopen hfind] at hret ⊢
  generalize allocateClusters ((size + 511#32) / 512#32) ((size + 511#32) / 512#32).toNat 0
    t.fatBuffer 0 0 = r at hret ⊢
  obtain ⟨fat, _ | first⟩ := r
  · have hfail : (-1 : Int) = 0 := hret
    exact absurd hfail (by decide)
  · refine ⟨first, ?_⟩
    have hfat : (storeEntry (syncFat { t with fatBuffer := fat }) k i
        (toDosFilename filename fun _ ↦ 0) first size).fatBuffer = fat :=
      (syncFat_faulty { t with fatBuffer := fat }).2.1
    dsimp only
    rw [hfat]

/-! ## What the call writes back -/

/-- Not in use on the drive. -/
def DirectoryEntry.isFree (e : DirectoryEntry) : Prop := e.isEnd ∨ e.isDeleted

/-- Whatever is on the drive and in the sector buffer, the slot that the call takes was free on the
drive, and but for the slot the sector written back is the one on the drive, as it was before the FAT
was written back or after. -/
def StoresRead (s : FsState FaultyDisk) (filename : CString) (size : u32) : Prop :=
  ∀ sector stale page,
    let s := withContents s sector stale
    let found := findFreeDirEntry (fat12Open s filename page).1
    let t := (fat12Create s filename size page).1
    let synced := syncFat { found.1 with fatBuffer := t.fatBuffer }
    ∀ k i, found.2 = some (k, i) → (fat12Create s filename size page).2 = 0 →
      (entryAt (sector (lba28 (rootLba s k))) i).isFree ∧
        ((∀ a < 512, a < 32 * i ∨ 32 * i + 32 ≤ a →
            t.disk.disk.sector (lba28 (rootLba s k)) a = sector (lba28 (rootLba s k)) a) ∨
          ∀ a < 512, a < 32 * i ∨ 32 * i + 32 ≤ a →
            t.disk.disk.sector (lba28 (rootLba s k)) a =
              synced.disk.disk.sector (lba28 (rootLba s k)) a)

/-- The patterns of failures that do no harm: not both of the first two reads fail, and behind the
second read none of the scan's fails right after one that did not. -/
def SafePattern (s : FsState FaultyDisk) : Prop :=
  (failsAt s 0 = true → failsAt s 1 = false) ∧
    ∀ m, 1 ≤ m → m < rootCount s → failsAt s m = false → failsAt s (m + 1) = false

theorem freeBody_eq_some {b : Bytes} {k i : Nat} {v : Nat × Nat} (h : freeBody b k i = some v) :
    v = (k, i) ∧ (entryAt b i).isEnd := by
  have hend : (entryAt b i).isEnd := by
    by_contra hnot
    rw [(freeBody_eq_none_iff b k i).mpr hnot] at h
    cases h
  unfold freeBody at h
  rw [if_pos (Or.inl ((charToInt_entry_eq_zero_iff b i).mpr hend))] at h
  cases h
  exact ⟨rfl, hend⟩

-- The state that `fat12_open` leaves, and what it says about the last buffer.
theorem fat12Open_state (s : FsState FaultyDisk) (filename : CString) (page : Bool) :
    (fat12Open s filename page).1 =
      (scanRoot (openBody (toDosFilename filename fun _ ↦ 0)) s).1 := by
  unfold fat12Open
  rcases scanRoot (openBody (toDosFilename filename fun _ ↦ 0)) s with ⟨t, _ | _ | e⟩ <;> rfl

-- The state after the first scan, and why its buffer is not taken for sector 0 without being it.
theorem opened_buffer {s : FsState FaultyDisk} (hsafe : SafePattern s) (filename : CString) : ∃ n,
    (scanRoot (openBody (toDosFilename filename fun _ ↦ 0)) s).1 = afterReads s (rootLba s) n ∧
      (failsAt s n = true → (∃ i < 16, (entryAt (heldAfter s (rootLba s) n) i).isEnd) →
        0 < rootCount s →
        ∀ a < 512, heldAfter s (rootLba s) n a = s.disk.disk.sector (lba28 (rootLba s 0)) a) := by
  rcases scanRoot_cases (s := s) (openBody_sector (toDosFilename filename fun _ ↦ 0)) with
    ⟨m, hm, v, hrun, -, hzero⟩ | ⟨hrun, hnone⟩
  · refine ⟨m + 1, by rw [hrun], fun hfail _ _ a ha ↦ ?_⟩
    cases hgood : failsAt s m with
    | true =>
      have hm0 := hzero hgood
      subst hm0
      rw [hsafe.1 hgood] at hfail
      cases hfail
    | false =>
      by_cases hm0 : m = 0
      · subst hm0
        exact heldAfter_succ_good hgood ha
      · rw [hsafe.2 m (by omega) hm hgood] at hfail
        cases hfail
  · refine ⟨rootCount s, by rw [hrun], fun _ hend hpos a ha ↦ ?_⟩
    obtain ⟨i, hi, hend⟩ := hend
    have hlast := hnone (rootCount s - 1) (by omega)
    rw [scanAt, Nat.sub_add_cancel hpos] at hlast
    have hmiss := (firstFrom_eq_none_iff _ _ _).mp hlast i (Nat.zero_le i) (by omega)
    rw [openBody_end hend] at hmiss
    cases hmiss

/-- With a safe pattern the buffer in which a free slot is found holds the sector of that slot. -/
theorem found_buffer {s : FsState FaultyDisk} (hsafe : SafePattern s) {filename : CString}
    {page : Bool} {k i : Nat}
    (hfound : (findFreeDirEntry (fat12Open s filename page).1).2 = some (k, i)) :
    let t := (findFreeDirEntry (fat12Open s filename page).1).1
    t.mountInfo = s.mountInfo ∧ t.fatBuffer = s.fatBuffer ∧ i < 16 ∧
      (entryAt t.sectorBuffer i).isEnd ∧
      ∀ a < 512, t.sectorBuffer a = s.disk.disk.sector (lba28 (rootLba s k)) a := by
  rw [fat12Open_state] at hfound ⊢
  obtain ⟨n, hopen, hheld⟩ := opened_buffer hsafe filename
  rw [hopen] at hfound ⊢
  rcases scanRoot_cases (s := afterReads s (rootLba s) n) freeBody_sector with
    ⟨m, hm, v, hrun, hv, hzero⟩ | ⟨hrun, -⟩
  case inr =>
    rw [findFreeDirEntry, hrun] at hfound
    cases hfound
  rw [findFreeDirEntry, hrun] at hfound ⊢
  obtain ⟨i', -, hi', hbody, -⟩ := (firstFrom_eq_some_iff _ _ _ _).mp hv
  obtain ⟨hslot, hend⟩ := freeBody_eq_some hbody
  cases hfound
  cases hslot
  refine ⟨rfl, rfl, by omega, hend, fun a ha ↦ ?_⟩
  have hfails : failsAt (afterReads s (rootLba s) n) k = failsAt s (n + k) := by
    change s.disk.fails (s.disk.reads + n + k) = s.disk.fails (s.disk.reads + (n + k))
    rw [Nat.add_assoc]
  cases hgood : failsAt (afterReads s (rootLba s) n) k with
  | false => exact heldAfter_succ_good hgood ha
  | true =>
    have hk0 := hzero hgood
    subst hk0
    have hheld₁ : heldAfter (afterReads s (rootLba s) n) (rootLba (afterReads s (rootLba s) n)) 1 =
        heldAfter s (rootLba s) n := heldAfter_succ_fails hgood
    rw [hheld₁] at hend
    rw [hfails] at hgood
    exact (congrFun hheld₁ a).trans (hheld hgood ⟨i, by omega, hend⟩ hm a ha)

-- The slot was found in its own sector, and the buffer still holds it if the last read fails.
theorem storesRead_of_safe {s : FsState FaultyDisk} (hsafe : SafePattern s) (filename : CString)
    (size : u32) : StoresRead s filename size := by
  intro sector stale page s' found t synced k i hfound hret
  have hsafe' : SafePattern s' := hsafe
  obtain ⟨hmount, -, hi, hend, hheld⟩ := found_buffer hsafe' hfound
  have hopen := fat12Open_of_created hret
  have hfind : findFreeDirEntry (fat12Open s' filename page).1 = (found.1, some (k, i)) :=
    Prod.ext rfl hfound
  have hentry : (entryAt (sector (lba28 (rootLba s' k))) i).isEnd := by
    have hsame : entryAt found.1.sectorBuffer i = entryAt (sector (lba28 (rootLba s' k))) i :=
      entryAt_congr fun a _ _ ↦ hheld a (by omega)
    rw [← hsame]
    exact hend
  refine ⟨Or.inl hentry, ?_⟩
  obtain ⟨first, hstore⟩ := fat12Create_store hopen hfind hret
  obtain ⟨hmount', -, hbuffer⟩ := syncFat_faulty { found.1 with fatBuffer := t.fatBuffer }
  obtain ⟨b, hwritten, hb⟩ := storeEntry_faulty synced k i (toDosFilename filename fun _ ↦ 0) first
    size
  have hlba : rootLba synced k = rootLba s' k := by
    rw [rootLba, rootLba]
    exact congrArg (fun m : FAT12MountInfo ↦ m.rootStart + BitVec.ofNat 32 k) (hmount'.trans hmount)
  rw [hlba] at hwritten hb
  have hsector (a : Nat) (ha : a < 512) (hout : a < 32 * i ∨ 32 * i + 32 ≤ a) :
      t.disk.disk.sector (lba28 (rootLba s' k)) a = b a := by
    have hlast := hwritten a ha
    rw [fillEntry_outside _ _ _ _ hout] at hlast
    rw [← hlast]
    exact congrArg (fun u : FsState FaultyDisk ↦ u.disk.disk.sector (lba28 (rootLba s' k)) a) hstore
  rcases hb with hb | hb
  · -- the last read failed, and the buffer is the one in which the slot was found
    refine Or.inl fun a ha hout ↦ ?_
    rw [hsector a ha hout, hb, hbuffer]
    exact hheld a ha
  · exact Or.inr fun a ha hout ↦ (hsector a ha hout).trans (hb a ha)

/-! ## Why the pattern has to be safe -/

-- A free slot that the first scan left in the buffer is taken for slot 0 of the directory.
theorem not_storesRead {s : FsState FaultyDisk} {filename : CString} {size : u32} {n : Nat}
    (sector : Nat → Bytes) (stale : Bytes) (hpos : 0 < rootCount s)
    (hcluster : HasCluster s.fatBuffer size)
    (hrun : scanRoot (openBody (toDosFilename filename fun _ ↦ 0)) (withContents s sector stale) =
      (afterReads (withContents s sector stale) (rootLba s) n, some none))
    (hend : heldAfter (withContents s sector stale) (rootLba s) n 0 = 0)
    (hfail : failsAt s n = true)
    (hused : sector (lba28 (rootLba s 0)) 0 ≠ 0 ∧ sector (lba28 (rootLba s 0)) 0 ≠ 0xE5#8) :
    ¬ StoresRead s filename size := by
  intro h
  generalize hs' : withContents s sector stale = s' at hrun hend
  have hopen : (fat12Open s' filename true).2 = none := by
    cases hopened : (fat12Open s' filename true).2 with
    | none => rfl
    | some file =>
      obtain ⟨-, e, hscan, -⟩ := (fat12Open_handle _ _ _ _).mp hopened
      rw [hrun] at hscan
      cases hscan
  have hstate : (fat12Open s' filename true).1 = afterReads s' (rootLba s) n := by
    rw [fat12Open_state, hrun]
  have hscan : scanAt freeBody (afterReads s' (rootLba s) n) 0 = some (0, 0) := by
    have hfail' : failsAt (afterReads s' (rootLba s) n) 0 = true := by
      rw [← hs']
      exact hfail
    have hheld : heldAfter (afterReads s' (rootLba s) n) (rootLba (afterReads s' (rootLba s) n)) 1 =
      heldAfter s' (rootLba s) n := heldAfter_succ_fails hfail'
    have hbody : freeBody (heldAfter s' (rootLba s) n) 0 0 = some (0, 0) :=
      if_pos (Or.inl ((charToInt_eq_zero_iff _).mpr hend))
    rw [scanAt, hheld, firstFrom, hbody]
  have hpos' : 0 < rootCount (afterReads s' (rootLba s) n) := by
    rw [← hs']
    exact hpos
  have hfind := scanRoot_hit hpos' (fun j hj ↦ absurd hj (Nat.not_lt_zero j)) hscan
  rw [← hstate] at hfind
  have hcluster' : HasCluster s'.fatBuffer size := by
    rw [← hs']
    exact hcluster
  have hret := (fat12Create_eq_zero_iff (k := 0) (i := 0) hopen hfind size).mpr
    (by rw [hstate]; exact hcluster')
  have hstores := h sector stale true 0 0
  rw [hs'] at hstores
  have hfree := (hstores (congrArg Prod.snd hfind) hret).1
  have hlba : rootLba s' 0 = rootLba s 0 := by
    rw [← hs']
    rfl
  rw [hlba] at hfree
  exact hfree.elim hused.1 hused.2

/-- A byte that neither marks a slot as free nor starts the name. -/
theorem exists_usedByte (name : DosName) : ∃ v : u8, v ≠ 0 ∧ v ≠ 0xE5#8 ∧ v ≠ name 0 := by
  by_cases hone : name 0 = 1
  · exact ⟨2, by decide, by decide, by rw [hone]; decide⟩
  · exact ⟨1, by decide, by decide, fun h ↦ hone h.symm⟩

theorem openBody_used {filename : CString} {b : Bytes} {k i : Nat} (hzero : b (32 * i) ≠ 0)
    (hname : b (32 * i) ≠ dosName filename 0) :
    openBody (toDosFilename filename fun _ ↦ 0) b k i = none := by
  unfold openBody
  rw [if_neg (mt (charToInt_eq_zero_iff _).mp hzero), if_neg (charToInt_ne_E5 _), if_neg]
  intro heq
  exact hname (congrFun ((memcmp_entry_eq_zero_iff b i filename).mp heq) 0)

-- Both reads fail: an end mark left in the buffer is taken for the first slot.
theorem secondRead_of_storesRead {s : FsState FaultyDisk} {filename : CString} {size : u32}
    (hpos : 0 < rootCount s) (hcluster : HasCluster s.fatBuffer size)
    (h : StoresRead s filename size) (hfst : failsAt s 0 = true) : failsAt s 1 = false := by
  obtain ⟨v, hv0, hvE5, -⟩ := exists_usedByte (dosName filename)
  by_contra hsnd
  rw [Bool.not_eq_false] at hsnd
  -- end marks in the sector buffer, and a directory without any
  have hheld : heldAfter (withContents s (fun _ _ ↦ v) fun _ ↦ 0) (rootLba s) 1 = fun _ ↦ 0 :=
    heldAfter_succ_fails hfst
  have hscan : scanAt (openBody (toDosFilename filename fun _ ↦ 0))
      (withContents s (fun _ _ ↦ v) fun _ ↦ 0) 0 = some none := by
    have hend : (entryAt (fun _ ↦ 0) 0).isEnd := rfl
    have hheld' : heldAfter (withContents s (fun _ _ ↦ v) fun _ ↦ 0)
        (rootLba (withContents s (fun _ _ ↦ v) fun _ ↦ 0)) 1 = fun _ ↦ 0 := hheld
    rw [scanAt, hheld', firstFrom, openBody_end hend]
  have hpos' : 0 < rootCount (withContents s (fun _ _ ↦ v) fun _ ↦ 0) := hpos
  have hrun := scanRoot_hit hpos' (fun j hj ↦ absurd hj (Nat.not_lt_zero j)) hscan
  exact not_storesRead (fun _ _ ↦ v) (fun _ ↦ 0) hpos hcluster hrun (by rw [hheld]) hsnd
    ⟨hv0, hvE5⟩ h

-- The first scan ends in sector `m`, and the second takes that sector for sector 0.
theorem laterRead_of_storesRead {bpb : BPB} {s : FsState FaultyDisk} (hm : Mounted bpb s)
    {filename : CString} {size : u32} (hpos : 0 < rootCount s)
    (hcluster : HasCluster s.fatBuffer size) (h : StoresRead s filename size) {m : Nat}
    (hm1 : 1 ≤ m) (hmR : m < rootCount s) (hgood : failsAt s m = false) :
    failsAt s (m + 1) = false := by
  obtain ⟨v, hv0, hvE5, hvname⟩ := exists_usedByte (dosName filename)
  by_contra hnext
  rw [Bool.not_eq_false] at hnext
  -- end marks in sector `m` only
  let sector : Nat → Bytes := fun l _ ↦ if l = lba28 (rootLba s m) then 0 else v
  have hused {j : Nat} (hj : j < m) (a : Nat) : sector (lba28 (rootLba s j)) a = v := by
    have hlbaj := hm.rootLba_eq (k := j) (Nat.lt_trans hj hmR)
    have hlbam := hm.rootLba_eq (k := m) hmR
    refine if_neg ?_
    rw [rootLba, rootLba]
    omega
  generalize hs' : withContents s sector (fun _ ↦ v) = s'
  have hheld {j : Nat} (hj : j ≤ m) {a : Nat} (ha : a < 512) :
      heldAfter s' (rootLba s') j a = v := by
    rcases heldAfter_cases s' (rootLba s') j with hstale | ⟨i, hi⟩
    · rw [hstale, ← hs']
      rfl
    · rw [heldAfter_lastGood hi ha, ← hs']
      exact hused (Nat.lt_of_lt_of_le hi.lt hj) a
  have hgood' : failsAt s' m = false := by
    rw [← hs']
    exact hgood
  have hlast : heldAfter s' (rootLba s') (m + 1) 0 = 0 := by
    rw [heldAfter_succ_good hgood' (by omega), ← hs']
    exact if_pos rfl
  have hmiss (j : Nat) (hj : j < m) :
      scanAt (openBody (toDosFilename filename fun _ ↦ 0)) s' j = none := by
    rw [scanAt, firstFrom_eq_none_iff]
    intro i _ hi
    have hbyte : heldAfter s' (rootLba s') (j + 1) (32 * i) = v := hheld hj (by omega)
    exact openBody_used (by rw [hbyte]; exact hv0) (by rw [hbyte]; exact hvname)
  have hscan : scanAt (openBody (toDosFilename filename fun _ ↦ 0)) s' m = some none := by
    have hend : (entryAt (heldAfter s' (rootLba s') (m + 1)) 0).isEnd := hlast
    rw [scanAt, firstFrom, openBody_end hend]
  have hmR' : m < rootCount s' := by
    rw [← hs']
    exact hmR
  have hrun := scanRoot_hit hmR' hmiss hscan
  rw [← hs'] at hrun hlast
  refine not_storesRead sector (fun _ ↦ v) hpos hcluster hrun hlast hnext ?_ h
  have hfst := hused (j := 0) (by omega) 0
  rw [hfst]
  exact ⟨hv0, hvE5⟩

theorem safe_of_storesRead {bpb : BPB} {s : FsState FaultyDisk} (hm : Mounted bpb s)
    {filename : CString} {size : u32} (hpos : 0 < rootCount s)
    (hcluster : HasCluster s.fatBuffer size) (h : StoresRead s filename size) : SafePattern s :=
  ⟨secondRead_of_storesRead hpos hcluster h,
    fun _ hm1 hmR hgood ↦ laterRead_of_storesRead hm hpos hcluster h hm1 hmR hgood⟩

theorem storesRead_iff {bpb : BPB} {s : FsState FaultyDisk} (hm : Mounted bpb s)
    (filename : CString) (size : u32) : StoresRead s filename size ↔
      rootCount s = 0 ∨ ¬ HasCluster s.fatBuffer size ∨ SafePattern s := by
  constructor
  · intro h
    by_cases hcount : rootCount s = 0
    · exact Or.inl hcount
    · by_cases hcluster : HasCluster s.fatBuffer size
      · exact Or.inr (Or.inr (safe_of_storesRead hm (Nat.pos_of_ne_zero hcount) hcluster h))
      · exact Or.inr (Or.inl hcluster)
  · rintro (hcount | hnone | hsafe)
    · -- nothing is found in a directory without sectors
      intro sector stale page s' found t synced k i hfound
      have hcount' : rootCount (fat12Open s' filename page).1 = 0 := by
        rw [fat12Open_state, rootCount, (scanRoot_frame _ s').1]
        exact hcount
      have hempty : found.2 = none := by
        change (scanRoot freeBody (fat12Open s' filename page).1).2 = none
        rw [scanRoot_faulty, hcount']
        rfl
      rw [hempty] at hfound
      cases hfound
    · -- the call is refused
      intro sector stale page s' found t synced k i hfound hret
      have hfind : findFreeDirEntry (fat12Open s' filename page).1 = (found.1, some (k, i)) :=
        Prod.ext rfl hfound
      have hcluster := (fat12Create_eq_zero_iff (fat12Open_of_created hret) hfind size).mp hret
      have hfat : found.1.fatBuffer = s.fatBuffer := by
        change (scanRoot freeBody (fat12Open s' filename page).1).1.fatBuffer = _
        rw [(scanRoot_frame _ _).2, fat12Open_state, (scanRoot_frame _ s').2]
        rfl
      rw [hfat] at hcluster
      exact absurd hcluster hnone
    · exact storesRead_of_safe hsafe filename size

/-! ## All three calls -/

/-- When a failing read is never taken for data, whatever the drive and the sector buffer hold. -/
theorem failuresCaught_iff {bpb : BPB} {s : FsState FaultyDisk} (hm : Mounted bpb s) :
    (∀ file size, ReadsOwn s file size ↔ ∀ j, TurnMade s file size j → ∃ i, LastGood s i (j + 1) ∧
      lba28 (fileLba s file.currentCluster i) = lba28 (fileLba s file.currentCluster j)) ∧
    (∀ filename, OpensRead s filename ↔ rootCount s = 0 ∨ failsAt s 0 = false) ∧
    ∀ filename size, StoresRead s filename size ↔
      rootCount s = 0 ∨ ¬ HasCluster s.fatBuffer size ∨ SafePattern s :=
  ⟨readsOwn_iff s, opensRead_iff s, storesRead_iff hm⟩

/-! The blank volume on a drive that fails, with ones in the sector buffer. -/

def failedVolume : FsState FaultyDisk where
  disk := { disk := blankVolume.disk, fails := fun _ ↦ true, reads := 0 }
  mountInfo := blankVolume.mountInfo
  fatBuffer := blankVolume.fatBuffer
  sectorBuffer _ := 1

theorem mounted_failedVolume : Mounted (BPB.ofSector bootSector) failedVolume :=
  ⟨mounted_blankVolume.bytesPerSector, rfl⟩

theorem failuresCaught_failedVolume :
    (∀ file size, ReadsOwn failedVolume file size ↔ ∀ j, TurnMade failedVolume file size j →
      ∃ i, LastGood failedVolume i (j + 1) ∧
        lba28 (fileLba failedVolume file.currentCluster i) =
          lba28 (fileLba failedVolume file.currentCluster j)) ∧
    (∀ filename, OpensRead failedVolume filename ↔
      rootCount failedVolume = 0 ∨ failsAt failedVolume 0 = false) ∧
    ∀ filename size, StoresRead failedVolume filename size ↔ rootCount failedVolume = 0 ∨
      ¬ HasCluster failedVolume.fatBuffer size ∨ SafePattern failedVolume :=
  failuresCaught_iff mounted_failedVolume

def failedFile : FAT12File :=
  newHandle bigFile (newEntry (dosName bigFile) 2 100)

/-- The call counts 100 bytes and hands out the ones. -/
theorem not_readsOwn_failedVolume : Mounted (BPB.ofSector bootSector) failedVolume ∧
    (fat12Read failedVolume (some failedFile) (fun _ ↦ 0) 100).ret = 100 ∧
    (fat12Read failedVolume (some failedFile) (fun _ ↦ 0) 100).buffer 0 = 1 ∧
    ¬ ReadsOwn failedVolume failedFile 100 := by
  have hret : (fat12Read failedVolume (some failedFile) (fun _ ↦ 0) 100).ret = 100 := by
    decide +kernel
  have hone : (fat12Read failedVolume (some failedFile) (fun _ ↦ 0) 100).buffer 0 = 1 := by
    decide +kernel
  refine ⟨mounted_failedVolume, hret, hone, fun h ↦ ?_⟩
  have hown := h blankVolume.disk.sector (fun _ ↦ 1) (fun _ ↦ 0) 0 (by
    change 0 < (BitVec.ofInt 32
      (fat12Read failedVolume (some failedFile) (fun _ ↦ 0) 100).ret).toNat
    rw [hret]
    decide)
  have hblank : blankVolume.disk.sector
      (lba28 (fileLba failedVolume failedFile.currentCluster 0)) 0 = 0 := by decide +kernel
  exact absurd (hone.symm.trans (hown.trans hblank)) (by decide)

end TenOs.Fs
