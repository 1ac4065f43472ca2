import Mathlib.Data.List.TakeWhile
import TenOs.Fs.Create

/-!
# Deleted entries

All three scans of the root directory compare the first byte of an entry with `0xE5`, the mark of a
deleted entry.  The byte is a signed `char`, so the comparison never holds, and a deleted entry is an
entry like any other.
-/

namespace TenOs.Fs

open TenOs.Base TenOs.Lib TenOs.Drivers

/-! ## Listing -/

/-- The entries before the end mark. -/
def liveEntries (s : FsState Disk) : List DirectoryEntry :=
  ((List.range (slotCount s)).map (rootSlot s)).takeWhile fun e ↦ ¬ e.isEnd

/-- Neither a volume label nor a directory. -/
def DirectoryEntry.isFile (e : DirectoryEntry) : Prop :=
  e.attributes &&& (ATTR_VOLUME_ID ||| ATTR_DIRECTORY) = 0

instance (e : DirectoryEntry) : Decidable e.isFile := inferInstanceAs (Decidable (_ = _))

def DirectoryEntry.row (e : DirectoryEntry) : List u8 × u32 := (renderName e, e.fileSize)

/-- What the listing does at an entry. -/
def listEntry (e : DirectoryEntry) (rows : List (List u8 × u32)) :
    List (List u8 × u32) × Option Unit :=
  if e.isEnd then (rows, some ())
  else if e.isFile then (rows ++ [e.row], none)
  else (rows, none)

-- The byte is signed, so the test for a deleted entry drops out.
theorem listBody_eq (buffer : Bytes) (i : Nat) (rows : List (List u8 × u32)) :
    listBody buffer i rows = listEntry (entryAt buffer i) rows := by
  unfold listBody listEntry
  simp only [charToInt_entry_eq_zero_iff, if_neg (charToInt_ne_E5 _)]
  by_cases hend : (entryAt buffer i).isEnd
  · rw [if_pos hend, if_pos hend]
  · rw [if_neg hend, if_neg hend]
    by_cases hfile : (entryAt buffer i).isFile
    · rw [if_pos hfile]
      exact if_neg (not_not.mpr hfile)
    · rw [if_neg hfile]
      exact if_pos hfile

-- The listing as one loop over the slots.
theorem fat12ListRoot_slots (s : FsState Disk) :
    (fat12ListRoot s).2 =
      (forReturn (fun n ↦ listEntry (rootSlot s n)) (slotCount s) 0 []).1 := by
  have hrows := forReturn_nested (fun n ↦ listEntry (rootSlot s n)) 16
    s.mountInfo.rootSize.toNat 0 []
  rw [Nat.mul_zero] at hrows
  unfold fat12ListRoot slotCount
  rw [← hrows]
  have hstart : SameVolume s (s, ([] : List (List u8 × u32))).1 := ⟨rfl, rfl, rfl⟩
  refine congrArg Prod.fst (forReturn_proj (I := fun st ↦ SameVolume s st.1) Prod.snd
    hstart fun k st _ _ hst ↦ ⟨⟨hst.disk, hst.mountInfo, hst.fatBuffer⟩, ?_⟩).2
  have hinner : forReturn (fun i rows ↦ listBody (st.1.readToBuffer
      (st.1.mountInfo.rootStart + BitVec.ofNat 32 k)).sectorBuffer i rows) 16 0 st.2 =
        forReturn (fun j ↦ listEntry (rootSlot s (16 * k + j))) 16 0 st.2 := by
    refine forReturn_congr (fun i rows _ hi ↦ ?_) st.2
    rw [listBody_eq, rootSlot_entry s (by omega) fun a ha ↦ hst.rootBuffer k ha]
  dsimp only
  rw [← hinner]

-- The rows of the entries before the first end mark, in their order.
theorem forReturn_listEntry (slot : Nat → DirectoryEntry) (n start : Nat)
    (rows : List (List u8 × u32)) :
    (forReturn (fun n ↦ listEntry (slot n)) n start rows).1 =
      rows ++ ((((List.range' start n).map slot).takeWhile fun e ↦ ¬ e.isEnd).filter
        fun e ↦ e.isFile).map DirectoryEntry.row := by
  -- an end mark ends the loop and the list alike
  induction n generalizing start rows with
  | zero => simp [forReturn]
  | succ n ih =>
    rw [forReturn, List.range'_succ, List.map_cons, listEntry]
    by_cases hend : (slot start).isEnd
    · rw [if_pos hend, List.takeWhile_cons_of_neg (by simpa using hend)]
      simp
    · rw [if_neg hend, List.takeWhile_cons_of_pos (by simpa using hend)]
      by_cases hfile : (slot start).isFile
      · rw [if_pos hfile, List.filter_cons_of_pos (by simpa using hfile)]
        simp only [ih, List.map_cons, List.append_assoc, List.singleton_append]
      · rw [if_neg hfile, List.filter_cons_of_neg (by simpa using hfile)]
        exact ih (start + 1) rows

/-- `fat12_list_root` prints one row for each file before the end mark. -/
theorem fat12ListRoot_rows (s : FsState Disk) :
    (fat12ListRoot s).2 =
      ((liveEntries s).filter fun e ↦ e.isFile).map DirectoryEntry.row := by
  rw [fat12ListRoot_slots, forReturn_listEntry, List.nil_append, liveEntries, List.range_eq_range']

/-! ## What a deleted entry is owed -/

/-- Deleted entries are not listed and not opened, and their slots are taken for new files. -/
structure DeletedSkipped (s : FsState Disk) : Prop where
  listed : (fat12ListRoot s).2 =
    ((liveEntries s).filter fun e ↦ ¬ e.isDeleted ∧ e.isFile).map DirectoryEntry.row
  opened : ∀ filename page file, (fat12Open s filename page).2 = some file →
    ∃ n, LiveSlot s n ∧ (rootSlot s n).name = dosName filename ∧ ¬ (rootSlot s n).isDeleted ∧
      file = newHandle filename (rootSlot s n)
  found : ∀ n, LiveSlot s n → (rootSlot s n).isDeleted →
    ∃ m ≤ n, (rootSlot s m).isDeleted ∧ (findFreeDirEntry s).2 = some (m / 16, m % 16)
  reused : ∀ n, LiveSlot s n → (rootSlot s n).isDeleted → ∀ filename size page,
    lookup s (dosName filename) = none →
      (size + 511#32) / 512#32 = 0 ∨ findFreeCluster s.fatBuffer ≠ 0 →
        (fat12Create s filename size page).2 = 0

theorem mem_liveEntries {s : FsState Disk} {e : DirectoryEntry} (h : e ∈ liveEntries s) :
    ∃ n, LiveSlot s n ∧ rootSlot s n = e := by
  obtain ⟨n, hn, rfl⟩ := List.mem_iff_getElem.mp h
  -- the live entries are a prefix of all slots, so number `n` is slot `n`
  have hpre : liveEntries s <+: (List.range (slotCount s)).map (rootSlot s) :=
    List.takeWhile_prefix _
  have hlen := hpre.length_le
  rw [List.length_map, List.length_range] at hlen
  have hget (m : Nat) (hm : m ≤ n) : (liveEntries s)[m] = rootSlot s m := by
    rw [hpre.getElem (by omega), List.getElem_map, List.getElem_range]
  refine ⟨n, ⟨by omega, fun m hm ↦ ?_⟩, (hget n (Nat.le_refl n)).symm⟩
  have hlive := List.mem_takeWhile_imp (List.getElem_mem (Nat.lt_of_le_of_lt hm hn))
  rw [hget m hm] at hlive
  exact of_decide_eq_true hlive

-- The search for a free slot stops at end marks only.
theorem findFreeDirEntry_ne_live {s : FsState Disk} {m n : Nat} (hn : LiveSlot s n) (hmn : m ≤ n) :
    (findFreeDirEntry s).2 ≠ some (m / 16, m % 16) := by
  intro hfound
  rw [(findFreeDirEntry_spec s).2, Option.map_eq_some_iff] at hfound
  obtain ⟨k, hk, hkm⟩ := hfound
  obtain ⟨-, hend, -⟩ := (firstFreeSlot_eq_some_iff s k).mp hk
  have hkm' : k = m := by
    rw [Prod.mk.injEq] at hkm
    omega
  rw [hkm'] at hend
  exact hn.2 m hmn hend

/-- Deleted entries are treated as such exactly when there are none to be treated. -/
theorem deletedSkipped_iff (s : FsState Disk) :
    DeletedSkipped s ↔ ∀ n, LiveSlot s n → ¬ (rootSlot s n).isDeleted := by
  constructor
  · intro h n hn hdel
    obtain ⟨m, hmn, -, hfound⟩ := h.found n hn hdel
    exact findFreeDirEntry_ne_live hn hmn hfound
  · intro hnone
    refine ⟨?_, fun filename page file hopen ↦ ?_, fun n hn hdel ↦ absurd hdel (hnone n hn),
      fun n hn hdel ↦ absurd hdel (hnone n hn)⟩
    · rw [fat12ListRoot_rows]
      congr 1
      refine List.filter_congr fun e he ↦ ?_
      obtain ⟨n, hn, rfl⟩ := mem_liveEntries he
      simp [hnone n hn]
    · rw [(fat12Open_spec s filename page).2] at hopen
      cases page with
      | false => cases hopen
      | true =>
        rw [if_pos rfl, Option.map_eq_some_iff] at hopen
        obtain ⟨n, hn, rfl⟩ := hopen
        obtain ⟨hlive, hname, -⟩ := (lookup_eq_some_iff s _ n).mp hn
        exact ⟨n, hlive, hname, hnone n hlive, rfl⟩

/-! A volume whose only file was deleted by another system. -/

def deletedVolume : FsState Disk where
  disk.sector := Function.update blankVolume.disk.sector 656
    (Function.update (fillEntry (fun _ ↦ 0) 0 (toDosFilename bigFile fun _ ↦ 0) 2 100) 0 0xE5)
  mountInfo := blankVolume.mountInfo
  fatBuffer _ := 0
  sectorBuffer _ := 0

theorem not_deletedSkipped_deletedVolume : Mounted (BPB.ofSector bootSector) deletedVolume ∧
    (rootSlot deletedVolume 0).isDeleted ∧ ¬ DeletedSkipped deletedVolume := by
  have hdel : (rootSlot deletedVolume 0).isDeleted := by decide +kernel
  refine ⟨⟨mounted_blankVolume.bytesPerSector, rfl⟩, hdel, fun h ↦ ?_⟩
  have hlive : LiveSlot deletedVolume 0 := by
    refine ⟨by decide +kernel, fun m hm hend ↦ ?_⟩
    obtain rfl : m = 0 := by omega
    rw [DirectoryEntry.isEnd, hdel] at hend
    exact absurd hend (by decide)
  -- the search passes slot 0 and stops at slot 1
  obtain ⟨m, hm, -, hfound⟩ := h.found 0 hlive hdel
  exact findFreeDirEntry_ne_live hlive hm hfound

end TenOs.Fs
