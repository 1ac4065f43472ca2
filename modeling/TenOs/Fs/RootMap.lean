import TenOs.Base.Run
import TenOs.Fs.Create

/-!
# The root directory as a map

Names to entries: `fat12_open` looks a name up, and a successful `fat12_create` adds one.  That holds
as long as nothing but end marks follows the first end mark.
-/

namespace TenOs.Fs

open TenOs.Base TenOs.Lib TenOs.Drivers

/-- From the first end mark on there are only end marks. -/
def ZeroTail (s : FsState Disk) : Prop :=
  ∀ m n, m ≤ n → n < slotCount s → (rootSlot s m).isEnd → (rootSlot s n).isEnd

theorem ZeroTail.of_sameRoot {s t : FsState Disk} (h : ZeroTail s) (hroot : SameRoot s t) :
    ZeroTail t := by
  intro m n hmn hn hend
  rw [hroot.slotCount] at hn
  rw [hroot.rootSlot (by omega)] at hend
  rw [hroot.rootSlot hn]
  exact h m n hmn hn hend

def rootMap (s : FsState Disk) (name : DosName) : Option DirectoryEntry :=
  (lookup s name).map (rootSlot s)

theorem fat12Open_rootMap (s : FsState Disk) (filename : CString) :
    (fat12Open s filename true).2 = (rootMap s (dosName filename)).map (newHandle filename) := by
  rw [(fat12Open_spec s filename true).2, if_pos rfl, rootMap, Option.map_map]
  rfl

theorem lookup_eq_none_iff (s : FsState Disk) (name : DosName) :
    lookup s name = none ↔ ∀ n, LiveSlot s n → (rootSlot s n).name ≠ name := by
  constructor
  · intro hnone n hn
    -- strong induction: a first slot with the name would be found
    induction n using Nat.strong_induction_on with
    | _ n ih =>
      intro hname
      have hfirst (m : Nat) (hm : m < n) : (rootSlot s m).name ≠ name :=
        ih m hm ⟨by have := hn.1; omega, fun k hk ↦ hn.2 k (by omega)⟩
      rw [(lookup_eq_some_iff s name n).mpr ⟨hn, hname, hfirst⟩] at hnone
      cases hnone
  · intro hall
    cases h : lookup s name with
    | none => rfl
    | some n =>
      have hn := (lookup_eq_some_iff s name n).mp h
      exact absurd hn.2.1 (hall n hn.1)

/-! ## A new file in the directory -/

section Created

variable {bpb : BPB} {s t : FsState Disk} {filename : CString} {size : u32} {n : Nat} {first : u16}

-- The FAT copies lie before the directory, so writing them back does not reach it.
theorem Created.rootSector_other (h : Created s filename size n first t) (hm : Mounted bpb s)
    (hfats : bpb.numFats = 2) {k a : Nat} (hk : k < s.mountInfo.rootSize.toNat) (ha : a < 512)
    (hn : n < slotCount s)
    (hout : ¬(k = n / 16 ∧ 32 * (n % 16) ≤ a ∧ a < 32 * (n % 16) + 32)) :
    rootSector t k a = rootSector s k a := by
  rw [slotCount] at hn
  have hsync := syncFat_spec (s := { s with fatBuffer := t.fatBuffer })
    ⟨hm.bytesPerSector, hm.mountInfo⟩
  have hroot := hm.rootStart_eq hfats
  have hlba := hm.rootLba_eq hk
  have hkeep : rootSector (syncFat { s with fatBuffer := t.fatBuffer }) k = rootSector s k := by
    have hbehind : s.mountInfo.fatStart.toNat + 2 * s.mountInfo.sectorsPerFat.toNat ≤
        lba28 (s.mountInfo.rootStart + BitVec.ofNat 32 k) := by omega
    rw [rootSector, hsync.mountInfo]
    exact hsync.outside _ (Or.inr hbehind)
  by_cases hsec : k = n / 16
  · -- the sector that was rewritten, away from the slot
    subst hsec
    rw [h.root a ha, fillEntry_outside _ _ _ _ (by omega), hkeep]
  · have hn₁ := hm.rootLba_eq (k := n / 16) (by omega)
    rw [← hkeep, rootSector, rootSector, h.mountInfo, hsync.mountInfo, h.other _ (by omega)]

theorem Created.slotCount (h : Created s filename size n first t) :
    slotCount t = slotCount s := by
  rw [Fs.slotCount, Fs.slotCount, h.mountInfo]

theorem Created.rootSlot_other (h : Created s filename size n first t) (hm : Mounted bpb s)
    (hfats : bpb.numFats = 2) {m : Nat} (hlt : m < Fs.slotCount s) (hn : n < Fs.slotCount s)
    (hne : m ≠ n) : rootSlot t m = rootSlot s m := by
  rw [rootSlot, rootSlot]
  refine entryAt_congr fun a _ _ ↦ ?_
  have hk : m / 16 < s.mountInfo.rootSize.toNat := by
    rw [Fs.slotCount] at hlt
    omega
  exact h.rootSector_other hm hfats hk (by omega) hn (by omega)

theorem Created.kept (h : Created s filename size n first t) (hm : Mounted bpb s)
    (hfats : bpb.numFats = 2) (hn : firstFreeSlot s = some n) {m : Nat} (hlive : LiveSlot s m) :
    m < n ∧ rootSlot t m = rootSlot s m := by
  have hmn := (liveSlot_iff_lt hn m).mp hlive
  have hlt := ((firstFreeSlot_eq_some_iff s n).mp hn).1
  exact ⟨hmn, h.rootSlot_other hm hfats hlive.1 hlt (by omega)⟩

-- The slots before `n` were live before; behind it there are only end marks.
theorem Created.liveSlot_iff (h : Created s filename size n first t) (hm : Mounted bpb s)
    (hfats : bpb.numFats = 2) (htail : ZeroTail s) (hn : firstFreeSlot s = some n) (m : Nat) :
    LiveSlot t m ↔ LiveSlot s m ∨ m = n := by
  obtain ⟨hlt, hend, -⟩ := (firstFreeSlot_eq_some_iff s n).mp hn
  rw [liveSlot_iff_lt hn]
  constructor
  · intro hlive
    have hm₁ := hlive.1
    rw [h.slotCount] at hm₁
    by_cases hmn : m ≤ n
    · exact Nat.lt_or_eq_of_le hmn
    · -- behind slot `n` there was an end mark, and there still is
      have hmend := htail n m (by omega) hm₁ hend
      rw [← h.rootSlot_other hm hfats hm₁ hlt (by omega)] at hmend
      exact absurd hmend (hlive.2 m (Nat.le_refl m))
  · intro hmn
    refine ⟨by rw [h.slotCount]; omega, fun k hk ↦ ?_⟩
    by_cases hkn : k = n
    · rw [hkn, h.rootSlot_new]
      exact dosName_zero_ne filename
    · have hlive := (liveSlot_iff_lt hn k).mpr (by omega)
      rw [(h.kept hm hfats hn hlive).2]
      exact hlive.2 k (Nat.le_refl k)

-- The first end mark is one slot further on.
theorem Created.zeroTail (h : Created s filename size n first t) (hm : Mounted bpb s)
    (hfats : bpb.numFats = 2) (htail : ZeroTail s) (hn : firstFreeSlot s = some n) :
    ZeroTail t := by
  intro m k hmk hk hend
  rw [h.slotCount] at hk
  obtain ⟨hlt, hfree, -⟩ := (firstFreeSlot_eq_some_iff s n).mp hn
  have hmn : n < m := by
    by_contra hle
    exact ((h.liveSlot_iff hm hfats htail hn n).mpr (Or.inr rfl)).2 m (by omega) hend
  rw [h.rootSlot_other hm hfats hk hlt (by omega)]
  exact htail n k (by omega) hk hfree

-- The new name is found in its slot, and no other name is found there.
theorem Created.lookup (h : Created s filename size n first t) (hm : Mounted bpb s)
    (hfats : bpb.numFats = 2) (htail : ZeroTail s) (hn : firstFreeSlot s = some n)
    (hnew : lookup s (dosName filename) = none) (name : DosName) :
    lookup t name = if name = dosName filename then some n else lookup s name := by
  have hlive := h.liveSlot_iff hm hfats htail hn
  have hold {m : Nat} (hmn : m < n) : LiveSlot s m ∧ rootSlot t m = rootSlot s m := by
    have hm' := (liveSlot_iff_lt hn m).mpr hmn
    exact ⟨hm', (h.kept hm hfats hn hm').2⟩
  have hname : (rootSlot t n).name = dosName filename := by
    rw [h.rootSlot_new]
    rfl
  by_cases heq : name = dosName filename
  · rw [if_pos heq, lookup_eq_some_iff]
    refine ⟨(hlive n).mpr (Or.inr rfl), hname.trans heq.symm, fun m hmn ↦ ?_⟩
    rw [(hold hmn).2, heq]
    exact (lookup_eq_none_iff s _).mp hnew m (hold hmn).1
  · rw [if_neg heq]
    ext m
    rw [lookup_eq_some_iff, lookup_eq_some_iff, hlive]
    constructor
    · rintro ⟨hm' | rfl, hmname, hfirst⟩
      · obtain ⟨hmn, hslot⟩ := h.kept hm hfats hn hm'
        rw [hslot] at hmname
        refine ⟨hm', hmname, fun k hk ↦ ?_⟩
        rw [← (hold (Nat.lt_trans hk hmn)).2]
        exact hfirst k hk
      · exact absurd (hmname.symm.trans hname) heq
    · rintro ⟨hm', hmname, hfirst⟩
      obtain ⟨hmn, hslot⟩ := h.kept hm hfats hn hm'
      refine ⟨Or.inl hm', ?_, fun k hk ↦ ?_⟩
      · rw [hslot, hmname]
      · rw [(hold (Nat.lt_trans hk hmn)).2]
        exact hfirst k hk

-- In terms of the map: one name is added.
theorem Created.rootMap (h : Created s filename size n first t) (hm : Mounted bpb s)
    (hfats : bpb.numFats = 2) (htail : ZeroTail s) (hn : firstFreeSlot s = some n)
    (hnew : Fs.lookup s (dosName filename) = none) :
    rootMap t = Function.update (rootMap s) (dosName filename)
      (some (newEntry (dosName filename) first size)) := by
  funext name
  rw [Fs.rootMap, h.lookup hm hfats htail hn hnew, Function.update_apply]
  by_cases heq : name = dosName filename
  · rw [if_pos heq, if_pos heq, Option.map_some, h.rootSlot_new]
  · rw [if_neg heq, if_neg heq, Fs.rootMap]
    cases hk : Fs.lookup s name with
    | none => rfl
    | some k =>
      have hlive := ((lookup_eq_some_iff s name k).mp hk).1
      rw [Option.map_some, Option.map_some, (h.kept hm hfats hn hlive).2]

end Created

/-- `t` is `s` with the new file in slot `n`: it is found under its name, every other name is looked
up as before, and nothing but the slot has changed. -/
structure Inserted (s t : FsState Disk) (filename : CString) (size : u32) (n : Nat) : Prop where
  slot : n < slotCount s
  changed : ∀ k < s.mountInfo.rootSize.toNat, ∀ a < 512,
    ¬(k = n / 16 ∧ 32 * (n % 16) ≤ a ∧ a < 32 * (n % 16) + 32) → rootSector t k a = rootSector s k a
  fileSize : (rootSlot t n).fileSize = size
  opened : ∀ m, dosName m = dosName filename →
    lookup t (dosName m) = some n ∧ (fat12Open t m true).2 = some (newHandle m (rootSlot t n))
  other : ∀ m, dosName m ≠ dosName filename →
    lookup t (dosName m) = lookup s (dosName m) ∧
      (fat12Open t m true).2 = (fat12Open s m true).2
  tail : ZeroTail t

-- What `Created` says of the slots, in terms of names.
theorem inserted_of_create {bpb : BPB} {s : FsState Disk} (hm : Mounted bpb s)
    (hfats : bpb.numFats = 2) (htail : ZeroTail s) {filename : CString} {size : u32}
    (hret : (fat12Create s filename size true).2 = 0) :
    ∃ n, Inserted s (fat12Create s filename size true).1 filename size n := by
  rcases fat12Create_cases s filename size true with ⟨-, href, -⟩ | ⟨hnot, -, n, first, hn, hcr⟩
  · rw [href] at hret
    exact absurd hret (by decide)
  generalize (fat12Create s filename size true).1 = t at hcr
  -- the call would have been refused for a name in use
  have hnew : lookup s (dosName filename) = none := by
    by_contra hused
    exact hnot (Or.inl ⟨rfl, hused⟩)
  have hlookup := hcr.lookup hm hfats htail hn hnew
  have hmap := hcr.rootMap hm hfats htail hn hnew
  have hslot : n < slotCount s := ((firstFreeSlot_eq_some_iff s n).mp hn).1
  refine ⟨n, hslot, fun k hk a ha hout ↦ hcr.rootSector_other hm hfats hk ha hslot hout, ?_,
    fun m hname ↦ ?_, fun m hname ↦ ?_, hcr.zeroTail hm hfats htail hn⟩
  · rw [hcr.rootSlot_new]
    rfl
  · refine ⟨by rw [hlookup, if_pos hname], ?_⟩
    rw [fat12Open_rootMap, hmap, hname, Function.update_self, hcr.rootSlot_new]
    rfl
  · refine ⟨by rw [hlookup, if_neg hname], ?_⟩
    rw [fat12Open_rootMap, fat12Open_rootMap, hmap, Function.update_of_ne hname]

theorem zeroTail_blankVolume : ZeroTail blankVolume := by
  have hall : ∀ n < 512, (rootSlot blankVolume n).isEnd := by decide +kernel
  intro m n _ hn _
  rw [slotCount_blankVolume] at hn
  exact hall n hn

theorem create_bigFile : (fat12Create blankVolume bigFile 100 true).2 = 0 := by
  have hfree : findFreeCluster blankVolume.fatBuffer ≠ 0 := by
    rw [findFreeCluster_blankVolume]
    decide
  exact (fat12Create_takes_one true (lookup_blankVolume _) firstFreeSlot_blankVolume (by decide)
    (by decide) hfree).1

theorem inserted_bigFile :
    ∃ n, Inserted blankVolume (fat12Create blankVolume bigFile 100 true).1 bigFile 100 n :=
  inserted_of_create mounted_blankVolume (by decide +kernel) zeroTail_blankVolume create_bigFile

end TenOs.Fs
