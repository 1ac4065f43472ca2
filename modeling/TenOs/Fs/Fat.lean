import TenOs.Base.Chain
import TenOs.Fs.Volume

/-!
# The cached FAT

`get_next_cluster`, `set_cluster_value`, `find_free_cluster` and `sync_fat`.  Two neighbouring
12-bit entries share a byte; the main facts are that an entry nevertheless behaves as a cell of its
own, and that the first free cluster is found.
-/

namespace TenOs.Fs

open TenOs.Base TenOs.Lib TenOs.Drivers

/-! ## Packed entries -/

/-- `cluster + cluster / 2`: where the two bytes that hold an entry start. -/
def fatOffset (cluster : u16) : Nat := cluster.toNat + cluster.toNat / 2

def getNextCluster (fat : Bytes) (cluster : u16) : u16 :=
  let nextCluster := read16 fat (fatOffset cluster)
  if cluster &&& 1#16 ≠ 0 then nextCluster >>> 4 else nextCluster &&& 0x0FFF#16

def setClusterValue (fat : Bytes) (cluster value : u16) : Bytes :=
  let fatEntry := read16 fat (fatOffset cluster)
  if cluster &&& 1#16 ≠ 0 then
    write16 fat (fatOffset cluster) ((fatEntry &&& 0x000F#16) ||| (value <<< 4))
  else
    write16 fat (fatOffset cluster) ((fatEntry &&& 0xF000#16) ||| (value &&& 0x0FFF#16))

theorem and_one_ne_zero_iff (c : u16) : c &&& 1#16 ≠ 0 ↔ c.toNat % 2 = 1 := by
  have h : (c &&& 1#16).toNat = c.toNat % 2 := toNat_and_lowMask c (k := 1) rfl
  rw [ne_eq, ← BitVec.toNat_inj, h]
  change ¬ c.toNat % 2 = 0 ↔ _
  omega

/-- The value of an entry as a number: the low or the high 12 bits of its two bytes. -/
theorem getNextCluster_toNat (fat : Bytes) (c : u16) :
    (getNextCluster fat c).toNat =
      if c.toNat % 2 = 1 then
        (fat (fatOffset c + 1)).toNat * 16 + (fat (fatOffset c)).toNat / 16
      else (fat (fatOffset c + 1)).toNat % 16 * 256 + (fat (fatOffset c)).toNat := by
  have hlo := (fat (fatOffset c)).isLt
  have hw := read16_toNat fat (fatOffset c)
  unfold getNextCluster
  by_cases hodd : c.toNat % 2 = 1
  · rw [if_pos hodd, if_pos ((and_one_ne_zero_iff c).mpr hodd), toNat_ushiftRight_eq, hw]
    omega
  · rw [if_neg hodd, if_neg (fun h ↦ hodd ((and_one_ne_zero_iff c).mp h)),
      toNat_and_lowMask _ (k := 12) rfl, hw]
    omega

/-- The word that `set_cluster_value` stores: the entry's 12 bits replaced, the neighbour's 4 bits
kept. -/
def setWord (odd : Bool) (old value : u16) : u16 :=
  if odd then (old &&& 0x000F#16) ||| (value <<< 4) else (old &&& 0xF000#16) ||| (value &&& 0x0FFF#16)

theorem setWord_odd_toNat (old value : u16) :
    (setWord true old value).toNat = value.toNat % 4096 * 16 + old.toNat % 16 := by
  have hold := toNat_and_lowMask old (y := 0x000F#16) (k := 4) rfl
  have hval := toNat_shiftLeft_eq value 4
  change ((old &&& 0x000F#16) ||| (value <<< 4)).toNat = _
  rw [BitVec.or_comm, toNat_or_of_lt (k := 4) (by omega) (by omega)]
  omega

theorem and_highMask_toNat (x : u16) : (x &&& 0xF000#16).toNat = x.toNat / 4096 * 4096 :=
  toNat_and_not_lowMask x (y := 0x0FFF#16) (k := 12) rfl

theorem setWord_even_toNat (old value : u16) :
    (setWord false old value).toNat = old.toNat / 4096 * 4096 + value.toNat % 4096 := by
  have hold := and_highMask_toNat old
  have hval : (value &&& 0x0FFF#16).toNat = value.toNat % 4096 :=
    toNat_and_lowMask value (k := 12) rfl
  change ((old &&& 0xF000#16) ||| (value &&& 0x0FFF#16)).toNat = _
  rw [toNat_or_of_lt (k := 12) (by omega) (by omega), hold, hval]

theorem setClusterValue_eq (fat : Bytes) (c value : u16) :
    setClusterValue fat c value = write16 fat (fatOffset c)
      (setWord (decide (c.toNat % 2 = 1)) (read16 fat (fatOffset c)) value) := by
  unfold setClusterValue setWord
  by_cases hodd : c.toNat % 2 = 1
  · rw [if_pos ((and_one_ne_zero_iff c).mpr hodd), decide_eq_true hodd, if_pos rfl]
  · rw [if_neg (fun h ↦ hodd ((and_one_ne_zero_iff c).mp h)), decide_eq_false hodd]
    rfl

theorem setClusterValue_outside (fat : Bytes) (c value : u16) {i : Nat}
    (h : i < fatOffset c ∨ fatOffset c + 2 ≤ i) : setClusterValue fat c value i = fat i := by
  rw [setClusterValue_eq, write16_outside _ _ h]

/-- The two bytes of the entry after the update. -/
theorem setClusterValue_bytes (fat : Bytes) (c value : u16) :
    let w := setWord (decide (c.toNat % 2 = 1)) (read16 fat (fatOffset c)) value
    (setClusterValue fat c value (fatOffset c)).toNat = w.toNat % 256 ∧
      (setClusterValue fat c value (fatOffset c + 1)).toNat = w.toNat / 256 := by
  intro w
  have hw : (read16 (setClusterValue fat c value) (fatOffset c)).toNat = w.toNat := by
    rw [setClusterValue_eq, read16_write16]
  have hlo := (setClusterValue fat c value (fatOffset c)).isLt
  rw [read16_toNat] at hw
  omega

/-- An updated entry reads back as the low 12 bits of the value. -/
theorem getNextCluster_set_self (fat : Bytes) (c value : u16) :
    (getNextCluster (setClusterValue fat c value) c).toNat = value.toNat % 4096 := by
  obtain ⟨hlo, hhi⟩ := setClusterValue_bytes fat c value
  rw [getNextCluster_toNat, hlo, hhi]
  by_cases hodd : c.toNat % 2 = 1
  · rw [decide_eq_true hodd, setWord_odd_toNat, if_pos hodd]
    omega
  · rw [decide_eq_false hodd, setWord_even_toNat, if_neg hodd]
    omega

theorem fatOffset_lt_of_lt {c d : u16} (h : c.toNat < d.toNat) :
    fatOffset c + 2 ≤ fatOffset d ∨
      (fatOffset d = fatOffset c + 1 ∧ c.toNat % 2 = 0 ∧ d.toNat % 2 = 1) := by
  unfold fatOffset
  omega

/-- Updating an entry leaves every other entry as it was. -/
theorem getNextCluster_set_other (fat : Bytes) {c d : u16} (value : u16) (hne : d ≠ c) :
    getNextCluster (setClusterValue fat c value) d = getNextCluster fat d := by
  obtain ⟨hlo, hhi⟩ := setClusterValue_bytes fat c value
  have hw := read16_toNat fat (fatOffset c)
  have hb0 := (fat (fatOffset c)).isLt
  have hb1 := (fat (fatOffset c + 1)).isLt
  apply BitVec.eq_of_toNat_eq
  rw [getNextCluster_toNat, getNextCluster_toNat]
  -- either the windows are apart, or the two entries are the halves of one group of three bytes
  rcases Nat.lt_or_gt_of_ne (fun h ↦ hne (BitVec.eq_of_toNat_eq h)) with hlt | hlt
  · rcases fatOffset_lt_of_lt hlt with hfar | ⟨hoff, hdeven, hcodd⟩
    · rw [setClusterValue_outside _ _ _ (by omega), setClusterValue_outside _ _ _ (by omega)]
    · rw [decide_eq_true hcodd, setWord_odd_toNat, hw] at hlo
      rw [if_neg (by omega), if_neg (by omega), ← hoff, hlo,
        setClusterValue_outside _ _ _ (by omega)]
      omega
  · rcases fatOffset_lt_of_lt hlt with hfar | ⟨hoff, hceven, hdodd⟩
    · rw [setClusterValue_outside _ _ _ (by omega), setClusterValue_outside _ _ _ (by omega)]
    · rw [decide_eq_false (by omega), setWord_even_toNat, hw] at hhi
      rw [if_pos hdodd, if_pos hdodd, hoff, hhi, setClusterValue_outside _ _ _ (by omega)]
      omega

/-- Every byte after the update: the two of the entry keep what belongs to a neighbour. -/
theorem setClusterValue_apply (fat : Bytes) (c value : u16) (i : Nat) :
    (setClusterValue fat c value i).toNat =
      if i = fatOffset c then
        if c.toNat % 2 = 1 then value.toNat % 16 * 16 + (fat i).toNat % 16 else value.toNat % 256
      else if i = fatOffset c + 1 then
        if c.toNat % 2 = 1 then value.toNat % 4096 / 16
        else (fat i).toNat / 16 * 16 + value.toNat % 4096 / 256
      else (fat i).toNat := by
  obtain ⟨hlo, hhi⟩ := setClusterValue_bytes fat c value
  have hw := read16_toNat fat (fatOffset c)
  have hb0 := (fat (fatOffset c)).isLt
  by_cases hfst : i = fatOffset c
  · rw [if_pos hfst, hfst, hlo]
    by_cases hodd : c.toNat % 2 = 1
    · rw [decide_eq_true hodd, setWord_odd_toNat, if_pos hodd, hw]
      omega
    · rw [decide_eq_false hodd, setWord_even_toNat, if_neg hodd]
      omega
  · rw [if_neg hfst]
    by_cases hsnd : i = fatOffset c + 1
    · rw [if_pos hsnd, hsnd, hhi]
      by_cases hodd : c.toNat % 2 = 1
      · rw [decide_eq_true hodd, setWord_odd_toNat, if_pos hodd]
        omega
      · rw [decide_eq_false hodd, setWord_even_toNat, if_neg hodd, hw]
        omega
    · rw [if_neg hsnd, setClusterValue_outside _ _ _ (by omega)]

theorem setClusterValue_comm_of_lt (fat : Bytes) {c d : u16} (v w : u16) (hlt : c.toNat < d.toNat) :
    setClusterValue (setClusterValue fat c v) d w = setClusterValue (setClusterValue fat d w) c v := by
  funext i
  apply BitVec.eq_of_toNat_eq
  simp only [setClusterValue_apply]
  rcases fatOffset_lt_of_lt hlt with hfar | ⟨hoff, hceven, hdodd⟩
  · by_cases hc : i = fatOffset c ∨ i = fatOffset c + 1
    · simp only [show i ≠ fatOffset d by omega, show i ≠ fatOffset d + 1 by omega, if_false]
    · simp only [show i ≠ fatOffset c by omega, show i ≠ fatOffset c + 1 by omega, if_false]
  · -- the byte in the middle has four bits of each
    have hc : ¬ c.toNat % 2 = 1 := by omega
    by_cases hmid : i = fatOffset d
    · simp only [hmid, hoff, hc, hdodd, Nat.succ_ne_self, if_true, if_false]
      omega
    · by_cases hfst : i = fatOffset c
      · simp only [hfst, hc, show fatOffset c ≠ fatOffset d by omega,
          show fatOffset c ≠ fatOffset d + 1 by omega, if_true, if_false]
      · simp only [hmid, hfst, show i ≠ fatOffset c + 1 by omega, if_false]

/-- Updates of different entries commute. -/
theorem setClusterValue_comm (fat : Bytes) {c d : u16} (v w : u16) (hne : d ≠ c) :
    setClusterValue (setClusterValue fat c v) d w = setClusterValue (setClusterValue fat d w) c v := by
  rcases Nat.lt_or_gt_of_ne (fun h ↦ hne (BitVec.eq_of_toNat_eq h)) with hlt | hlt
  · exact (setClusterValue_comm_of_lt fat w v hlt).symm
  · exact setClusterValue_comm_of_lt fat v w hlt

/-- What an update of the entry of `c` does to the FAT. -/
structure EntryCell (fat : Bytes) (c value : u16) : Prop where
  same : (getNextCluster (setClusterValue fat c value) c).toNat = value.toNat % 4096
  other : ∀ d, d ≠ c → getNextCluster (setClusterValue fat c value) d = getNextCluster fat d
  outside : ∀ i, i ≠ fatOffset c → i ≠ fatOffset c + 1 → setClusterValue fat c value i = fat i
  comm : ∀ d w, d ≠ c →
    setClusterValue (setClusterValue fat c value) d w =
      setClusterValue (setClusterValue fat d w) c value

/-- The packed entries are cells of their own. -/
theorem entryCell (fat : Bytes) (c value : u16) : EntryCell fat c value where
  same := getNextCluster_set_self fat c value
  other _ hne := getNextCluster_set_other fat value hne
  outside _ hfst hsnd := setClusterValue_outside fat c value (by omega)
  comm _ w hne := setClusterValue_comm fat value w hne

/-- `cs` is the chain of clusters from `first` on, up to the end mark. -/
abbrev FatChain (fat : Bytes) (first : u16) (cs : List u16) : Prop :=
  ChainFrom (getNextCluster fat) (FAT12_EOF_MIN ≤ ·) first cs

theorem FatChain.lt_eof {fat : Bytes} {first : u16} {cs : List u16} (h : FatChain fat first cs)
    {c : u16} (hc : c ∈ cs) : c.toNat < 4088 :=
  BitVec.not_le.mp (h.not_stop_of_mem hc)

-- The clusters of a chain are distinct and below the end marks.
theorem FatChain.length_le {fat : Bytes} {first : u16} {cs : List u16}
    (h : FatChain fat first cs) : cs.length ≤ 4088 := by
  have hnodup : (cs.map BitVec.toNat).Nodup :=
    h.nodup.map fun c d heq ↦ BitVec.eq_of_toNat_eq heq
  have hsub : cs.map BitVec.toNat ⊆ List.range 4088 := by
    intro i hi
    obtain ⟨c, hc, rfl⟩ := List.mem_map.mp hi
    exact List.mem_range.mpr (h.lt_eof hc)
  have hlen := hnodup.length_le_of_subset hsub
  rwa [List.length_map, List.length_range] at hlen

/-! ## The first free cluster -/

/-- `find_free_cluster`: the least cluster of 2, …, 4083 whose entry is free, 0 when there is
none. -/
def findFreeCluster (fat : Bytes) : u16 :=
  (firstFrom (fun i ↦
    let cluster := BitVec.ofNat 16 i
    if getNextCluster fat cluster = FAT12_FREE then some cluster else none) 4082 2).getD 0

/-- A cluster that `find_free_cluster` would accept. -/
def FreeCluster (fat : Bytes) (c : u16) : Prop :=
  2 ≤ c.toNat ∧ c.toNat < 4084 ∧ getNextCluster fat c = FAT12_FREE

instance (fat : Bytes) (c : u16) : Decidable (FreeCluster fat c) :=
  inferInstanceAs (Decidable (_ ∧ _ ∧ _))

-- The loop goes up from 2, so it finds the least.
theorem findFreeCluster_spec (fat : Bytes) :
    (findFreeCluster fat = 0 ∧ ∀ c, ¬ FreeCluster fat c) ∨
      (FreeCluster fat (findFreeCluster fat) ∧
        ∀ c, FreeCluster fat c → (findFreeCluster fat).toNat ≤ c.toNat) := by
  unfold findFreeCluster
  set body : Nat → Option u16 := fun i ↦
    if getNextCluster fat (BitVec.ofNat 16 i) = FAT12_FREE then some (BitVec.ofNat 16 i) else none
    with hbody
  have hfree {c : u16} (hc : FreeCluster fat c) : body c.toNat = some c := by
    simp only [hbody, BitVec.ofNat_toNat, BitVec.setWidth_eq, hc.2.2, if_true]
  change ((firstFrom body 4082 2).getD 0 = 0 ∧ _) ∨ (FreeCluster fat ((firstFrom body 4082 2).getD 0)
    ∧ ∀ c, FreeCluster fat c → ((firstFrom body 4082 2).getD 0).toNat ≤ c.toNat)
  cases hf : firstFrom body 4082 2 with
  | none =>
    refine Or.inl ⟨rfl, fun c hc ↦ ?_⟩
    have hnone := (firstFrom_eq_none_iff body 4082 2).mp hf c.toNat hc.1 (by have := hc.2.1; omega)
    rw [hfree hc] at hnone
    cases hnone
  | some b =>
    obtain ⟨i, hlo, hhi, hi, hfirst⟩ := (firstFrom_eq_some_iff body 4082 2 b).mp hf
    have hb : b = BitVec.ofNat 16 i ∧ getNextCluster fat (BitVec.ofNat 16 i) = FAT12_FREE := by
      simp only [hbody] at hi
      split at hi
      · rename_i hzero
        exact ⟨(Option.some.inj hi).symm, hzero⟩
      · cases hi
    have hbi : b.toNat = i := by
      rw [hb.1, BitVec.toNat_ofNat]
      omega
    refine Or.inr ⟨⟨by rw [Option.getD_some, hbi]; omega, by rw [Option.getD_some, hbi]; omega, ?_⟩,
      fun c hc ↦ ?_⟩
    · rw [Option.getD_some, hb.1, hb.2]
    · rw [Option.getD_some, hbi]
      by_contra hlt
      have hnone := hfirst c.toNat hc.1 (by omega)
      rw [hfree hc] at hnone
      cases hnone

theorem freeCluster_findFreeCluster {fat : Bytes} (h : findFreeCluster fat ≠ 0) :
    FreeCluster fat (findFreeCluster fat) := by
  rcases findFreeCluster_spec fat with ⟨h0, -⟩ | ⟨hfree, -⟩
  · exact absurd h0 h
  · exact hfree

theorem findFreeCluster_eq_zero_iff (fat : Bytes) :
    findFreeCluster fat = 0 ↔ ∀ c, ¬ FreeCluster fat c := by
  rcases findFreeCluster_spec fat with ⟨h0, hnone⟩ | ⟨hfree, -⟩
  · exact ⟨fun _ ↦ hnone, fun _ ↦ h0⟩
  · refine ⟨fun h ↦ ?_, fun h ↦ absurd hfree (h _)⟩
    have h2 := hfree.1
    rw [h] at h2
    exact absurd h2 (by decide)

/-- `find_free_cluster` only looks at the entries. -/
theorem findFreeCluster_congr {fat fat' : Bytes}
    (h : ∀ d, getNextCluster fat d = getNextCluster fat' d) :
    findFreeCluster fat = findFreeCluster fat' := by
  unfold findFreeCluster
  simp only [h]

end TenOs.Fs
