import TenOs.Mm.SingleFrames

/-!
# The used-frame counter after the set-up

`init_mem_mngr` and `init_memory_region` change the bit array and `mem_mngr_used_blocks` separately.
Whether the counter counts the bits that are set afterwards comes down to one number: how many frames
are clear at the end, against how many times the regions counted one.
-/

namespace TenOs.Mm

open TenOs.Base TenOs.Lib

/-- A region as `init_memory_region` gets it: its base and its size in bytes. -/
abbrev Region := u32 × u32

namespace Region

def firstFrame (r : Region) : Nat := r.1.toNat / 4096
def blocks (r : Region) : Nat := r.2.toNat / 4096

/-- The frames that `init_memory_region` clears, one more than the size has. -/
def Clears (r : Region) (n : Nat) : Prop := r.firstFrame ≤ n ∧ n ≤ r.firstFrame + r.blocks

instance (r : Region) (n : Nat) : Decidable (r.Clears n) := inferInstanceAs (Decidable (_ ∧ _))

/-- The regions lie in a memory of `size` KiB, and no two of them overlap. -/
structure Fit (size : u32) (regions : List Region) : Prop where
  inside : ∀ r ∈ regions, r.1.toNat + r.2.toNat ≤ size.toNat * 1024
  disjoint : regions.Pairwise fun r r' ↦
    r.1.toNat + r.2.toNat ≤ r'.1.toNat ∨ r'.1.toNat + r'.2.toNat ≤ r.1.toNat

end Region

/-! ## The changes one by one -/

/-- One change of the bit array or the counter. -/
inductive MapChange where
  | unset (bit : Nat)
  | set (bit : Nat)
  | countDown

namespace MapChange

def apply (m : MemMngr) : MapChange → MemMngr
  | unset bit => m.mmapUnset bit
  | set bit => m.mmapSet bit
  | countDown => { m with usedBlocks := m.usedBlocks - 1 }

def InRange (k : Nat) : MapChange → Prop
  | unset bit => bit < k
  | set bit => bit < k
  | countDown => True

def isCountDown : MapChange → Bool
  | countDown => true
  | _ => false

/-- Every change meets a state where its bit is below `max_blocks`, or where the counter is not 0. -/
def Sound : MemMngr → List MapChange → Prop
  | _, [] => True
  | m, c :: rest => (c.InRange m.maxBlocks.toNat ∧ (c.isCountDown → 0 < m.usedBlocks.toNat)) ∧
      Sound (c.apply m) rest

end MapChange

/-- The changes of `init_memory_region`, in order. -/
def Region.changes (r : Region) : List MapChange :=
  (List.range' 0 (r.blocks + 1)).flatMap (fun i ↦ [.unset (r.firstFrame + i), .countDown]) ++ [.set 0]

theorem Region.changes_eq (r : Region) (m : MemMngr) :
    m.initMemoryRegion r.1 r.2 = r.changes.foldl MapChange.apply m := by
  have hfirst : (r.1 / MEMORY_BLOCK_SIZE).toNat = r.firstFrame := BitVec.toNat_udiv
  have hblocks : (r.2 / MEMORY_BLOCK_SIZE).toNat = r.blocks := BitVec.toNat_udiv
  have hturns (n start : Nat) (m : MemMngr) :
      forLoop (fun i m ↦ { m.mmapUnset (r.firstFrame + i) with usedBlocks := m.usedBlocks - 1 })
          n start m =
        ((List.range' start n).flatMap fun i ↦
          [MapChange.unset (r.firstFrame + i), .countDown]).foldl MapChange.apply m := by
    induction n generalizing start m with
    | zero => rfl
    | succ n ih =>
      rw [forLoop, ih, List.range'_succ, List.flatMap_cons, List.foldl_append]
      rfl
  simp only [MemMngr.initMemoryRegion, hfirst, hblocks]
  rw [hturns, Region.changes, List.foldl_append]
  rfl

namespace MapChange

theorem apply_maxBlocks (m : MemMngr) (c : MapChange) : (c.apply m).maxBlocks = m.maxBlocks := by
  cases c <;> rfl

theorem apply_usedBlocks (m : MemMngr) (c : MapChange) :
    (c.apply m).usedBlocks = if c.isCountDown then m.usedBlocks - 1 else m.usedBlocks := by
  cases c <;> rfl

theorem toNat_sub_one {x : u32} (h : 0 < x.toNat) : (x - 1).toNat = x.toNat - 1 := by
  have hone : (1 : u32).toNat = 1 := rfl
  rw [BitVec.toNat_sub_of_le (by rw [BitVec.le_def, hone]; exact h), hone]

/-- The changes are sound when the bits are in range and the counter is large enough for all of
them; what they count down is then off the counter. -/
theorem sound_iff (m : MemMngr) (l : List MapChange) : Sound m l ↔
    (∀ c ∈ l, c.InRange m.maxBlocks.toNat) ∧ l.countP isCountDown ≤ m.usedBlocks.toNat := by
  induction l generalizing m with
  | nil => simp [Sound]
  | cons c rest ih =>
    rw [Sound, ih, apply_maxBlocks, apply_usedBlocks, List.forall_mem_cons, List.countP_cons]
    by_cases hc : c.isCountDown
    · simp only [hc, if_true, forall_const]
      constructor
      · rintro ⟨⟨hin, hpos⟩, hrest, hle⟩
        rw [toNat_sub_one hpos] at hle
        exact ⟨⟨hin, hrest⟩, by omega⟩
      · rintro ⟨⟨hin, hrest⟩, hle⟩
        have hpos : 0 < m.usedBlocks.toNat := by omega
        rw [toNat_sub_one hpos]
        exact ⟨⟨hin, hpos⟩, hrest, by omega⟩
    · simp [hc, and_assoc]

theorem foldl_usedBlocks {m : MemMngr} {l : List MapChange}
    (h : l.countP isCountDown ≤ m.usedBlocks.toNat) :
    (l.foldl apply m).usedBlocks.toNat = m.usedBlocks.toNat - l.countP isCountDown := by
  induction l generalizing m with
  | nil => rfl
  | cons c rest ih =>
    rw [List.countP_cons] at h ⊢
    rw [List.foldl_cons]
    by_cases hc : c.isCountDown
    · rw [if_pos hc] at h ⊢
      have hused : (c.apply m).usedBlocks.toNat = m.usedBlocks.toNat - 1 := by
        rw [apply_usedBlocks, if_pos hc, toNat_sub_one (by omega)]
      rw [ih (by omega), hused]
      omega
    · rw [if_neg hc] at h ⊢
      have hused : (c.apply m).usedBlocks = m.usedBlocks := by
        rw [apply_usedBlocks, if_neg hc]
      rw [ih (by rw [hused]; exact h), hused]
      omega

end MapChange

namespace Region

theorem changes_countP (r : Region) : r.changes.countP MapChange.isCountDown = r.blocks + 1 := by
  have hturns (l : List Nat) : (l.flatMap fun i ↦
      [MapChange.unset (r.firstFrame + i), .countDown]).countP MapChange.isCountDown = l.length := by
    induction l with
    | nil => rfl
    | cons i rest ih =>
      rw [List.flatMap_cons, List.countP_append, ih, List.length_cons, Nat.add_comm]
      rfl
  rw [changes, List.countP_append, hturns, List.length_range']
  rfl

theorem changes_inRange_iff (r : Region) (k : Nat) :
    (∀ c ∈ r.changes, c.InRange k) ↔ r.firstFrame + r.blocks < k := by
  constructor
  · intro h
    refine h (.unset (r.firstFrame + r.blocks)) (List.mem_append_left _ ?_)
    rw [List.mem_flatMap]
    exact ⟨r.blocks, by rw [List.mem_range'_1]; omega, List.mem_cons_self⟩
  · intro h c hc
    rcases List.mem_append.mp hc with hturn | hlast
    · obtain ⟨i, hi, hc⟩ := List.mem_flatMap.mp hturn
      rw [List.mem_range'_1] at hi
      simp only [List.mem_cons, List.not_mem_nil, or_false] at hc
      rcases hc with rfl | rfl
      · exact show r.firstFrame + i < k by omega
      · trivial
    · rw [List.mem_singleton.mp hlast]
      exact show 0 < k by omega

end Region

/-! ## A whole set-up -/

/-- The calls of `init_memory_region` after `init_mem_mngr`. -/
def initRegions (regions : List Region) (m : MemMngr) : MemMngr :=
  regions.foldl (fun m r ↦ m.initMemoryRegion r.1 r.2) m

theorem initRegions_eq (regions : List Region) (m : MemMngr) :
    initRegions regions m = (regions.flatMap Region.changes).foldl MapChange.apply m := by
  rw [initRegions, List.foldl_flatMap]
  simp only [Region.changes_eq]

theorem changes_countP (regions : List Region) :
    (regions.flatMap Region.changes).countP MapChange.isCountDown =
      (regions.map fun r ↦ r.blocks + 1).sum := by
  rw [List.countP_flatMap]
  congr 1
  exact List.map_congr_left fun r _ ↦ r.changes_countP

-- Bit 0 is set again by every call, so the last one leaves it set.
theorem initRegions_used (regions : List Region) (m : MemMngr) (n : Nat) :
    (initRegions regions m).maxBlocks = m.maxBlocks ∧
      ((initRegions regions m).used n = true ↔ regions ≠ [] ∧ n = 0 ∨
        m.used n = true ∧ ∀ r ∈ regions, ¬ r.Clears n) := by
  induction regions generalizing m with
  | nil => simp [initRegions]
  | cons r rest ih =>
    have hfirst := m.initMemoryRegion_used r.1 r.2 n
    have hrest := ih (m.initMemoryRegion r.1 r.2)
    refine ⟨hrest.1.trans hfirst.1, hrest.2.trans ?_⟩
    rw [hfirst.2, List.forall_mem_cons]
    change _ ∧ n = 0 ∨ (n = 0 ∨ _ ∧ ¬ r.Clears n) ∧ _ ↔ _
    by_cases hn : n = 0
    · by_cases hnil : rest = []
      · simp [hn, hnil]
      · simp [hn, hnil]
    · simp [hn, and_assoc]

/-- `mem_mngr_max_blocks`, for the size that `init_mem_mngr` gets. -/
def maxBlocksOf (size : u32) : Nat := (size * 1024 / MEMORY_BLOCK_SIZE).toNat

/-- Bit `n` of the map when the kernel starts, as `memory` has it. -/
def memoryBit (memory : Bytes) (n : Nat) : Bool := bitAt (fun i ↦ read32 memory (4 * i)) n

/-- The fill with `0xf` leaves the high four bits of each byte clear, and it stops at the last whole
byte of the map. -/
def fillClear (memory : Bytes) (size : u32) (n : Nat) : Bool :=
  if n < 8 * (maxBlocksOf size / 8) then decide (4 ≤ n % 8) else !memoryBit memory n

/-- The frames that are clear in the end. -/
def leftClear (memory : Bytes) (size : u32) (regions : List Region) (n : Nat) : Bool :=
  (regions.isEmpty || n ≠ 0) && (fillClear memory size n || regions.any fun r ↦ r.Clears n)

theorem initMemMngr_memoryBit (memory : Bytes) (size : u32) {n : Nat}
    (hn : 8 * (maxBlocksOf size / 8) ≤ n) :
    (MemMngr.initMemMngr memory size).used n = memoryBit memory n := by
  have hbytes : (size * 1024 / MEMORY_BLOCK_SIZE / MEMORY_BLOCKS_PER_BYTE).toNat =
      maxBlocksOf size / 8 := BitVec.toNat_udiv
  change (read32 (memset memory 0 0xF
    (size * 1024 / MEMORY_BLOCK_SIZE / MEMORY_BLOCKS_PER_BYTE).toNat)
      (4 * (n / 32))).getLsbD (n % 32) = (read32 memory (4 * (n / 32))).getLsbD (n % 32)
  have hbit : n % 32 < 32 := Nat.mod_lt _ (by decide)
  rw [read32_getLsbD _ _ hbit, read32_getLsbD _ _ hbit, memset, fillCells_apply, hbytes,
    if_neg (by omega)]

theorem initMemMngr_used_eq (memory : Bytes) (size : u32) (n : Nat) :
    (MemMngr.initMemMngr memory size).used n = !fillClear memory size n := by
  unfold fillClear
  by_cases hn : n < 8 * (maxBlocksOf size / 8)
  · rw [if_pos hn, MemMngr.initMemMngr_used memory size hn, ← decide_not]
    exact decide_eq_decide.mpr Nat.not_le.symm
  · rw [if_neg hn, initMemMngr_memoryBit memory size (Nat.le_of_not_lt hn), Bool.not_not]

theorem initRegions_clear (memory : Bytes) (size : u32) (regions : List Region) (n : Nat) :
    (initRegions regions (MemMngr.initMemMngr memory size)).used n =
      !leftClear memory size regions n := by
  rw [Bool.eq_iff_iff, (initRegions_used regions _ n).2, initMemMngr_used_eq]
  simp [leftClear]

/-- After the set-up the counter counts the bits that are set, it never went below 0, and no bit from
`max_blocks` on was changed. -/
structure CounterRight (memory : Bytes) (size : u32) (regions : List Region) : Prop where
  fill : ∀ n, (MemMngr.initMemMngr memory size).used n ≠ memoryBit memory n → n < maxBlocksOf size
  changes : MapChange.Sound (MemMngr.initMemMngr memory size) (regions.flatMap Region.changes)
  counted : (initRegions regions (MemMngr.initMemMngr memory size)).Counted

/-- Every region ends below `max_blocks`, and as many frames are clear in the end as the regions have
counted. -/
structure CountsAgree (memory : Bytes) (size : u32) (regions : List Region) : Prop where
  inRange : ∀ r ∈ regions, r.firstFrame + r.blocks < maxBlocksOf size
  balance : (List.range (maxBlocksOf size)).countP (leftClear memory size regions) =
    (regions.map fun r ↦ r.blocks + 1).sum

section SetUp

variable (memory : Bytes) (size : u32) (regions : List Region)

theorem fill_inRange {n : Nat}
    (hn : (MemMngr.initMemMngr memory size).used n ≠ memoryBit memory n) : n < maxBlocksOf size := by
  by_contra hle
  exact hn (initMemMngr_memoryBit memory size (by omega))

theorem sound_changes_iff :
    MapChange.Sound (MemMngr.initMemMngr memory size) (regions.flatMap Region.changes) ↔
      (∀ r ∈ regions, r.firstFrame + r.blocks < maxBlocksOf size) ∧
        (regions.map fun r ↦ r.blocks + 1).sum ≤ maxBlocksOf size := by
  rw [MapChange.sound_iff, changes_countP]
  refine and_congr_left' ?_
  simp only [List.mem_flatMap, ← Region.changes_inRange_iff]
  constructor
  · intro h r hr c hc
    exact h c ⟨r, hr, hc⟩
  · rintro h c ⟨r, hr, hc⟩
    exact h r hr c hc

/-- When the counter does not go below 0, it is right for one number of clear frames. -/
theorem counted_iff (hsum : (regions.map fun r ↦ r.blocks + 1).sum ≤ maxBlocksOf size) :
    (initRegions regions (MemMngr.initMemMngr memory size)).Counted ↔
      (List.range (maxBlocksOf size)).countP (leftClear memory size regions) =
        (regions.map fun r ↦ r.blocks + 1).sum := by
  have hmax : (initRegions regions (MemMngr.initMemMngr memory size)).maxBlocks.toNat =
      maxBlocksOf size := congrArg BitVec.toNat (initRegions_used regions _ 0).1
  have hused : (initRegions regions (MemMngr.initMemMngr memory size)).usedBlocks.toNat =
      maxBlocksOf size - (regions.map fun r ↦ r.blocks + 1).sum := by
    have hcount := changes_countP regions
    have hleft := MapChange.foldl_usedBlocks (m := MemMngr.initMemMngr memory size)
      (hcount.trans_le hsum)
    rwa [← initRegions_eq, hcount] at hleft
  have hsplit := List.length_eq_countP_add_countP (leftClear memory size regions)
    (l := List.range (maxBlocksOf size))
  rw [List.length_range] at hsplit
  have hset : (List.range (maxBlocksOf size)).countP
      (initRegions regions (MemMngr.initMemMngr memory size)).used =
        (List.range (maxBlocksOf size)).countP fun n ↦ ¬ leftClear memory size regions n = true := by
    apply List.countP_congr
    intro n _
    rw [initRegions_clear]
    simp
  rw [MemMngr.Counted, hmax, hused, hset]
  omega

/-- The counter is right after the set-up exactly when the regions are in range and the two counts
agree. -/
theorem counterRight_iff : CounterRight memory size regions ↔ CountsAgree memory size regions := by
  constructor
  · intro h
    obtain ⟨hrange, hsum⟩ := (sound_changes_iff memory size regions).mp h.changes
    exact ⟨hrange, (counted_iff memory size regions hsum).mp h.counted⟩
  · intro h
    have hle := countP_range_le (leftClear memory size regions) (maxBlocksOf size)
    rw [h.balance] at hle
    exact ⟨fun _ ↦ fill_inRange memory size,
      (sound_changes_iff memory size regions).mpr ⟨h.inRange, hle⟩,
      (counted_iff memory size regions hle).mpr h.balance⟩

end SetUp

-- A region that starts at frame 0 counts it in vain; the last frame, which it leaves out, makes up
-- for that.
example : CountsAgree (fun _ ↦ 0) 32 [(0, 0x6000)] :=
  ⟨List.forall_mem_singleton.mpr (by decide), by decide⟩

/-- A memory of eight frames with a region of frames 1 and 2: the call clears frame 3 as well, the
fill has left frames 4 to 7 clear, and the counter says 5 for the one frame in use. -/
theorem not_counterRight_smallMemory : ¬ ∀ memory size regions, Region.Fit size regions →
    CounterRight memory size regions := by
  intro h
  have hfit : Region.Fit 32 [(0x1000, 0x2000)] :=
    ⟨List.forall_mem_singleton.mpr (by decide), List.pairwise_singleton _ _⟩
  have hright := h (fun _ ↦ 0) 32 [(0x1000, 0x2000)] hfit
  have hsum : ([(0x1000, 0x2000)].map fun r : Region ↦ r.blocks + 1).sum ≤ maxBlocksOf 32 := by
    decide
  have hbalance := (counted_iff _ 32 _ hsum).mp hright.counted
  revert hbalance
  decide

end TenOs.Mm
