import TenOs.Mm.SingleFrames

/-!
# Requests that the free frames can just meet

When `alloc_memory_block` and `alloc_memory_blocks` fail although there are frames for the request:
the searches only visit the whole words of the map, and `alloc_memory_blocks` turns down a request
for as many frames as are free.
-/

namespace TenOs.Mm

open TenOs.Base TenOs.Lib

/-! ## Reachable maps -/

/-- A set or clear operation on the map, with what it leaves in `mem_mngr_used_blocks`. -/
inductive BitCall
  | set (bit : Nat) (usedBlocks : u32)
  | unset (bit : Nat) (usedBlocks : u32)

def MemMngr.bitStep (m : MemMngr) : BitCall → MemMngr
  | .set bit usedBlocks => { m.mmapSet bit with usedBlocks }
  | .unset bit usedBlocks => { m.mmapUnset bit with usedBlocks }

/-- The states that `init_mem_mngr` and any number of operations lead to. -/
abbrev BitRun (memory : Bytes) (size : u32) (m : MemMngr) : Prop :=
  Run MemMngr.bitStep (fun _ _ ↦ True) (MemMngr.initMemMngr memory size) m

theorem BitRun.maxBlocks_lt {memory : Bytes} {size : u32} {m : MemMngr} (h : BitRun memory size m) :
    m.maxBlocks.toNat < 2 ^ 20 := by
  refine h.inv (fun m ↦ m.maxBlocks.toNat < 2 ^ 20) ?_ fun m c hm _ ↦ ?_
  · have hlt := (size * 1024).isLt
    have hdiv : (size * 1024 / MEMORY_BLOCK_SIZE).toNat = (size * 1024).toNat / 4096 :=
      BitVec.toNat_udiv
    change (size * 1024 / MEMORY_BLOCK_SIZE).toNat < 2 ^ 20
    omega
  · cases c with
    | set bit usedBlocks => exact hm
    | unset bit usedBlocks => exact hm

namespace MemMngr

variable {m : MemMngr}

/-- The frames in the words that the searches visit. -/
def searched (m : MemMngr) : Nat := 32 * (m.maxBlocks.toNat / 32)

theorem searched_le (m : MemMngr) : m.searched ≤ m.maxBlocks.toNat :=
  Nat.mul_div_le _ _

/-- `n` consecutive frames below `max_blocks` are free. -/
def HasRun (m : MemMngr) (n : Nat) : Prop :=
  ∃ b, b + n ≤ m.maxBlocks.toNat ∧ ∀ i < n, m.used (b + i) = false

/-! ## When the searches find something -/

theorem countP_not_range (p : Nat → Bool) (k : Nat) :
    (List.range k).countP (fun i ↦ !p i) = k - (List.range k).countP p := by
  have hsum := List.length_eq_countP_add_countP p (l := List.range k)
  simp only [List.length_range, decide_not, Bool.decide_eq_true] at hsum
  omega

theorem Counted.freeBlockCount_eq_freeIn (h : m.Counted) :
    m.getFreeBlockCount.toNat = m.freeIn 0 m.maxBlocks.toNat := by
  simp only [h.freeBlockCount, freeIn, Nat.zero_add, countP_not_range]

theorem freeIn_pos {n k : Nat} (hn : n < k) (hclear : m.used n = false) : 0 < m.freeIn 0 k := by
  apply List.countP_pos_iff.mpr
  refine ⟨n, List.mem_range.mpr hn, ?_⟩
  rw [Nat.zero_add, hclear]
  rfl

-- The least frame that is found exists as soon as any does.
theorem mmapFirstFree_isSome_iff :
    (∃ b, m.mmapFirstFree = some b) ↔ ∃ b < m.searched, m.used b = false := by
  constructor
  · intro h
    obtain ⟨b, hb⟩ := h
    obtain ⟨hlt, hclear, -⟩ := (m.mmapFirstFree_eq_some_iff b).mp hb
    exact ⟨b, hlt, hclear⟩
  · intro h
    refine ⟨Nat.find h, (m.mmapFirstFree_eq_some_iff _).mpr
      ⟨(Nat.find_spec h).1, (Nat.find_spec h).2, fun n hn ↦ ?_⟩⟩
    have hmin := Nat.find_min h hn
    have hlt := (Nat.find_spec h).1
    by_contra hused
    exact hmin ⟨by omega, Bool.not_eq_true _ ▸ hused⟩

theorem mmapFirstFreeS_isSome_iff {size : u32} (hsize : size ≠ 0) :
    (∃ b, m.mmapFirstFreeS size = some b) ↔ ∃ b < m.searched, m.StartsRun size.toNat b := by
  constructor
  · intro h
    obtain ⟨b, hb⟩ := h
    obtain ⟨-, hlt, hrun, -⟩ := (m.mmapFirstFreeS_eq_some_iff size b).mp hb
    exact ⟨b, hlt, hrun⟩
  · intro h
    classical
    refine ⟨Nat.find h, (m.mmapFirstFreeS_eq_some_iff size _).mpr
      ⟨hsize, (Nat.find_spec h).1, (Nat.find_spec h).2, fun n hn hrun ↦ ?_⟩⟩
    have hlt := (Nat.find_spec h).1
    exact Nat.find_min h hn ⟨by omega, hrun⟩

/-! ## When the calls succeed -/

section Success

variable (hzero : m.used 0 = true) (hmax : m.maxBlocks.toNat < 2 ^ 20)
include hzero hmax

-- Frame 0 is in use, so no call that finds a frame returns the null pointer.
theorem frame_mul_ne_zero_of_clear {b : Nat} (hb : b < m.searched) (hclear : m.used b = false) :
    BitVec.ofNat 32 b * MEMORY_BLOCK_SIZE ≠ 0 := by
  have hle := m.searched_le
  refine frame_mul_ne_zero (by omega) fun hb0 ↦ ?_
  rw [hb0, hzero] at hclear
  cases hclear

theorem Counted.allocMemoryBlock_ne_zero_iff (hcount : m.Counted) :
    m.allocMemoryBlock.2 ≠ 0 ↔ ∃ b < m.searched, m.used b = false := by
  constructor
  · intro h
    rcases m.allocMemoryBlock_cases with hfail | ⟨b, -, hfind, -⟩
    · rw [hfail] at h
      exact absurd rfl h
    · exact mmapFirstFree_isSome_iff.mp ⟨b, hfind⟩
  · intro h
    obtain ⟨n, hn, hclear⟩ := h
    obtain ⟨b, hfind⟩ := mmapFirstFree_isSome_iff.mpr ⟨n, hn, hclear⟩
    obtain ⟨hb, hbclear, -⟩ := (m.mmapFirstFree_eq_some_iff b).mp hfind
    have hfree : ¬ m.getFreeBlockCount ≤ 0 := by
      have hpos := freeIn_pos (Nat.lt_of_lt_of_le hn m.searched_le) hclear
      rw [BitVec.le_def, hcount.freeBlockCount_eq_freeIn]
      exact Nat.not_le.mpr hpos
    rw [MemMngr.allocMemoryBlock, if_neg hfree, hfind]
    exact frame_mul_ne_zero_of_clear hzero hmax hb hbclear

theorem Counted.allocMemoryBlocks_ne_zero_iff (hcount : m.Counted) {n : u32} (hn : n ≠ 0) :
    (m.allocMemoryBlocks n).2 ≠ 0 ↔ n.toNat < m.freeIn 0 m.maxBlocks.toNat ∧
      ∃ b < m.searched, m.StartsRun n.toNat b := by
  rw [← hcount.freeBlockCount_eq_freeIn, ← mmapFirstFreeS_isSome_iff hn]
  rcases m.allocMemoryBlocks_cases n with ⟨hfail, hnot⟩ | ⟨b, hfew, hfind, haddr, -⟩
  · rw [hfail]
    refine ⟨fun h ↦ absurd rfl h, fun h ↦ absurd ⟨h.1, ?_⟩ hnot⟩
    exact Option.isSome_iff_exists.mpr h.2
  · obtain ⟨-, hb, hrun, -⟩ := (m.mmapFirstFreeS_eq_some_iff n b).mp hfind
    rw [haddr]
    exact ⟨fun _ ↦ ⟨hfew, b, hfind⟩,
      fun _ ↦ frame_mul_ne_zero_of_clear hzero hmax hb hrun.1⟩

end Success

/-- `alloc_memory_block` serves the request when some frame is free. -/
def BlockServed (m : MemMngr) : Prop :=
  (∃ b < m.maxBlocks.toNat, m.used b = false) → m.allocMemoryBlock.2 ≠ 0

/-- `alloc_memory_blocks` serves the request when `n` consecutive frames are free. -/
def BlocksServed (m : MemMngr) (n : u32) : Prop :=
  m.HasRun n.toNat → (m.allocMemoryBlocks n).2 ≠ 0

end MemMngr

/-- A free frame is found unless all the free frames lie behind the last whole word of the map.  A run
of `n` free frames is found when more than `n` frames are free and a frame of the whole words meets the
test of the search, and else it is not. -/
theorem requests_served_iff {memory : Bytes} {size : u32} {m : MemMngr} (hrun : BitRun memory size m)
    (hzero : m.used 0 = true) (hcount : m.Counted) :
    (m.BlockServed ↔ (∀ b < m.maxBlocks.toNat, m.used b = true) ∨ ∃ b < m.searched, m.used b = false) ∧
      ∀ n : u32, n ≠ 0 → (m.BlocksServed n ↔ ¬ m.HasRun n.toNat ∨
        (n.toNat < m.freeIn 0 m.maxBlocks.toNat ∧ ∃ b < m.searched, m.StartsRun n.toNat b)) := by
  have hmax := hrun.maxBlocks_lt
  constructor
  · rw [MemMngr.BlockServed, hcount.allocMemoryBlock_ne_zero_iff hzero hmax, imp_iff_not_or]
    refine or_congr_left ?_
    simp only [not_exists, not_and, Bool.not_eq_false]
  · intro n hn
    rw [MemMngr.BlocksServed, hcount.allocMemoryBlocks_ne_zero_iff hzero hmax hn,
      imp_iff_not_or]

/-- 32 frames, of which all but frame 0 have been freed. -/
def freedMngr : MemMngr :=
  ([1, 2, 3, 8, 9, 10, 11, 16, 17, 18, 19, 24, 25, 26, 27].map fun bit ↦ BitCall.unset bit 1).foldl
    MemMngr.bitStep (MemMngr.initMemMngr (fun _ ↦ 0) 128)

/-- 33 frames, of which only the last is free. -/
def lastFrameMngr : MemMngr :=
  ([4, 5, 6, 7, 12, 13, 14, 15, 20, 21, 22, 23, 28, 29, 30, 31].map fun bit ↦ BitCall.set bit 32).foldl
    MemMngr.bitStep (MemMngr.initMemMngr (fun _ ↦ 0) 132)

theorem bitRun_freedMngr : BitRun (fun _ ↦ 0) 128 freedMngr :=
  Run.foldl (fun _ _ ↦ trivial) _ .start

theorem bitRun_lastFrameMngr : BitRun (fun _ ↦ 0) 132 lastFrameMngr :=
  Run.foldl (fun _ _ ↦ trivial) _ .start

theorem counted_freedMngr : freedMngr.Counted := by
  unfold MemMngr.Counted
  decide +kernel

theorem counted_lastFrameMngr : lastFrameMngr.Counted := by
  unfold MemMngr.Counted
  decide +kernel

theorem requests_served_freedMngr :
    (freedMngr.BlockServed ↔ (∀ b < freedMngr.maxBlocks.toNat, freedMngr.used b = true) ∨
        ∃ b < freedMngr.searched, freedMngr.used b = false) ∧
      ∀ n : u32, n ≠ 0 → (freedMngr.BlocksServed n ↔ ¬ freedMngr.HasRun n.toNat ∨
        (n.toNat < freedMngr.freeIn 0 freedMngr.maxBlocks.toNat ∧
          ∃ b < freedMngr.searched, freedMngr.StartsRun n.toNat b)) :=
  requests_served_iff bitRun_freedMngr (by decide +kernel) counted_freedMngr

/-- A request for the 31 frames that are free fails, and so does one for a single frame when only the
last frame of 33 is free. -/
theorem not_requests_served :
    (freedMngr.used 0 = true ∧ freedMngr.Counted ∧ BitRun (fun _ ↦ 0) 128 freedMngr ∧
      ¬ freedMngr.BlocksServed 31) ∧
    (lastFrameMngr.used 0 = true ∧ lastFrameMngr.Counted ∧ BitRun (fun _ ↦ 0) 132 lastFrameMngr ∧
      ¬ lastFrameMngr.BlockServed) := by
  refine ⟨⟨by decide +kernel, counted_freedMngr, bitRun_freedMngr, fun h ↦ ?_⟩,
    by decide +kernel, counted_lastFrameMngr, bitRun_lastFrameMngr, fun h ↦ ?_⟩
  · refine h ⟨1, by decide +kernel, ?_⟩ (by decide +kernel)
    change ∀ i < 31, freedMngr.used (1 + i) = false
    decide +kernel
  · exact h ⟨32, by decide +kernel, by decide +kernel⟩ (by decide +kernel)

end TenOs.Mm
