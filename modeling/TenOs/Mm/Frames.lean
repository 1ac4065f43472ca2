import TenOs.Base.Ledger
import TenOs.Base.Run
import TenOs.Mm.Memory

/-!
# Who owns which frame

Runs of the frame allocator, with the list of the allocations that are live.  Single frames are
never handed out twice.  The search for several frames counts the free ones among one more than was
asked for, so a range it returns can have a used frame in it, or end behind the last frame.
-/

namespace TenOs.Mm

open TenOs.Base TenOs.Lib

/-- The allocator with its live allocations: address and number of frames. -/
structure FrameState where
  mngr : MemMngr
  live : List (u32 × u32)

inductive FrameCall
  | allocBlock
  | allocBlocks (size : u32)
  | freeBlock (p : u32)
  | freeBlocks (p size : u32)

/-- The frames of an allocation. -/
def Frames (a : u32 × u32) (n : Nat) : Prop :=
  a.1.toNat / 4096 ≤ n ∧ n < a.1.toNat / 4096 + a.2.toNat

def FrameState.step (s : FrameState) : FrameCall → FrameState
  | .allocBlock =>
      let r := s.mngr.allocMemoryBlock
      { mngr := r.1, live := if r.2 = 0 then s.live else (r.2, 1) :: s.live }
  | .allocBlocks size =>
      let r := s.mngr.allocMemoryBlocks size
      { mngr := r.1, live := if r.2 = 0 then s.live else (r.2, size) :: s.live }
  | .freeBlock p => { mngr := s.mngr.freeMemoryBlock p, live := s.live.erase (p, 1) }
  | .freeBlocks p size => { mngr := s.mngr.freeMemoryBlocks p size, live := s.live.erase (p, size) }

/-- A call that frees names a live allocation with its own size. -/
def FrameCall.ok (s : FrameState) : FrameCall → Prop
  | .freeBlock p => (p, 1) ∈ s.live
  | .freeBlocks p size => (p, size) ∈ s.live
  | _ => True

/-- No frame has two owners. -/
structure FramesDistinct (m₀ : MemMngr) (s : FrameState) : Prop where
  disjoint : s.live.Pairwise fun a b ↦ ∀ n, Frames a n → ¬ Frames b n
  below : ∀ a ∈ s.live, ∀ n, Frames a n → n < m₀.maxBlocks.toNat
  fresh : ∀ a ∈ s.live, ∀ n, Frames a n → ¬ m₀.used n = true

/-- Where `mmap_first_free_s` finds its start, all frames of the range are free and exist. -/
def StartsClear (m : MemMngr) (size : u32) : Prop :=
  size < m.getFreeBlockCount → ∀ b < 32 * (m.maxBlocks.toNat / 32), m.StartsRun size.toNat b →
    (∀ n < b, ¬ m.StartsRun size.toNat n) →
      (∀ n, b ≤ n → n < b + size.toNat → m.used n = false) ∧ b + size.toNat ≤ m.maxBlocks.toNat

/-- The condition on a call: only the search for several frames can go wrong. -/
def FrameCall.clear (s : FrameState) : FrameCall → Prop
  | .allocBlocks size => StartsClear s.mngr size
  | _ => True

-- In terms of the search: what it finds is a run of clear bits within the map.
theorem startsClear_iff (m : MemMngr) (size : u32) : StartsClear m size ↔
    (size < m.getFreeBlockCount → ∀ b, m.mmapFirstFreeS size = some b →
      (∀ n, b ≤ n → n < b + size.toNat → m.used n = false) ∧
        b + size.toNat ≤ m.maxBlocks.toNat) := by
  simp only [StartsClear, m.mmapFirstFreeS_eq_some_iff]
  constructor
  · intro h hfew b hfind
    exact h hfew b hfind.2.1 hfind.2.2.1 hfind.2.2.2
  · intro h hfew b hb hrun hfirst
    by_cases hsize : size = 0
    · -- the source refuses to look for no frames at all; the empty range has nothing to check
      subst hsize
      change (∀ n, b ≤ n → n < b + 0 → _) ∧ b + 0 ≤ _
      exact ⟨fun n h1 h2 ↦ absurd h2 (by omega), by omega⟩
    · exact h hfew b ⟨hsize, hb, hrun, hfirst⟩

/-! ## One call -/

theorem toNat_frame_mul {b : Nat} (h : b < 2 ^ 20) :
    (BitVec.ofNat 32 b * MEMORY_BLOCK_SIZE).toNat = b * 4096 := by
  have hsize : MEMORY_BLOCK_SIZE.toNat = 4096 := rfl
  rw [BitVec.toNat_mul, BitVec.toNat_ofNat, hsize]
  omega

theorem frame_mul_ne_zero {b : Nat} (h : b < 2 ^ 20) (hne : b ≠ 0) :
    BitVec.ofNat 32 b * MEMORY_BLOCK_SIZE ≠ 0 := by
  intro heq
  have hnat := congrArg BitVec.toNat heq
  rw [toNat_frame_mul h] at hnat
  change b * 4096 = 0 at hnat
  omega

theorem frames_frame_mul {b : Nat} (h : b < 2 ^ 20) (size : u32) (n : Nat) :
    Frames (BitVec.ofNat 32 b * MEMORY_BLOCK_SIZE, size) n ↔ b ≤ n ∧ n < b + size.toNat := by
  unfold Frames
  simp only [toNat_frame_mul h]
  omega

theorem frames_one_iff {b : Nat} (h : b < 2 ^ 20) (n : Nat) :
    Frames (BitVec.ofNat 32 b * MEMORY_BLOCK_SIZE, 1) n ↔ n = b := by
  rw [frames_frame_mul h]
  change b ≤ n ∧ n < b + 1 ↔ _
  omega

namespace MemMngr

/-- `alloc_memory_block` fails and changes nothing, or takes the first free frame. -/
theorem allocMemoryBlock_cases (m : MemMngr) : m.allocMemoryBlock = (m, 0) ∨
    ∃ b, 0 < m.getFreeBlockCount ∧ m.mmapFirstFree = some b ∧
      m.allocMemoryBlock.2 = BitVec.ofNat 32 b * MEMORY_BLOCK_SIZE ∧
      m.allocMemoryBlock.1.maxBlocks = m.maxBlocks ∧
      ∀ n, m.allocMemoryBlock.1.used n = true ↔ m.used n = true ∨ n = b := by
  unfold allocMemoryBlock
  by_cases hnone : m.getFreeBlockCount ≤ 0
  · rw [if_pos hnone]
    exact Or.inl rfl
  · rw [if_neg hnone]
    cases hfind : m.mmapFirstFree with
    | none => exact Or.inl rfl
    | some b =>
      refine Or.inr ⟨b, BitVec.not_le.mp hnone, rfl, rfl, rfl, fun n ↦ ?_⟩
      change (m.mmapSet b).used n = true ↔ _
      rw [mmapSet_used, Bool.or_eq_true, decide_eq_true_iff]

-- The call fails and changes nothing, or sets the bits of the run that the search finds.
theorem allocMemoryBlocks_cases (m : MemMngr) (size : u32) :
    (m.allocMemoryBlocks size = (m, 0) ∧
        ¬ (size < m.getFreeBlockCount ∧ (m.mmapFirstFreeS size).isSome)) ∨
      ∃ b, size < m.getFreeBlockCount ∧ m.mmapFirstFreeS size = some b ∧
        (m.allocMemoryBlocks size).2 = BitVec.ofNat 32 b * MEMORY_BLOCK_SIZE ∧
        (m.allocMemoryBlocks size).1.maxBlocks = m.maxBlocks ∧
        ∀ n, (m.allocMemoryBlocks size).1.used n = true ↔
          m.used n = true ∨ (b ≤ n ∧ n < b + size.toNat) := by
  unfold allocMemoryBlocks
  by_cases hfew : m.getFreeBlockCount ≤ size
  · rw [if_pos hfew]
    exact Or.inl ⟨rfl, fun h ↦ BitVec.not_lt.mpr hfew h.1⟩
  · rw [if_neg hfew]
    cases hfind : m.mmapFirstFreeS size with
    | none => exact Or.inl ⟨rfl, by simp⟩
    | some b =>
      have hloop := m.setLoop_used b size.toNat
      exact Or.inr ⟨b, BitVec.not_le.mp hfew, rfl, rfl, (hloop 0).1, fun n ↦ (hloop n).2⟩

theorem freeMemoryBlock_used (m : MemMngr) (p : u32) (n : Nat) :
    (m.freeMemoryBlock p).used n = true ↔ m.used n = true ∧ ¬ Frames (p, 1) n := by
  have hframe : (p / MEMORY_BLOCK_SIZE).toNat = p.toNat / 4096 := BitVec.toNat_udiv
  change (m.mmapUnset (p / MEMORY_BLOCK_SIZE).toNat).used n = true ↔ _
  rw [mmapUnset_used, hframe, Bool.and_eq_true, Bool.not_eq_true', decide_eq_false_iff_not]
  refine and_congr_right fun _ ↦ not_congr ?_
  change n = p.toNat / 4096 ↔ p.toNat / 4096 ≤ n ∧ n < p.toNat / 4096 + 1
  omega

theorem freeMemoryBlocks_used (m : MemMngr) (p size : u32) (n : Nat) :
    (m.freeMemoryBlocks p size).used n = true ↔ m.used n = true ∧ ¬ Frames (p, size) n := by
  have hframe : (p / MEMORY_BLOCK_SIZE).toNat = p.toNat / 4096 := BitVec.toNat_udiv
  have hloop := (m.unsetLoop_used (fun i m ↦ m.mmapUnset ((p / MEMORY_BLOCK_SIZE).toNat + i))
    _ size.toNat n fun _ _ ↦ ⟨rfl, rfl⟩).2
  rw [hframe] at hloop
  unfold freeMemoryBlocks
  rw [hframe]
  exact hloop

theorem freeMemoryBlocks_maxBlocks (m : MemMngr) (p size : u32) :
    (m.freeMemoryBlocks p size).maxBlocks = m.maxBlocks :=
  (m.unsetLoop_used (fun i m ↦ m.mmapUnset ((p / MEMORY_BLOCK_SIZE).toNat + i))
    _ size.toNat 0 fun _ _ ↦ ⟨rfl, rfl⟩).1

end MemMngr

/-- What every run keeps: the bits that are set belong to the initial map or to a live
allocation. -/
structure FrameInv (m₀ : MemMngr) (s : FrameState) : Prop where
  maxBlocks : s.mngr.maxBlocks = m₀.maxBlocks
  ledger : Ledger Frames (fun n ↦ m₀.used n = true) (fun n ↦ s.mngr.used n = true) s.live
  below : ∀ a ∈ s.live, ∀ n, Frames a n → n < m₀.maxBlocks.toNat

theorem FrameInv.distinct {m₀ : MemMngr} {s : FrameState} (h : FrameInv m₀ s) :
    FramesDistinct m₀ s := ⟨h.ledger.disjoint, h.below, h.ledger.fresh⟩

section Step

variable {m₀ : MemMngr} {s : FrameState} (h : FrameInv m₀ s) (hzero : m₀.used 0 = true)
  (hmax : m₀.maxBlocks.toNat ≤ 2 ^ 20)
include h

/-- A frame that the search returns has a number that fits an address, and is not frame 0. -/
theorem FrameInv.start_bound (hzero : m₀.used 0 = true) (hmax : m₀.maxBlocks.toNat ≤ 2 ^ 20) {b : Nat}
    (hb : b < 32 * (s.mngr.maxBlocks.toNat / 32)) (hclear : s.mngr.used b = false) :
    b < m₀.maxBlocks.toNat ∧ b < 2 ^ 20 ∧ b ≠ 0 := by
  rw [h.maxBlocks] at hb
  refine ⟨by omega, by omega, fun hb0 ↦ ?_⟩
  have hset := (h.ledger.used_iff 0).mpr (Or.inl hzero)
  rw [hb0, hset] at hclear
  cases hclear

include hzero hmax

theorem FrameInv.allocBlock : FrameInv m₀ (s.step .allocBlock) := by
  simp only [FrameState.step]
  rcases s.mngr.allocMemoryBlock_cases with hfail | ⟨b, -, hfind, hret, hmaxb, hused⟩
  · rw [hfail]
    exact h
  · obtain ⟨hb, hclear, -⟩ := (s.mngr.mmapFirstFree_eq_some_iff b).mp hfind
    have hbound := h.start_bound hzero hmax hb hclear
    rw [hret, if_neg (frame_mul_ne_zero hbound.2.1 hbound.2.2)]
    have hframes := frames_one_iff hbound.2.1
    refine ⟨hmaxb.trans h.maxBlocks, h.ledger.alloc (fun n hn ↦ ?_) (fun n ↦ ?_), fun a ha n hn ↦ ?_⟩
    · rw [(hframes n).mp hn, hclear]
      exact Bool.false_ne_true
    · rw [hframes]
      exact hused n
    · rcases List.mem_cons.mp ha with rfl | ha
      · rw [(hframes n).mp hn]
        exact hbound.1
      · exact h.below a ha n hn

/-- A call for several frames keeps the invariant exactly when its start is clear. -/
theorem FrameInv.allocBlocks_iff (size : u32) :
    FrameInv m₀ (s.step (.allocBlocks size)) ↔ StartsClear s.mngr size := by
  rw [startsClear_iff]
  simp only [FrameState.step]
  rcases s.mngr.allocMemoryBlocks_cases size with ⟨hfail, hnone⟩ | ⟨b, hfew, hfind, hret, hmaxb, hused⟩
  · -- nothing was found, and the state is as before
    rw [hfail]
    refine ⟨fun _ hfew b hfind ↦ absurd ⟨hfew, ?_⟩ hnone, fun _ ↦ h⟩
    rw [hfind]
    rfl
  · have hstart := (s.mngr.mmapFirstFreeS_eq_some_iff size b).mp hfind
    have hbound := h.start_bound hzero hmax hstart.2.1 hstart.2.2.1.1
    have hframes := frames_frame_mul hbound.2.1 size
    rw [hret, if_neg (frame_mul_ne_zero hbound.2.1 hbound.2.2)]
    constructor
    · intro hinv _ b' hfind'
      have hsame : b = b' := Option.some.inj (hfind.symm.trans hfind')
      subst hsame
      constructor
      · -- a frame of the range that was in use has an owner already
        intro n h1 h2
        by_contra hset
        exact h.ledger.not_alloc_of_used ((hframes n).mpr ⟨h1, h2⟩) (Bool.not_eq_false _ ▸ hset)
          hinv.ledger
      · -- a range that ends too late has frame `max_blocks`
        rw [h.maxBlocks]
        by_contra hover
        have hlast := hinv.below _ List.mem_cons_self m₀.maxBlocks.toNat
          ((hframes _).mpr ⟨Nat.le_of_lt hbound.1, by omega⟩)
        exact Nat.lt_irrefl _ hlast
    · intro hclear
      have hrange := hclear hfew b hfind
      rw [h.maxBlocks] at hrange
      refine ⟨hmaxb.trans h.maxBlocks, h.ledger.alloc (fun n hn ↦ ?_) (fun n ↦ ?_), fun a ha n hn ↦ ?_⟩
      · have hin := (hframes n).mp hn
        rw [hrange.1 n hin.1 hin.2]
        exact Bool.false_ne_true
      · rw [hframes]
        exact hused n
      · rcases List.mem_cons.mp ha with rfl | ha
        · have hin := (hframes n).mp hn
          omega
        · exact h.below a ha n hn

omit hzero hmax in
theorem FrameInv.free {p size : u32} {m : MemMngr} (hmem : (p, size) ∈ s.live)
    (hmaxb : m.maxBlocks = s.mngr.maxBlocks)
    (hused : ∀ n, m.used n = true ↔ s.mngr.used n = true ∧ ¬ Frames (p, size) n) :
    FrameInv m₀ { mngr := m, live := s.live.erase (p, size) } where
  maxBlocks := hmaxb.trans h.maxBlocks
  ledger := h.ledger.free hmem hused
  below a ha := h.below a (List.mem_of_mem_erase ha)

theorem FrameInv.step (call : FrameCall) (hok : call.ok s) (hclear : call.clear s) :
    FrameInv m₀ (s.step call) := by
  cases call with
  | allocBlock => exact h.allocBlock hzero hmax
  | allocBlocks size => exact (h.allocBlocks_iff hzero hmax size).mpr hclear
  | freeBlock p => exact h.free hok rfl (s.mngr.freeMemoryBlock_used p)
  | freeBlocks p size =>
    exact h.free hok (s.mngr.freeMemoryBlocks_maxBlocks p size) (s.mngr.freeMemoryBlocks_used p size)

end Step

/-! ## Every run -/

/-- As long as every search for several frames ends on a clear start, no frame is handed out twice,
none that was in use at the start is handed out, and all lie below `max_blocks`. -/
theorem frames_distinct_of_run {m₀ : MemMngr} {s : FrameState} (hzero : m₀.used 0 = true)
    (hmax : m₀.maxBlocks.toNat ≤ 2 ^ 20)
    (hrun : Run FrameState.step (fun s call ↦ FrameCall.ok s call ∧ FrameCall.clear s call)
      ⟨m₀, []⟩ s) : FramesDistinct m₀ s := by
  have hstart : FrameInv m₀ ⟨m₀, []⟩ :=
    ⟨rfl, Ledger.nil Frames _, fun a ha ↦ absurd ha List.not_mem_nil⟩
  have hinv := hrun.inv (FrameInv m₀) hstart
    fun s call h hok ↦ h.step hzero hmax call hok.1 hok.2
  exact hinv.distinct

/-- Thirty-two frames, of which only the first is in use. -/
def freshMngr : MemMngr where
  memMngr := fun i ↦ if i = 0 then 1#32 else 0#32
  maxBlocks := 32#32
  usedBlocks := 1#32
  size := 128#32

/-- Three calls on `freshMngr`: frame 1, frames 2 and 3, and frame 1 is given back. -/
theorem frames_distinct_freshMngr :
    FramesDistinct freshMngr ((((FrameState.mk freshMngr []).step .allocBlock).step
      (.allocBlocks 2#32)).step (.freeBlock 4096#32)) := by
  have hclear : StartsClear ((FrameState.mk freshMngr []).step .allocBlock).mngr 2#32 := by
    rw [startsClear_iff]
    intro _ b hfind
    have hsome : ((FrameState.mk freshMngr []).step .allocBlock).mngr.mmapFirstFreeS 2#32 = some 2 := by
      decide +kernel
    cases hsome.symm.trans hfind
    refine ⟨fun n h1 h2 ↦ ?_, by decide +kernel⟩
    change n < 4 at h2
    have hn : n = 2 ∨ n = 3 := by omega
    rcases hn with rfl | rfl <;> decide +kernel
  refine frames_distinct_of_run (by decide) (by decide)
    (.step (.step (.step .start ⟨trivial, trivial⟩) ⟨trivial, hclear⟩) ⟨?_, trivial⟩)
  change (4096#32, 1#32) ∈ _
  decide +kernel

/-- Frames 0 and 2 of thirty-two are in use. -/
def gapMngr : MemMngr where
  memMngr := fun i ↦ if i = 0 then 5#32 else 0#32
  maxBlocks := 32#32
  usedBlocks := 2#32
  size := 128#32

/-- Asked for two frames, the allocator hands out frames 1 and 2. -/
theorem not_frames_distinct_gapMngr : gapMngr.used 0 = true ∧ gapMngr.maxBlocks.toNat ≤ 2 ^ 20 ∧
    gapMngr.usedBlocks.toNat = (List.range gapMngr.maxBlocks.toNat).countP gapMngr.used ∧
    ¬ ∀ s, Run FrameState.step (fun s call ↦ FrameCall.ok s call) ⟨gapMngr, []⟩ s →
      FramesDistinct gapMngr s := by
  refine ⟨by decide, by decide, by decide +kernel, fun hall ↦ ?_⟩
  have hlive : ((FrameState.mk gapMngr []).step (.allocBlocks 2#32)).live = [(4096#32, 2#32)] := by
    decide +kernel
  have hfirst : FrameCall.ok (FrameState.mk gapMngr []) (.allocBlocks 2#32) := trivial
  have hfresh := (hall _ (.step .start hfirst)).fresh
  rw [hlive] at hfresh
  exact hfresh _ List.mem_cons_self 2 (by unfold Frames; decide) (by decide)

end TenOs.Mm
