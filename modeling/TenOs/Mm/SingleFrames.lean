import TenOs.Mm.Frames

/-!
# Single frames

On runs of `alloc_memory_block` and `free_memory_block` the allocator is a set of frames with a
counter: the least frame that is not in the set goes in, and what is given back goes out.
-/

namespace TenOs.Mm

open TenOs.Base TenOs.Lib

/-! ## Counting marks -/

-- One more mark counts one more, when it is in range.
theorem countP_range_mark {p p' : Nat → Bool} {b : Nat} (hclear : p b = false)
    (hmark : ∀ n, p' n = true ↔ p n = true ∨ n = b) (k : Nat) :
    (List.range k).countP p' = (List.range k).countP p + if b < k then 1 else 0 := by
  induction k with
  | zero => simp
  | succ k ih =>
    have hlast : p' k = (p k || decide (k = b)) := by
      rw [Bool.eq_iff_iff, hmark, Bool.or_eq_true, decide_eq_true_iff]
    simp only [List.range_succ, List.countP_append, List.countP_singleton, ih, hlast]
    by_cases hk : k = b
    · subst hk
      simp [hclear]
    · by_cases hb : b < k
      · simp [hk, hb, show b < k + 1 by omega, Nat.add_right_comm]
      · simp [hk, hb, show ¬ b < k + 1 by omega]

-- The mirror image: `p` marks `b` on top of what `p'` marks.
theorem countP_range_unmark {p p' : Nat → Bool} {b k : Nat} (hb : b < k) (hset : p b = true)
    (hunmark : ∀ n, p' n = true ↔ p n = true ∧ n ≠ b) :
    (List.range k).countP p = (List.range k).countP p' + 1 := by
  have hclear : p' b = false := by
    rw [← Bool.not_eq_true, hunmark]
    exact fun h ↦ h.2 rfl
  have hmark (n : Nat) : p n = true ↔ p' n = true ∨ n = b := by
    rw [hunmark]
    by_cases hn : n = b
    · simp [hn, hset]
    · simp [hn]
  rw [countP_range_mark hclear hmark k, if_pos hb]

theorem countP_range_le (p : Nat → Bool) (k : Nat) : (List.range k).countP p ≤ k := by
  have hle := List.countP_le_length (p := p) (l := List.range k)
  simpa using hle

theorem countP_range_eq_iff (p : Nat → Bool) (k : Nat) :
    (List.range k).countP p = k ↔ ∀ n < k, p n = true := by
  have hall := List.countP_eq_length (p := p) (l := List.range k)
  simpa using hall

/-! ## The counter -/

namespace MemMngr

/-- `mem_mngr_used_blocks` counts the bits that are set below `max_blocks`. -/
def Counted (m : MemMngr) : Prop :=
  m.usedBlocks.toNat = (List.range m.maxBlocks.toNat).countP m.used

theorem Counted.freeBlockCount {m : MemMngr} (h : m.Counted) :
    m.getFreeBlockCount.toNat =
      m.maxBlocks.toNat - (List.range m.maxBlocks.toNat).countP m.used := by
  have hle := countP_range_le m.used m.maxBlocks.toNat
  unfold Counted at h
  rw [getFreeBlockCount, BitVec.toNat_sub_of_le (by rw [BitVec.le_def]; omega), h]

theorem mmapFirstFree_isSome {m : MemMngr} (hwords : m.maxBlocks.toNat % 32 = 0) {n : Nat}
    (hn : n < m.maxBlocks.toNat) (hclear : m.used n = false) : ∃ b, m.mmapFirstFree = some b := by
  have hex : ∃ n, m.used n = false := ⟨n, hclear⟩
  refine ⟨Nat.find hex, (m.mmapFirstFree_eq_some_iff _).mpr ⟨?_, Nat.find_spec hex, fun k hk ↦ ?_⟩⟩
  · have hle := Nat.find_min' hex hclear
    omega
  · exact Bool.not_eq_false _ ▸ Nat.find_min hex hk

/-- With the counter right, `alloc_memory_block` fails when all frames are in use, and takes the
least free frame else. -/
theorem Counted.allocMemoryBlock {m : MemMngr} (h : m.Counted) (hwords : m.maxBlocks.toNat % 32 = 0) :
    (∀ n < m.maxBlocks.toNat, m.used n = true) ∧ m.allocMemoryBlock = (m, 0) ∨
      ∃ b < m.maxBlocks.toNat, m.used b = false ∧ (∀ n < b, m.used n = true) ∧
        m.allocMemoryBlock = ({ m.mmapSet b with usedBlocks := m.usedBlocks + 1 },
          BitVec.ofNat 32 b * MEMORY_BLOCK_SIZE) := by
  have hcount := h.freeBlockCount
  have hle := countP_range_le m.used m.maxBlocks.toNat
  unfold MemMngr.allocMemoryBlock
  by_cases hall : ∀ n < m.maxBlocks.toNat, m.used n = true
  · left
    have hfull := (countP_range_eq_iff m.used m.maxBlocks.toNat).mpr hall
    rw [hfull, Nat.sub_self] at hcount
    rw [if_pos (by rw [BitVec.le_def, hcount]; exact Nat.zero_le _)]
    exact ⟨hall, rfl⟩
  · right
    have hnot := mt (countP_range_eq_iff m.used m.maxBlocks.toNat).mp hall
    have hfree : ¬ m.getFreeBlockCount ≤ 0 := by
      rw [BitVec.le_def, hcount]
      change ¬ _ ≤ 0
      omega
    obtain ⟨n, hn, hclear⟩ : ∃ n < m.maxBlocks.toNat, m.used n = false := by
      simpa using hall
    obtain ⟨b, hfind⟩ := mmapFirstFree_isSome hwords hn hclear
    have hb := (m.mmapFirstFree_eq_some_iff b).mp hfind
    refine ⟨b, by omega, hb.2.1, hb.2.2, ?_⟩
    rw [if_neg hfree, hfind]

end MemMngr

/-! ## Runs -/

/-- A call of `alloc_memory_block`, or one of `free_memory_block` for a live address. -/
def FrameCall.single (s : FrameState) : FrameCall → Prop
  | .allocBlock => True
  | .freeBlock p => (p, 1) ∈ s.live
  | _ => False

/-- The bit array against the set of the frames of `m₀` and the live ones. -/
structure MatchesSet (m₀ : MemMngr) (s : FrameState) : Prop where
  bits : ∀ n, s.mngr.used n = true ↔ m₀.used n = true ∨ ∃ p, (p, 1) ∈ s.live ∧ p.toNat = 4096 * n
  counter : s.mngr.usedBlocks.toNat = (List.range m₀.maxBlocks.toNat).countP s.mngr.used
  live : ∀ a ∈ s.live, a.2 = 1 ∧ a.1 ≠ 0 ∧ a.1.toNat % 4096 = 0 ∧
    a.1.toNat < 4096 * m₀.maxBlocks.toNat
  distinct : (s.live.map Prod.fst).Nodup
  fails_iff : s.mngr.allocMemoryBlock.2 = 0 ↔ ∀ n < m₀.maxBlocks.toNat, s.mngr.used n = true
  fails : s.mngr.allocMemoryBlock.2 = 0 → s.mngr.allocMemoryBlock.1 = s.mngr
  least : s.mngr.allocMemoryBlock.2 ≠ 0 → ∃ b < m₀.maxBlocks.toNat,
    s.mngr.allocMemoryBlock.2.toNat = 4096 * b ∧ s.mngr.used b = false ∧
      ∀ n < b, s.mngr.used n = true

/-- What the runs keep besides `FrameInv`. -/
structure SingleInv (m₀ : MemMngr) (s : FrameState) : Prop extends FrameInv m₀ s where
  counted : s.mngr.Counted
  single : ∀ a ∈ s.live, ∃ b < m₀.maxBlocks.toNat, b ≠ 0 ∧
    a = (BitVec.ofNat 32 b * MEMORY_BLOCK_SIZE, 1)

section Step

variable {m₀ : MemMngr} {s : FrameState} (h : SingleInv m₀ s) (hzero : m₀.used 0 = true)
  (hwords : m₀.maxBlocks.toNat % 32 = 0) (hmax : m₀.maxBlocks.toNat ≤ 2 ^ 20)
include h hzero hwords hmax

-- The bit found was clear, so setting it adds one to the count.
theorem SingleInv.allocBlock : SingleInv m₀ (s.step .allocBlock) := by
  have hframe := h.toFrameInv.allocBlock hzero hmax
  have hsame := h.maxBlocks
  rcases h.counted.allocMemoryBlock (by rw [hsame]; exact hwords) with
    ⟨-, hfail⟩ | ⟨b, hb, hclear, -, hret⟩
  · have hstep : s.step .allocBlock = s := by
      simp only [FrameState.step, hfail, if_true]
    rw [hstep]
    exact h
  · rw [hsame] at hb
    have hbound := h.start_bound hzero hmax (by rw [hsame]; omega) hclear
    have hstep : s.step .allocBlock =
        ⟨{ s.mngr.mmapSet b with usedBlocks := s.mngr.usedBlocks + 1 },
          (BitVec.ofNat 32 b * MEMORY_BLOCK_SIZE, 1) :: s.live⟩ := by
      simp only [FrameState.step, hret]
      rw [if_neg (frame_mul_ne_zero hbound.2.1 hbound.2.2)]
    rw [hstep] at hframe ⊢
    refine ⟨hframe, ?_, fun a ha ↦ ?_⟩
    · have hmark (n : Nat) : (s.mngr.mmapSet b).used n = true ↔ s.mngr.used n = true ∨ n = b := by simp
      have hcount := countP_range_mark hclear hmark s.mngr.maxBlocks.toNat
      have hle := countP_range_le (s.mngr.mmapSet b).used s.mngr.maxBlocks.toNat
      have hused := h.counted
      have hone : (1 : u32).toNat = 1 := rfl
      rw [hsame, if_pos hb] at hcount
      unfold MemMngr.Counted at hused ⊢
      change (s.mngr.usedBlocks + 1).toNat =
        (List.range s.mngr.maxBlocks.toNat).countP (s.mngr.mmapSet b).used
      rw [hsame] at hused hle ⊢
      rw [BitVec.toNat_add, hone]
      omega
    · rcases List.mem_cons.mp ha with rfl | ha
      · exact ⟨b, hb, hbound.2.2, rfl⟩
      · exact h.single a ha

omit hzero hwords in
-- The bit of a live block is set, so clearing it takes one off the count.
theorem SingleInv.freeBlock {p : u32} (hlive : (p, 1) ∈ s.live) :
    SingleInv m₀ (s.step (.freeBlock p)) := by
  have hframe : FrameInv m₀ (s.step (.freeBlock p)) :=
    h.toFrameInv.free hlive rfl (s.mngr.freeMemoryBlock_used p)
  refine ⟨hframe, ?_, fun a ha ↦ h.single a (List.mem_of_mem_erase ha)⟩
  obtain ⟨b, hb, hb0, hp⟩ := h.single _ hlive
  have hframes (n : Nat) : Frames (p, 1) n ↔ n = b := by
    rw [hp]
    exact frames_one_iff (by omega) n
  have hset : s.mngr.used b = true :=
    (h.ledger.used_iff b).mpr (Or.inr ⟨_, hlive, (hframes b).mpr rfl⟩)
  have hunmark (n : Nat) : (s.mngr.freeMemoryBlock p).used n = true ↔ s.mngr.used n = true ∧ n ≠ b := by
    rw [s.mngr.freeMemoryBlock_used p, hframes]
  have hcount := countP_range_unmark hb hset hunmark
  have hused := h.counted
  have hle := countP_range_le s.mngr.used m₀.maxBlocks.toNat
  have hone : (1 : u32).toNat = 1 := rfl
  unfold MemMngr.Counted at hused ⊢
  rw [h.maxBlocks] at hused
  change (s.mngr.usedBlocks - 1).toNat =
    (List.range s.mngr.maxBlocks.toNat).countP (s.mngr.freeMemoryBlock p).used
  rw [h.maxBlocks, BitVec.toNat_sub_of_le (by rw [BitVec.le_def, hone]; omega), hone]
  omega

theorem SingleInv.step (call : FrameCall) (hsingle : call.single s) : SingleInv m₀ (s.step call) := by
  cases call with
  | allocBlock => exact h.allocBlock hzero hwords hmax
  | freeBlock p => exact h.freeBlock hmax hsingle
  | allocBlocks size => exact hsingle.elim
  | freeBlocks p size => exact hsingle.elim

-- The invariant in terms of a set of addresses, with what the next call returns.
theorem SingleInv.matchesSet : MatchesSet m₀ s := by
  have haddr {b : Nat} (hb : b < m₀.maxBlocks.toNat) :
      (BitVec.ofNat 32 b * MEMORY_BLOCK_SIZE).toNat = b * 4096 := toNat_frame_mul (by omega)
  have hsame := h.maxBlocks
  have hcases := h.counted.allocMemoryBlock (by rw [hsame]; exact hwords)
  rw [hsame] at hcases
  -- the address of a free frame is not 0
  have hret_ne {b : Nat} (hb : b < m₀.maxBlocks.toNat) (hclear : s.mngr.used b = false) :
      BitVec.ofNat 32 b * MEMORY_BLOCK_SIZE ≠ 0 := by
    have hbound := h.start_bound hzero hmax (by rw [hsame]; omega) hclear
    exact frame_mul_ne_zero hbound.2.1 hbound.2.2
  constructor
  · intro n
    rw [h.ledger.used_iff n]
    refine or_congr Iff.rfl ⟨fun hex ↦ ?_, fun hex ↦ ?_⟩
    · obtain ⟨a, ha, hn⟩ := hex
      obtain ⟨b, hb, -, rfl⟩ := h.single a ha
      rw [frames_one_iff (by omega)] at hn
      refine ⟨_, ha, ?_⟩
      rw [haddr hb, hn, Nat.mul_comm]
    · obtain ⟨p, hp, hn⟩ := hex
      refine ⟨_, hp, ?_⟩
      change p.toNat / 4096 ≤ n ∧ n < p.toNat / 4096 + 1
      omega
  · have hused := h.counted
    unfold MemMngr.Counted at hused
    rwa [hsame] at hused
  · intro a ha
    obtain ⟨b, hb, hb0, rfl⟩ := h.single a ha
    have hnat := haddr hb
    exact ⟨rfl, frame_mul_ne_zero (by omega) hb0, by simp only [hnat]; omega, by simp only [hnat]; omega⟩
  · -- two live allocations of one address would share its frame
    rw [List.Nodup, List.pairwise_map]
    refine h.ledger.disjoint.imp_of_mem fun {a b} ha _ hdisj heq ↦ ?_
    obtain ⟨n, hn, -, rfl⟩ := h.single a ha
    obtain ⟨k, hk, -, rfl⟩ := h.single b ‹_›
    simp only at heq
    rw [heq] at hdisj
    have hframe := (frames_one_iff (show k < 2 ^ 20 by omega) k).mpr rfl
    exact hdisj k hframe hframe
  · rcases hcases with ⟨hall, hfail⟩ | ⟨b, hb, hclear, hleast, hret⟩
    · rw [hfail]
      exact iff_of_true rfl hall
    · rw [hret]
      refine iff_of_false (hret_ne hb hclear) fun hall ↦ ?_
      rw [hall b hb] at hclear
      cases hclear
  · intro hfails
    rcases hcases with ⟨-, hfail⟩ | ⟨b, hb, hclear, hleast, hret⟩
    · rw [hfail]
    · rw [hret] at hfails
      exact absurd hfails (hret_ne hb hclear)
  · intro hne
    rcases hcases with ⟨-, hfail⟩ | ⟨b, hb, hclear, hleast, hret⟩
    · rw [hfail] at hne
      exact absurd rfl hne
    · refine ⟨b, hb, ?_, hclear, hleast⟩
      rw [hret]
      simp only [haddr hb, Nat.mul_comm]

end Step

/-- In every run of single calls the bit array is the initial one with the live frames, the counter
is right, and the next allocation takes the least free frame or fails because there is none. -/
theorem matchesSet_of_run {m₀ : MemMngr} {s : FrameState} (hzero : m₀.used 0 = true)
    (hwords : m₀.maxBlocks.toNat % 32 = 0) (hmax : m₀.maxBlocks.toNat ≤ 2 ^ 20)
    (hcount : m₀.usedBlocks.toNat = (List.range m₀.maxBlocks.toNat).countP m₀.used)
    (hrun : Run FrameState.step (fun s call ↦ FrameCall.single s call) ⟨m₀, []⟩ s) :
    MatchesSet m₀ s := by
  have hstart : SingleInv m₀ ⟨m₀, []⟩ :=
    ⟨⟨rfl, Ledger.nil Frames _, fun a ha ↦ absurd ha List.not_mem_nil⟩, hcount,
      fun a ha ↦ absurd ha List.not_mem_nil⟩
  have hinv := hrun.inv (SingleInv m₀) hstart
    fun s call h hsingle ↦ h.step hzero hwords hmax call hsingle
  exact hinv.matchesSet hzero hwords hmax

/-- On `freshMngr`, frame 1 is taken and given back. -/
theorem matchesSet_freshMngr :
    MatchesSet freshMngr (((FrameState.mk freshMngr []).step .allocBlock).step (.freeBlock 4096#32)) := by
  refine matchesSet_of_run (by decide) (by decide) (by decide) (by decide +kernel)
    (.step (.step .start trivial) ?_)
  change (4096#32, 1#32) ∈ _
  decide +kernel

end TenOs.Mm
