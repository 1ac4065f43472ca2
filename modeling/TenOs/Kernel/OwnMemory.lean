import TenOs.Kernel.Start
import TenOs.Mm.SingleFrames

/-!
# The kernel's own memory

`main` gives the frame allocator the regions of the memory map and never takes its own memory out of
them: the image, the bit array behind it and the stack stay on offer, and what keeps them is only that
the search starts at the low end.
-/

namespace TenOs.Kernel

open TenOs.Base TenOs.Lib TenOs.Mm TenOs.Fs

-- The allocator with its live allocations serves paging as well, so that the frames of page tables
-- are live allocations too.
instance : FrameAllocator FrameState where
  allocMemoryBlock s := (s.step .allocBlock, s.mngr.allocMemoryBlock.2)

/-! ## The calls after `main` -/

/-- No allocation is live yet. -/
def withLedger (s : Machine MemMngr) : Machine FrameState where
  frames := { mngr := s.frames, live := [] }
  mem := s.mem
  cr3 := s.cr3
  curDirectory := s.curDirectory
  curPdbr := s.curPdbr
  kernelDirectory := s.kernelDirectory
  kernelDirectoryPhysical := s.kernelDirectoryPhysical

inductive KernelCall
  | allocBlock
  | allocBlocks (size : u32)
  | allocPage

/-- After a page fault there is no further state. -/
def kernelStep (s : Machine FrameState) : KernelCall → Machine FrameState
  | .allocBlock => s.allocMemoryBlock.1
  | .allocBlocks size => { s with frames := s.frames.step (.allocBlocks size) }
  | .allocPage => (s.vmmngrAllocPage.map Prod.fst).getD s

/-! ## What the kernel owns -/

/-- Frame `n` has a byte in `lo .. hi`. -/
def Meets (n lo hi : Nat) : Prop := max lo (4096 * n) < min hi (4096 * (n + 1))

/-- `bitmap_addr`. -/
def bitmapAddr (kernelEnd : u32) : u32 := (kernelEnd + 0xFFF) &&& ~~~0xFFF

/-- The image, the bit array and the stack, by physical addresses. -/
def KernelOwns (kernelEnd : u32) (bootinfo : MultibootInfo) (n : Nat) : Prop :=
  Meets n 0x100000 (kernelEnd.toNat - 0xC0000000) ∨
  Meets n ((bitmapAddr kernelEnd).toNat - 0xC0000000)
    ((bitmapAddr kernelEnd).toNat - 0xC0000000 + bootinfo.frameCount / 8) ∨
  Meets n 0x180000 0x190000

/-- No live allocation has a frame of the kernel's. -/
def KeepsOwn (owns : Nat → Prop) (s : FrameState) : Prop :=
  ∀ a ∈ s.live, ∀ n, Frames a n → ¬ owns n

/-- Whenever the search could end on a range with one of the kernel's frames, it could also end on a
range below that frame. -/
def RoomBelow (owns : Nat → Prop) (m : MemMngr) (size : Nat) : Prop :=
  ∀ n, owns n → ∀ b < 32 * (m.maxBlocks.toNat / 32), m.StartsRun size b → b ≤ n → n < b + size →
    ∃ b', m.StartsRun size b' ∧ b' + size ≤ n

/-- `n` is the least frame on offer. -/
def LeastFree (m : MemMngr) (n : Nat) : Prop :=
  n < 32 * (m.maxBlocks.toNat / 32) ∧ m.used n = false ∧ ∀ k < n, m.used k = true

/-- The condition on a call.  Where a page needs a page table, there is room for two frames. -/
def KernelCall.roomy (owns : Nat → Prop) (s : Machine FrameState) : KernelCall → Prop
  | .allocBlock => 0 < s.frames.mngr.getFreeBlockCount → RoomBelow owns s.frames.mngr 1
  | .allocBlocks size =>
      size < s.frames.mngr.getFreeBlockCount → RoomBelow owns s.frames.mngr size.toNat
  | .allocPage =>
      (0 < s.frames.mngr.getFreeBlockCount → RoomBelow owns s.frames.mngr 1) ∧
      (1 < s.frames.mngr.getFreeBlockCount → ∀ b, LeastFree s.frames.mngr b →
        s.TableMissing (P2V (BitVec.ofNat 32 b * MEMORY_BLOCK_SIZE)) →
          RoomBelow owns (s.frames.mngr.mmapSet b) 1)

/-- The call returns: it ends in no page fault. -/
def KernelCall.Returns (s : Machine FrameState) : KernelCall → Prop
  | .allocPage => s.vmmngrAllocPage.isSome
  | _ => True

/-! ## One call -/

variable {owns : Nat → Prop}

-- The search takes the least start, and below a range that it could take there is a free one exactly
-- when the least is such a range.
theorem roomBelow_iff (m : MemMngr) (size : u32) : RoomBelow owns m size.toNat ↔
    ∀ b, m.mmapFirstFreeS size = some b → ∀ n, b ≤ n → n < b + size.toNat → ¬ owns n := by
  constructor
  · intro h b hfind n hlow hhigh hown
    obtain ⟨-, hb, hrun, hleast⟩ := (m.mmapFirstFreeS_eq_some_iff size b).mp hfind
    obtain ⟨b', hrun', hbelow⟩ := h n hown b hb hrun hlow hhigh
    exact hleast b' (by omega) hrun'
  · intro h n hown b hb hrun hlow hhigh
    have hex : ∃ b, m.StartsRun size.toNat b := ⟨b, hrun⟩
    classical
    have hle : Nat.find hex ≤ b := Nat.find_min' hex hrun
    have hfind : m.mmapFirstFreeS size = some (Nat.find hex) := by
      refine (m.mmapFirstFreeS_eq_some_iff size _).mpr ⟨fun hzero ↦ ?_, by omega, Nat.find_spec hex,
        fun n hn ↦ Nat.find_min hex hn⟩
      rw [hzero] at hhigh
      change n < b + 0 at hhigh
      omega
    refine ⟨_, Nat.find_spec hex, ?_⟩
    by_contra hlt
    exact h _ hfind n (by omega) (by omega) hown

theorem roomBelow_one_iff (m : MemMngr) :
    RoomBelow owns m 1 ↔ ∀ b, m.mmapFirstFree = some b → ¬ owns b := by
  have hone : m.mmapFirstFreeS 1 = m.mmapFirstFree := rfl
  refine (roomBelow_iff m 1).trans (forall_congr' fun b ↦ ?_)
  rw [hone]
  refine imp_congr_right fun _ ↦ ⟨fun h ↦ h b (Nat.le_refl b) (Nat.lt_succ_self b), fun h n hlow hhigh ↦ ?_⟩
  change n < b + 1 at hhigh
  rwa [show n = b by omega]

section Calls

variable {s : FrameState} (h : Sized s.mngr) (hkeeps : KeepsOwn owns s)
include h hkeeps

-- The block found is the least free one, and all hangs on whose that is.
theorem allocBlock_iff : KeepsOwn owns (s.step .allocBlock) ↔
    (0 < s.mngr.getFreeBlockCount → RoomBelow owns s.mngr 1) := by
  rw [roomBelow_one_iff]
  simp only [FrameState.step]
  rcases h.allocMemoryBlock_cases with ⟨hfail, hnone⟩ | ⟨b, hfree, hfind, hlt, hne, hret⟩
  · rw [hfail]
    exact iff_of_true hkeeps fun hfree b hfind ↦ absurd ⟨hfree, b, hfind⟩ hnone
  · rw [hret, if_neg hne]
    refine List.forall_mem_cons.trans ((and_iff_left hkeeps).trans ?_)
    simp only [frames_one_iff hlt, forall_eq, hfree, forall_const, hfind, Option.some.injEq, forall_eq']

theorem allocBlocks_iff (size : u32) : KeepsOwn owns (s.step (.allocBlocks size)) ↔
    (size < s.mngr.getFreeBlockCount → RoomBelow owns s.mngr size.toNat) := by
  rw [roomBelow_iff]
  simp only [FrameState.step]
  rcases s.mngr.allocMemoryBlocks_cases size with ⟨hfail, hnone⟩ | ⟨b, hfew, hfind, hret, -, -⟩
  · rw [hfail]
    exact iff_of_true hkeeps fun hfew b hfind ↦ absurd ⟨hfew, by rw [hfind]; rfl⟩ hnone
  · obtain ⟨-, hb, hrun, -⟩ := (s.mngr.mmapFirstFreeS_eq_some_iff size b).mp hfind
    obtain ⟨hne, hlt⟩ := h.start hb hrun.1
    rw [hret, if_neg (frame_mul_ne_zero hlt hne)]
    refine List.forall_mem_cons.trans ((and_iff_left hkeeps).trans ?_)
    simp only [frames_frame_mul hlt, and_imp, hfew, forall_const, hfind, Option.some.injEq, forall_eq']

omit h hkeeps in
-- A call only adds to what is live.
theorem KeepsOwn.of_allocBlock (hafter : KeepsOwn owns (s.step .allocBlock)) : KeepsOwn owns s := by
  intro a ha
  apply hafter a
  simp only [FrameState.step]
  split
  · exact ha
  · exact List.mem_cons_of_mem _ ha

end Calls

-- Once `b` is taken, there is one frame fewer.
theorem room_taken_iff {m m' : MemMngr} {b : Nat} (hfree : 0 < m.getFreeBlockCount)
    (htaken : m' = { m.mmapSet b with usedBlocks := m.usedBlocks + 1 }) :
    (0 < m'.getFreeBlockCount → RoomBelow owns m' 1) ↔
      (1 < m.getFreeBlockCount → RoomBelow owns (m.mmapSet b) 1) := by
  rw [htaken]
  refine imp_congr ?_ Iff.rfl
  change 0 < m.maxBlocks - (m.usedBlocks + 1) ↔ _
  unfold MemMngr.getFreeBlockCount at hfree ⊢
  bv_omega

theorem allocPage_iff {s s' : Machine FrameState} {v : u32} (h : Sized s.frames.mngr)
    (hkeeps : KeepsOwn owns s.frames) (hret : s.vmmngrAllocPage = some (s', v)) :
    KeepsOwn owns s'.frames ↔ KernelCall.roomy owns s .allocPage := by
  have hfirst := allocBlock_iff h hkeeps
  have hret₂ : s.allocMemoryBlock.2 = s.frames.mngr.allocMemoryBlock.2 := rfl
  simp only [Machine.vmmngrAllocPage, hret₂] at hret
  rcases h.allocMemoryBlock_cases with ⟨hfail, hnone⟩ | ⟨b, hfree, hfind, hlt, hne, hblock⟩
  · rw [hfail, if_pos rfl, Option.some.injEq] at hret
    cases hret
    refine hfirst.trans (and_iff_left fun hmore b hleast ↦ absurd ⟨?_, b, ?_⟩ hnone).symm
    · bv_omega
    · exact (s.frames.mngr.mmapFirstFree_eq_some_iff b).mpr hleast
  · have hleast : LeastFree s.frames.mngr b := (s.frames.mngr.mmapFirstFree_eq_some_iff b).mp hfind
    have hunique {b' : Nat} (hleast' : LeastFree s.frames.mngr b') : b' = b :=
      Option.some.inj (((s.frames.mngr.mmapFirstFree_eq_some_iff b').mpr hleast').symm.trans hfind)
    rw [hblock, if_neg hne] at hret
    obtain ⟨t, hmap, ht⟩ := Option.map_eq_some_iff.mp hret
    cases ht
    rcases Machine.vmmngrMapPage_frames hmap with ⟨hor, hsame⟩ | ⟨hmissing, hcall⟩
    · -- the table is there
      rw [hsame]
      refine hfirst.trans (and_iff_left fun _ b' hleast' hmissing ↦ ?_).symm
      rw [hunique hleast'] at hmissing
      exact absurd hmissing (hor.resolve_left hne)
    · -- the table's frame comes from a second call
      rw [hcall]
      have htaken : (s.frames.step .allocBlock).mngr =
          { s.frames.mngr.mmapSet b with usedBlocks := s.frames.mngr.usedBlocks + 1 } :=
        congrArg Prod.fst hblock
      constructor
      · intro hafter
        have hkeeps₁ : KeepsOwn owns (s.frames.step .allocBlock) := KeepsOwn.of_allocBlock hafter
        refine ⟨hfirst.mp hkeeps₁, fun hmore b' hleast' _ ↦ ?_⟩
        rw [hunique hleast']
        exact (room_taken_iff hfree htaken).mp ((allocBlock_iff h.allocMemoryBlock hkeeps₁).mp hafter) hmore
      · rintro ⟨hroom₁, hroom₂⟩
        have hkeeps₁ := hfirst.mpr hroom₁
        exact (allocBlock_iff h.allocMemoryBlock hkeeps₁).mpr
          ((room_taken_iff hfree htaken).mpr fun hmore ↦ hroom₂ hmore b hleast hmissing)

/-- A call that comes back gives away no frame of the kernel's exactly when it is roomy. -/
theorem kernelStep_iff {s : Machine FrameState} (h : Sized s.frames.mngr) (hkeeps : KeepsOwn owns s.frames)
    (call : KernelCall) (hreturns : call.Returns s) :
    KeepsOwn owns (kernelStep s call).frames ↔ call.roomy owns s := by
  cases call with
  | allocBlock => exact allocBlock_iff h hkeeps
  | allocBlocks size => exact allocBlocks_iff h hkeeps size
  | allocPage =>
    obtain ⟨⟨s', v⟩, hret⟩ := Option.isSome_iff_exists.mp hreturns
    have hstep : kernelStep s .allocPage = s' := by
      simp only [kernelStep, hret, Option.map_some, Option.getD_some]
    rw [hstep]
    exact allocPage_iff h hkeeps hret

theorem kernelStep_of_fault {s : Machine FrameState} {call : KernelCall} (h : ¬ call.Returns s) :
    kernelStep s call = s := by
  cases call with
  | allocBlock => exact absurd trivial h
  | allocBlocks size => exact absurd trivial h
  | allocPage =>
    have hnone : s.vmmngrAllocPage = none := Option.not_isSome_iff_eq_none.mp h
    simp only [kernelStep, hnone, Option.map_none, Option.getD_none]

theorem kernelStep_sized {s : Machine FrameState} (h : Sized s.frames.mngr) (call : KernelCall) :
    Sized (kernelStep s call).frames.mngr := by
  cases call with
  | allocBlock => exact h.allocMemoryBlock
  | allocBlocks size => exact h.allocMemoryBlocks size
  | allocPage =>
    cases hret : s.vmmngrAllocPage with
    | none =>
      simp only [kernelStep, hret]
      exact h
    | some r =>
      simp only [kernelStep, hret]
      exact vmmngrAllocPage_keeps (fun t : FrameState ↦ Sized t.mngr) (fun _ ht ↦ ht.allocMemoryBlock)
        hret h

/-! ## Every run -/

/-- As long as each call is roomy, no run gives away a frame of the kernel's; and in every state reached
the next call that comes back gives one away exactly when it is not. -/
theorem keepsOwnMemory_of_run {memory : Bytes} {bootinfo : MultibootInfo} {fs : FsState Drivers.Disk}
    {mem : Words} {kernelEnd : u32} {s₀ : Machine MemMngr} {s : Machine FrameState}
    (hinit : mainInit memory bootinfo fs mem = some s₀)
    (hrun : Run kernelStep (fun s call ↦ KernelCall.roomy (KernelOwns kernelEnd bootinfo) s call)
      (withLedger s₀) s) :
    KeepsOwn (KernelOwns kernelEnd bootinfo) s.frames ∧ ∀ call : KernelCall, call.Returns s →
      (KeepsOwn (KernelOwns kernelEnd bootinfo) (kernelStep s call).frames ↔
        call.roomy (KernelOwns kernelEnd bootinfo) s) := by
  have hstart : Sized s₀.frames :=
    mainInit_keeps Sized (fun _ h ↦ h.allocMemoryBlock) hinit (sized_initMemory memory bootinfo)
  obtain ⟨hsized, hkeeps⟩ := hrun.inv
    (fun s ↦ Sized s.frames.mngr ∧ KeepsOwn (KernelOwns kernelEnd bootinfo) s.frames)
    ⟨hstart, fun a ha ↦ absurd ha List.not_mem_nil⟩ fun s call h hroom ↦ by
      refine ⟨kernelStep_sized h.1 call, ?_⟩
      by_cases hreturns : call.Returns s
      · exact (kernelStep_iff h.1 h.2 call hreturns).mpr hroom
      · rw [kernelStep_of_fault hreturns]
        exact h.2
  exact ⟨hkeeps, kernelStep_iff hsized hkeeps⟩

/-! ## Runs of free blocks -/

theorem startsRun_of_clear {m : MemMngr} {b size : Nat} (h : ∀ n, b ≤ n → n ≤ b + size → m.used n = false) :
    m.StartsRun size b := by
  refine ⟨h b (Nat.le_refl b) (Nat.le_add_right b size), ?_⟩
  have hall : m.freeIn b (size + 1) = (List.range (size + 1)).length := by
    refine List.countP_eq_length.mpr fun i hi ↦ ?_
    rw [h (b + i) (by omega) (by have hlt := List.mem_range.mp hi; omega)]
    rfl
  rw [hall, List.length_range]
  omega

theorem roomBelow_of_run {m : MemMngr} {b size : Nat} (hrun : m.StartsRun size b)
    (hlow : ∀ n, owns n → b + size ≤ n) : RoomBelow owns m size :=
  fun n hown _ _ _ _ _ ↦ ⟨b, hrun, hlow n hown⟩

/-- The blocks from `lo` to `hi` are free. -/
def ClearBetween (m : MemMngr) (lo hi : Nat) : Prop := ∀ n, lo ≤ n → n < hi → m.used n = false

section ClearBetween

variable {m : MemMngr} {lo hi : Nat} (h : ClearBetween m lo hi)
include h

theorem ClearBetween.mmapSet (hlt : lo < hi) {b : Nat} (hleast : LeastFree m b) :
    ClearBetween (m.mmapSet b) (lo + 1) hi := by
  intro n hlow hhigh
  have hb : b ≤ lo := by
    by_contra hlt'
    have hset := hleast.2.2 lo (by omega)
    rw [h lo (Nat.le_refl lo) hlt] at hset
    cases hset
  rw [MemMngr.mmapSet_used, h n (by omega) hhigh, Bool.false_or, decide_eq_false_iff_not]
  omega

-- The search takes no start above a free range that is long enough.
theorem ClearBetween.allocMemoryBlocks (size : u32) (hsize : lo + size.toNat < hi) :
    ClearBetween (m.allocMemoryBlocks size).1 (lo + size.toNat) hi := by
  intro n hlow hhigh
  rcases m.allocMemoryBlocks_cases size with ⟨hfail, -⟩ | ⟨b, -, hfind, -, -, hused⟩
  · rw [hfail]
    exact h n (by omega) hhigh
  · obtain ⟨-, -, -, hleast⟩ := (m.mmapFirstFreeS_eq_some_iff size b).mp hfind
    have hb : b ≤ lo := by
      by_contra hlt
      exact hleast lo (by omega)
        (startsRun_of_clear fun n hlow hhigh ↦ h n hlow (Nat.lt_of_le_of_lt hhigh hsize))
    rw [← Bool.not_eq_true, hused, h n (by omega) hhigh]
    simp only [Bool.false_eq_true, false_or]
    omega

theorem ClearBetween.allocMemoryBlock (hlt : lo < hi) : ClearBetween m.allocMemoryBlock.1 (lo + 1) hi := by
  intro n hlow hhigh
  rcases m.allocMemoryBlock_cases with hfail | ⟨b, -, hfind, -, -, hused⟩
  · rw [hfail]
    exact h n (by omega) hhigh
  · have hclear := h.mmapSet hlt ((m.mmapFirstFree_eq_some_iff b).mp hfind) n hlow hhigh
    rw [MemMngr.mmapSet_used, Bool.or_eq_false_iff, decide_eq_false_iff_not] at hclear
    rw [← Bool.not_eq_true, hused, hclear.1]
    simpa using hclear.2

end ClearBetween

/-- Frame `k` is free, and so are `c` frames below it. -/
structure Waits (k c : Nat) (s : FrameState) : Prop where
  sized : Sized s.mngr
  bound : k < 32 * (s.mngr.maxBlocks.toNat / 32)
  clear : s.mngr.used k = false
  below : (List.range k).countP (fun n ↦ !s.mngr.used n) = c
  free : c < s.mngr.getFreeBlockCount.toNat

section Waits

variable {s : FrameState} {k c : Nat}

theorem Waits.takes (h : Waits k c s) : ∃ b, LeastFree s.mngr b ∧ s.step .allocBlock =
    ⟨{ s.mngr.mmapSet b with usedBlocks := s.mngr.usedBlocks + 1 },
      (BitVec.ofNat 32 b * MEMORY_BLOCK_SIZE, 1) :: s.live⟩ := by
  have hbound := h.bound
  have hmore : 0 < s.mngr.getFreeBlockCount := Nat.lt_of_le_of_lt (Nat.zero_le c) h.free
  rcases h.sized.allocMemoryBlock_cases with ⟨-, hnone⟩ | ⟨b, -, hfind, -, hne, hret⟩
  · classical
    have hex : ∃ n, s.mngr.used n = false := ⟨k, h.clear⟩
    have hle : Nat.find hex ≤ k := Nat.find_min' hex h.clear
    have hfind : s.mngr.mmapFirstFree = some (Nat.find hex) :=
      (s.mngr.mmapFirstFree_eq_some_iff _).mpr ⟨by omega, Nat.find_spec hex,
        fun n hn ↦ Bool.not_eq_false _ ▸ Nat.find_min hex hn⟩
    exact absurd ⟨hmore, _, hfind⟩ hnone
  · exact ⟨b, (s.mngr.mmapFirstFree_eq_some_iff b).mp hfind,
      by simp only [FrameState.step, hret, if_neg hne]⟩

-- While a frame below `k` is free, the call takes such a frame.
theorem Waits.next (h : Waits k (c + 1) s) : Waits k c (s.step .allocBlock) := by
  obtain ⟨b, ⟨-, hb, hleast⟩, hstep⟩ := h.takes
  have hbelow := h.below
  have hused (n : Nat) : (s.step .allocBlock).mngr.used n = (s.mngr.used n || decide (n = b)) := by
    rw [hstep]
    exact s.mngr.mmapSet_used b n
  have hlt : b < k := by
    by_contra hle
    have hzero : (List.range k).countP (fun n ↦ !s.mngr.used n) = 0 := by
      refine List.countP_eq_zero.mpr fun n hn ↦ ?_
      rw [hleast n (by have hnk := List.mem_range.mp hn; omega)]
      decide
    omega
  have hunmark (n : Nat) : (!(s.step .allocBlock).mngr.used n) = true ↔
      (!s.mngr.used n) = true ∧ n ≠ b := by
    rw [hused]
    simp
  have hcount := countP_range_unmark hlt (by simp [hb]) hunmark
  refine ⟨h.sized.allocMemoryBlock, ?_, ?_, by omega, ?_⟩
  · rw [hstep]
    exact h.bound
  · rw [hused, h.clear, decide_eq_false (by omega), Bool.or_false]
  · have hfree := h.free
    rw [hstep]
    change c < (s.mngr.maxBlocks - (s.mngr.usedBlocks + 1)).toNat
    unfold MemMngr.getFreeBlockCount at hfree
    bv_omega

-- When none is, it takes `k`.
theorem Waits.last (h : Waits k 0 s) :
    (BitVec.ofNat 32 k * MEMORY_BLOCK_SIZE, 1) ∈ (s.step .allocBlock).live := by
  obtain ⟨b, ⟨-, hb, hleast⟩, hstep⟩ := h.takes
  have hlast : b = k := by
    rcases Nat.lt_trichotomy b k with hlt | heq | hlt
    · have hset := List.countP_eq_zero.mp h.below b (List.mem_range.mpr hlt)
      rw [hb] at hset
      exact absurd rfl hset
    · exact heq
    · have hset := hleast k hlt
      rw [h.clear] at hset
      cases hset
  rw [hstep, hlast]
  exact List.mem_cons_self

/-- One call after the other takes the least free frame, so each free frame has its turn. -/
theorem Waits.live {s : Machine FrameState} (h : Waits k c s.frames) :
    (BitVec.ofNat 32 k * MEMORY_BLOCK_SIZE, 1) ∈
      ((List.replicate (c + 1) KernelCall.allocBlock).foldl kernelStep s).frames.live := by
  induction c generalizing s with
  | zero => exact h.last
  | succ c ih => exact ih (s := kernelStep s .allocBlock) h.next

end Waits

/-! ## A PC with 128 MiB -/

/-- The end of a kernel of 64 KiB. -/
def smallEnd : u32 := 0xC0110000

/-- What the kernel of `smallPc` owns, it has above 1 MiB. -/
theorem smallPc_owns {n : Nat} (h : KernelOwns smallEnd smallPc n) : 256 ≤ n := by
  have hbitmap : (bitmapAddr smallEnd).toNat - 0xC0000000 = 0x110000 := by decide +kernel
  unfold KernelOwns at h
  rw [hbitmap] at h
  unfold Meets at h
  omega

/-- `main` takes 36 frames of the low memory: 34 for paging, one for the FAT and one for the stack. -/
theorem smallPc_mainInit : ∃ s₀, mainInit (fun _ ↦ 0) smallPc blankVolume (fun _ ↦ 0) = some s₀ ∧
    Took smallMngr 1 36 s₀.frames := by
  obtain ⟨s₀, hinit, hframes, -⟩ := mainInit_spec smallPc_bootable (fun _ ↦ 0)
  rw [smallPc_initCalls] at hframes
  exact ⟨s₀, hinit, hframes ▸ (smallMngr_after (by decide)).1⟩

-- While frames below 1 MiB lie free side by side, there is room.
theorem roomBelow_smallPc {m : MemMngr} {lo hi size : Nat} (h : ClearBetween m lo hi)
    (hsize : lo + size < hi) (hhi : hi ≤ 256) : RoomBelow (KernelOwns smallEnd smallPc) m size := by
  refine roomBelow_of_run (startsRun_of_clear fun n hlow hhigh ↦ h n hlow (by omega)) fun n hown ↦ ?_
  have hlow := smallPc_owns hown
  omega

/-- A block, three blocks and a page, one after the other, come from below the kernel. -/
theorem keepsOwnMemory_smallPc : ∃ s₀, mainInit (fun _ ↦ 0) smallPc blankVolume (fun _ ↦ 0) = some s₀ ∧
    KeepsOwn (KernelOwns smallEnd smallPc) ([KernelCall.allocBlock, .allocBlocks 3, .allocPage].foldl
      kernelStep (withLedger s₀)).frames := by
  obtain ⟨s₀, hinit, htook⟩ := smallPc_mainInit
  have hclear₀ : ClearBetween s₀.frames 37 160 := fun n hlow hhigh ↦ by
    rw [← Bool.not_eq_true, htook.used, (smallMngr_used (by omega)).mpr ⟨by omega, Or.inl hhigh⟩]
    simp only [Bool.false_eq_true, false_or]
    omega
  have hclear₁ : ClearBetween (kernelStep (withLedger s₀) .allocBlock).frames.mngr 38 160 :=
    hclear₀.allocMemoryBlock (by decide)
  have hclear₂ : ClearBetween (kernelStep (kernelStep (withLedger s₀) .allocBlock)
      (.allocBlocks 3)).frames.mngr 41 160 := hclear₁.allocMemoryBlocks 3 (by decide)
  have hroom₀ : KernelCall.allocBlock.roomy (KernelOwns smallEnd smallPc) (withLedger s₀) :=
    fun _ ↦ roomBelow_smallPc hclear₀ (by decide) (by decide)
  have hroom₁ : (KernelCall.allocBlocks 3).roomy (KernelOwns smallEnd smallPc)
      (kernelStep (withLedger s₀) .allocBlock) :=
    fun _ ↦ roomBelow_smallPc hclear₁ (by decide) (by decide)
  have hroom₂ : KernelCall.allocPage.roomy (KernelOwns smallEnd smallPc)
      (kernelStep (kernelStep (withLedger s₀) .allocBlock) (.allocBlocks 3)) :=
    ⟨fun _ ↦ roomBelow_smallPc hclear₂ (by decide) (by decide), fun _ b hleast _ ↦
      roomBelow_smallPc (hclear₂.mmapSet (by decide) hleast) (by decide) (by decide)⟩
  simp only [List.foldl_cons, List.foldl_nil]
  exact ⟨s₀, hinit, (keepsOwnMemory_of_run hinit (((Run.start.step hroom₀).step hroom₁).step hroom₂)).1⟩

/-- After `main`, the 172nd call of `alloc_memory_block` gives away the first frame of the image. -/
theorem not_keepsOwnMemory_smallPc : ∃ s₀, mainInit (fun _ ↦ 0) smallPc blankVolume (fun _ ↦ 0) = some s₀ ∧
    (0x100000, 1) ∈ ((List.replicate 172 KernelCall.allocBlock).foldl kernelStep
      (withLedger s₀)).frames.live ∧
    ¬ ∀ s, Run kernelStep (fun _ _ ↦ True) (withLedger s₀) s →
      KeepsOwn (KernelOwns smallEnd smallPc) s.frames := by
  obtain ⟨s₀, hinit, htook⟩ := smallPc_mainInit
  have hclear (n : Nat) (hn : n ≤ 256) : s₀.frames.used n = false ↔
      37 ≤ n ∧ (n < 160 ∨ n = 256 ∨ 4 ≤ n % 8) := by
    have hstart := smallMngr_used hn
    rw [← Bool.not_eq_true, htook.used, not_or, Bool.not_eq_true, hstart]
    omega
  have hcount : (List.range 256).countP (fun n ↦ !s₀.frames.used n) = 171 := by
    have hcongr : (List.range 256).countP (fun n ↦ !s₀.frames.used n) =
        (List.range 256).countP fun n ↦ 37 ≤ n ∧ (n < 160 ∨ n = 256 ∨ 4 ≤ n % 8) := by
      refine List.countP_congr fun n hn ↦ ?_
      rw [Bool.not_eq_true', hclear n (Nat.le_of_lt (List.mem_range.mp hn)), decide_eq_true_iff]
    rw [hcongr]
    decide +kernel
  have hfree : s₀.frames.getFreeBlockCount.toNat = 32605 := by
    rw [htook.free, smallMngr_free]
    rfl
  have hlast : 256 < 32 * (s₀.frames.maxBlocks.toNat / 32) := by
    rw [htook.maxBlocks, smallMngr_maxBlocks]
    decide
  have hwaits : Waits 256 171 (withLedger s₀).frames :=
    ⟨htook.sized, hlast, (hclear 256 (Nat.le_refl _)).mpr (by decide), hcount, hfree ▸ (by decide)⟩
  have hlive := hwaits.live
  refine ⟨s₀, hinit, hlive, fun hall ↦ ?_⟩
  -- frame 256 is the first of the image
  refine hall _ (.foldl (fun _ _ ↦ trivial) _ .start) _ hlive 256
    ((frames_one_iff (by decide) 256).mpr rfl) (Or.inl ?_)
  change max 0x100000 (4096 * 256) < min _ (4096 * 257)
  decide

end TenOs.Kernel
