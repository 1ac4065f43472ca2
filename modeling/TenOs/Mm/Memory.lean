import TenOs.Base.Bitmap
import TenOs.Lib.Util

/-!
# `mm/memory.c`: the frame allocator

One bit for each 4096-byte frame, in an array of 32-bit words: set means in use.  Frame numbers are
`int` in the source; they stay below `2 ^ 21` and are natural numbers here, and the `-1` of a failed
search is `none`.
-/

namespace TenOs.Mm

open TenOs.Base TenOs.Lib

def MEMORY_BLOCKS_PER_BYTE : u32 := 8#32
def MEMORY_BLOCK_SIZE : u32 := 4096#32

/-- `memMngr` is the array from the pointer `mem_mngr` on. -/
structure MemMngr where
  memMngr : Nat → u32
  maxBlocks : u32
  usedBlocks : u32
  size : u32

namespace MemMngr

/-- Frame `n` is marked as in use. -/
def used (m : MemMngr) (n : Nat) : Bool := bitAt m.memMngr n

def mmapSet (m : MemMngr) (bit : Nat) : MemMngr :=
  { m with
    memMngr := Function.update m.memMngr (bit / 32)
      (m.memMngr (bit / 32) ||| 1#32 <<< (bit % 32)) }

def mmapUnset (m : MemMngr) (bit : Nat) : MemMngr :=
  { m with
    memMngr := Function.update m.memMngr (bit / 32)
      (m.memMngr (bit / 32) &&& ~~~(1#32 <<< (bit % 32))) }

def mmapTest (m : MemMngr) (bit : Nat) : u32 := m.memMngr (bit / 32) &&& 1#32 <<< (bit % 32)

@[simp] theorem mmapSet_used (m : MemMngr) (b n : Nat) :
    (m.mmapSet b).used n = (m.used n || decide (n = b)) := bitAt_set (by decide) b n

@[simp] theorem mmapUnset_used (m : MemMngr) (b n : Nat) :
    (m.mmapUnset b).used n = (m.used n && !decide (n = b)) := bitAt_clear (by decide) b n

theorem mmapTest_eq_zero_iff (m : MemMngr) (b : Nat) : m.mmapTest b = 0 ↔ m.used b = false :=
  testMask_eq_zero_iff (by decide) b

/-! ## Searching -/

/-- The two nested loops of `mmap_first_free` and `mmap_first_free_s`: the first frame whose bit is
clear and that `accept` takes, in the words below `get_block_count() / 32`. -/
def scanFree (m : MemMngr) (accept : Nat → Bool) : Option Nat :=
  firstFrom (fun i ↦
      if m.memMngr i ≠ 0xFFFFFFFF#32 then
        firstFrom (fun j ↦
          if m.memMngr i &&& 1#32 <<< j = 0 ∧ accept (i * 32 + j) then some (i * 4 * 8 + j)
          else none) 32 0
      else none)
    (m.maxBlocks.toNat / 32) 0

def mmapFirstFree (m : MemMngr) : Option Nat := m.scanFree fun _ ↦ true

/-- "Loop through each bit to see if its enough space": `k` turns are left, and `free` counts the
clear bits so far.  A set bit does not start the count again. -/
def enoughSpace (m : MemMngr) (startingBit : Nat) (size : u32) : (k count : Nat) → (free : u32) → Bool
  | 0, _, _ => false
  | k + 1, count, free =>
      let free := if m.mmapTest (startingBit + count) = 0 then free + 1 else free
      if free = size then true else enoughSpace m startingBit size k (count + 1) free

def mmapFirstFreeS (m : MemMngr) (size : u32) : Option Nat :=
  if size = 0 then none
  else if size = 1 then m.mmapFirstFree
  else m.scanFree fun startingBit ↦ m.enoughSpace startingBit size (size.toNat + 1) 0 0

/-- `scan_free` finds the least frame below the last whole word that meets both tests. -/
theorem scanFree_eq (m : MemMngr) (accept : Nat → Bool) : m.scanFree accept =
    firstFrom (fun n ↦ if m.used n = false ∧ accept n then some n else none)
      (32 * (m.maxBlocks.toNat / 32)) 0 := by
  have hnested := firstFrom_nested
    (fun n ↦ if m.used n = false ∧ accept n then some n else none) 32 (m.maxBlocks.toNat / 32) 0
  rw [Nat.mul_zero] at hnested
  rw [scanFree, ← hnested]
  apply firstFrom_congr
  intro i _ _
  have hbit {j : Nat} (hj : j < 32) : m.memMngr i &&& 1#32 <<< j = 0 ↔ m.used (32 * i + j) = false := by
    have htest := m.mmapTest_eq_zero_iff (32 * i + j)
    rw [mmapTest, show (32 * i + j) / 32 = i by omega, show (32 * i + j) % 32 = j by omega] at htest
    exact htest
  by_cases hfull : m.memMngr i ≠ 0xFFFFFFFF#32
  · rw [if_pos hfull]
    apply firstFrom_congr
    intro j _ hj
    simp only [hbit (show j < 32 by omega), show i * 32 + j = 32 * i + j by omega,
      show i * 4 * 8 + j = 32 * i + j by omega]
  · -- a word of ones has no clear bit
    rw [if_neg hfull]
    refine ((firstFrom_eq_none_iff _ 32 0).mpr fun j _ hj ↦ if_neg fun h ↦ ?_).symm
    have hone := (hbit (show j < 32 by omega)).mpr h.1
    rw [not_not.mp hfull] at hone
    have hbit₀ := (and_one_shiftLeft_eq_zero_iff 0xFFFFFFFF#32 (show j < 32 by omega)).mp hone
    have hall : (BitVec.allOnes 32).getLsbD j = true := by
      rw [BitVec.getLsbD_allOnes]
      exact decide_eq_true (by omega)
    exact absurd (hall.symm.trans hbit₀) (by decide)

-- Skipping the full words skips no clear bit.
theorem scanFree_eq_some_iff (m : MemMngr) (accept : Nat → Bool) (b : Nat) :
    m.scanFree accept = some b ↔ b < 32 * (m.maxBlocks.toNat / 32) ∧
      (m.used b = false ∧ accept b) ∧ ∀ n < b, ¬ (m.used n = false ∧ accept n) := by
  rw [scanFree_eq, firstFrom_eq_some_iff]
  constructor
  · intro h
    obtain ⟨i, -, hi, hbody, hfirst⟩ := h
    split at hbody
    · cases hbody
      rename_i htest
      refine ⟨by omega, htest, fun n hn htest' ↦ ?_⟩
      have hnone := hfirst n (Nat.zero_le n) hn
      rw [if_pos htest'] at hnone
      cases hnone
    · cases hbody
  · intro h
    exact ⟨b, Nat.zero_le b, by omega, if_pos h.2.1, fun n _ hn ↦ if_neg (h.2.2 n hn)⟩

/-- How many of the `k` frames from `start` on are free. -/
def freeIn (m : MemMngr) (start k : Nat) : Nat :=
  (List.range k).countP fun i ↦ !m.used (start + i)

theorem freeIn_succ (m : MemMngr) (start k : Nat) :
    m.freeIn start (k + 1) = m.freeIn (start + 1) k + if m.used start = false then 1 else 0 := by
  rw [freeIn, freeIn, List.range_succ_eq_map, List.countP_cons, List.countP_map]
  congr 1
  · apply List.countP_congr
    intro i _
    rw [Function.comp_apply, Nat.succ_eq_add_one, show start + 1 + i = start + (i + 1) by omega]
  · cases m.used start <;> rfl

-- There is room when the clear bits seen and those to come are enough.
theorem enoughSpace_iff (m : MemMngr) (start : Nat) (size : u32) (k count : Nat) (free : u32)
    (h : free.toNat < size.toNat) : m.enoughSpace start size k count free = true ↔
      size.toNat ≤ free.toNat + m.freeIn (start + count) k := by
  induction k generalizing count free with
  | zero =>
    rw [enoughSpace, freeIn, List.range_zero, List.countP_nil]
    simp only [Bool.false_eq_true, false_iff]
    omega
  | succ k ih =>
    have hsize := size.isLt
    have hone : (1 : u32).toNat = 1 := rfl
    rw [enoughSpace, freeIn_succ]
    simp only [mmapTest_eq_zero_iff]
    by_cases hclear : m.used (start + count) = false
    · have hsucc : (free + 1).toNat = free.toNat + 1 := by
        rw [BitVec.toNat_add, hone]
        omega
      rw [if_pos hclear, if_pos hclear]
      by_cases hdone : free + 1 = size
      · rw [if_pos hdone, ← hdone, hsucc]
        simp only [true_iff]
        omega
      · have hne : (free + 1).toNat ≠ size.toNat := fun heq ↦ hdone (BitVec.eq_of_toNat_eq heq)
        rw [if_neg hdone, ih _ _ (by omega), hsucc, Nat.add_assoc start]
        omega
    · have hne : free ≠ size := fun heq ↦ by rw [heq] at h; omega
      rw [if_neg hclear, if_neg hclear, if_neg hne, ih _ _ h, Nat.add_assoc start]
      omega

/-- What `mmap_first_free_s` asks of a start: its bit is clear, and of the `size + 1` frames from it
on `size` are free. -/
def StartsRun (m : MemMngr) (size b : Nat) : Prop :=
  m.used b = false ∧ size ≤ m.freeIn b (size + 1)

theorem startsRun_one_iff (m : MemMngr) (b : Nat) : m.StartsRun 1 b ↔ m.used b = false := by
  refine ⟨fun h ↦ h.1, fun h ↦ ⟨h, ?_⟩⟩
  rw [freeIn_succ, if_pos h]
  omega

theorem mmapFirstFree_eq_some_iff (m : MemMngr) (b : Nat) : m.mmapFirstFree = some b ↔
    b < 32 * (m.maxBlocks.toNat / 32) ∧ m.used b = false ∧ ∀ n < b, m.used n = true := by
  rw [mmapFirstFree, scanFree_eq_some_iff]
  simp

theorem mmapFirstFreeS_eq_some_iff (m : MemMngr) (size : u32) (b : Nat) :
    m.mmapFirstFreeS size = some b ↔ size ≠ 0 ∧ b < 32 * (m.maxBlocks.toNat / 32) ∧
      m.StartsRun size.toNat b ∧ ∀ n < b, ¬ m.StartsRun size.toNat n := by
  unfold mmapFirstFreeS
  by_cases hzero : size = 0
  · rw [if_pos hzero]
    simp [hzero]
  rw [if_neg hzero]
  have hpos : 0 < size.toNat := by
    by_contra hle
    exact hzero (BitVec.eq_of_toNat_eq (by rw [Nat.eq_zero_of_not_pos hle]; rfl))
  by_cases hone : size = 1
  · have h1 : size.toNat = 1 := by rw [hone]; rfl
    rw [if_pos hone, mmapFirstFree_eq_some_iff, h1]
    simp only [startsRun_one_iff, Bool.not_eq_false, ne_eq, hzero, not_false_eq_true, true_and]
  · have hspace (n : Nat) : m.enoughSpace n size (size.toNat + 1) 0 0 = true ↔
        size.toNat ≤ m.freeIn n (size.toNat + 1) := by
      rw [enoughSpace_iff m n size _ 0 0 hpos]
      change _ ≤ 0 + _ ↔ _
      rw [Nat.zero_add, Nat.add_zero]
    rw [if_neg hone, scanFree_eq_some_iff]
    simp only [hspace, StartsRun, ne_eq, hzero, not_false_eq_true, true_and]

/-! ## Allocating and freeing -/

def getFreeBlockCount (m : MemMngr) : u32 := m.maxBlocks - m.usedBlocks

/-- `alloc_memory_block` with the address it returns. -/
def allocMemoryBlock (m : MemMngr) : MemMngr × u32 :=
  if m.getFreeBlockCount ≤ 0 then (m, 0)
  else
    match m.mmapFirstFree with
    | none => (m, 0)
    | some frame =>
        ({ m.mmapSet frame with usedBlocks := m.usedBlocks + 1 },
          BitVec.ofNat 32 frame * MEMORY_BLOCK_SIZE)

def freeMemoryBlock (m : MemMngr) (p : u32) : MemMngr :=
  let frame := (p / MEMORY_BLOCK_SIZE).toNat
  { m.mmapUnset frame with usedBlocks := m.usedBlocks - 1 }

/-- `alloc_memory_blocks` with the address it returns. -/
def allocMemoryBlocks (m : MemMngr) (size : u32) : MemMngr × u32 :=
  if m.getFreeBlockCount ≤ size then (m, 0)
  else
    match m.mmapFirstFreeS size with
    | none => (m, 0)
    | some frame =>
        let m := forLoop (fun i m ↦ m.mmapSet (frame + i)) size.toNat 0 m
        ({ m with usedBlocks := m.usedBlocks + size }, BitVec.ofNat 32 frame * MEMORY_BLOCK_SIZE)

def freeMemoryBlocks (m : MemMngr) (p size : u32) : MemMngr :=
  let frame := (p / MEMORY_BLOCK_SIZE).toNat
  let m := forLoop (fun i m ↦ m.mmapUnset (frame + i)) size.toNat 0 m
  { m with usedBlocks := m.usedBlocks - size }

-- Setting the bits one by one sets the whole run.
theorem setLoop_used (m : MemMngr) (frame k n : Nat) :
    (forLoop (fun i m ↦ m.mmapSet (frame + i)) k 0 m).maxBlocks = m.maxBlocks ∧
      ((forLoop (fun i m ↦ m.mmapSet (frame + i)) k 0 m).used n = true ↔
        m.used n = true ∨ (frame ≤ n ∧ n < frame + k)) := by
  let inv (i : Nat) (t : MemMngr) : Prop := t.maxBlocks = m.maxBlocks ∧
    (t.used n = true ↔ m.used n = true ∨ (frame ≤ n ∧ n < frame + i))
  have hstart : inv 0 m := by
    refine ⟨rfl, (or_iff_left ?_).symm⟩
    omega
  have hrun : inv (0 + k) (forLoop (fun i m ↦ m.mmapSet (frame + i)) k 0 m) := by
    refine forLoop_inv inv hstart fun i t _ _ ht ↦ ⟨ht.1, ?_⟩
    rw [mmapSet_used, Bool.or_eq_true, decide_eq_true_iff, ht.2, or_assoc]
    exact or_congr_right (by omega)
  rwa [Nat.zero_add] at hrun

-- The turns may also count `used_blocks` down, which no bit depends on.
theorem unsetLoop_used (m : MemMngr) (body : Nat → MemMngr → MemMngr) (frame k n : Nat)
    (hbody : ∀ i t, (body i t).maxBlocks = t.maxBlocks ∧
      (body i t).memMngr = (t.mmapUnset (frame + i)).memMngr) :
    (forLoop body k 0 m).maxBlocks = m.maxBlocks ∧ ((forLoop body k 0 m).used n = true ↔
      m.used n = true ∧ ¬ (frame ≤ n ∧ n < frame + k)) := by
  let inv (i : Nat) (t : MemMngr) : Prop := t.maxBlocks = m.maxBlocks ∧
    (t.used n = true ↔ m.used n = true ∧ ¬ (frame ≤ n ∧ n < frame + i))
  have hstart : inv 0 m := by
    refine ⟨rfl, (and_iff_left ?_).symm⟩
    omega
  have hrun : inv (0 + k) (forLoop body k 0 m) := by
    refine forLoop_inv inv hstart fun i t _ _ ht ↦ ⟨(hbody i t).1.trans ht.1, ?_⟩
    have hbit : (body i t).used n = (t.mmapUnset (frame + i)).used n :=
      congrArg (fun words ↦ bitAt words n) (hbody i t).2
    rw [hbit, mmapUnset_used, Bool.and_eq_true, Bool.not_eq_true', decide_eq_false_iff_not, ht.2,
      and_assoc]
    exact and_congr_right fun _ ↦ by omega
  rwa [Nat.zero_add] at hrun

/-! ## Initialisation -/

/-- `init_mem_mngr`; `memory` is what lies from `addr` on. -/
def initMemMngr (memory : Bytes) (size : u32) : MemMngr :=
  let maxBlocks := size * 1024 / MEMORY_BLOCK_SIZE
  let filled := memset memory 0 0xF (maxBlocks / MEMORY_BLOCKS_PER_BYTE).toNat
  { memMngr := fun i ↦ read32 filled (4 * i), maxBlocks, usedBlocks := maxBlocks, size }

/-- The loop of the source counts `blocks` down to 0 inclusive. -/
def initMemoryRegion (m : MemMngr) (base size : u32) : MemMngr :=
  let align := (base / MEMORY_BLOCK_SIZE).toNat
  let blocks := (size / MEMORY_BLOCK_SIZE).toNat
  let m := forLoop (fun i m ↦
    { m.mmapUnset (align + i) with usedBlocks := m.usedBlocks - 1 }) (blocks + 1) 0 m
  m.mmapSet 0

/-- The fill sets the low four bits of each byte of the map and clears the high four. -/
theorem initMemMngr_used (memory : Bytes) (size : u32) {n : Nat}
    (hn : n < 8 * ((initMemMngr memory size).maxBlocks.toNat / 8)) :
    (initMemMngr memory size).used n = decide (n % 8 < 4) := by
  have hbytes : ((initMemMngr memory size).maxBlocks / MEMORY_BLOCKS_PER_BYTE).toNat =
      (initMemMngr memory size).maxBlocks.toNat / 8 := BitVec.toNat_udiv
  change (read32 (memset memory 0 0xF
    ((initMemMngr memory size).maxBlocks / MEMORY_BLOCKS_PER_BYTE).toNat)
      (4 * (n / 32))).getLsbD (n % 32) = _
  rw [read32_getLsbD _ _ (Nat.mod_lt _ (by decide)), memset, fillCells_apply, hbytes,
    if_pos (by omega), show n % 32 % 8 = n % 8 by omega]
  have hlow : n % 8 < 8 := Nat.mod_lt _ (by decide)
  generalize n % 8 = k at hlow
  revert k
  decide

-- A region clears one block more than its size has, and bit 0 is set again.
theorem initMemoryRegion_used (m : MemMngr) (base size : u32) (n : Nat) :
    (m.initMemoryRegion base size).maxBlocks = m.maxBlocks ∧
      ((m.initMemoryRegion base size).used n = true ↔ n = 0 ∨ m.used n = true ∧
        ¬ (base.toNat / 4096 ≤ n ∧ n ≤ base.toNat / 4096 + size.toNat / 4096)) := by
  have halign : (base / MEMORY_BLOCK_SIZE).toNat = base.toNat / 4096 := BitVec.toNat_udiv
  have hblocks : (size / MEMORY_BLOCK_SIZE).toNat = size.toNat / 4096 := BitVec.toNat_udiv
  have hloop := m.unsetLoop_used (fun i m ↦
    { m.mmapUnset ((base / MEMORY_BLOCK_SIZE).toNat + i) with usedBlocks := m.usedBlocks - 1 })
    _ ((size / MEMORY_BLOCK_SIZE).toNat + 1) n fun _ _ ↦ ⟨rfl, rfl⟩
  unfold initMemoryRegion
  refine ⟨hloop.1, ?_⟩
  rw [mmapSet_used, Bool.or_eq_true, decide_eq_true_iff, hloop.2, halign, hblocks, or_comm,
    ← Nat.add_assoc, Nat.lt_succ_iff]

end MemMngr

end TenOs.Mm
