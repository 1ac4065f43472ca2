import TenOs.Base.Memory
import TenOs.X86.Machine

/-!
# Descriptor tables in memory

How the CPU gets from the number of an interrupt to its handler: the gate in the interrupt table, the
code segment in the global table, and the stack of an inner level in the task segment.  Linear
addresses, and 32-bit gates for interrupts only.
-/

namespace TenOs.X86

open TenOs.Base

/-! ## Descriptors -/

/-- Where a table is, and the offset of its last byte. -/
structure TableReg where
  base : Word
  limit : BitVec 16

@[ext]
structure SegmentDescriptor where
  base : Word
  limit : BitVec 20
  access : BitVec 8
  flags : BitVec 4

def segmentAt (m : Bytes) (a : Nat) : SegmentDescriptor where
  base := (m (a + 7) ++ m (a + 4)) ++ read16 m (a + 2)
  limit := (m (a + 6)).extractLsb' 0 4 ++ read16 m a
  access := m (a + 5)
  flags := (m (a + 6)).extractLsb' 4 4

/-- The offset of the last byte; the limit counts pages when the segment is that large. -/
def SegmentDescriptor.lastOffset (d : SegmentDescriptor) : Nat :=
  if d.flags.getLsbD 3 then d.limit.toNat * 4096 + 4095 else d.limit.toNat

@[ext]
structure GateDescriptor where
  offset : Word
  selector : Selector
  access : BitVec 8

def gateAt (m : Bytes) (a : Nat) : GateDescriptor where
  offset := read16 m (a + 6) ++ read16 m a
  selector := read16 m (a + 2)
  access := m (a + 5)

/-! ## What the CPU finds -/

/-- The table registers, with the descriptor that the task register holds. -/
structure TableRegs where
  gdtr : TableReg
  idtr : TableReg
  task : SegmentDescriptor

section

variable (m : Bytes)

/-- There is no local table. -/
def descriptorOf (gdtr : TableReg) (s : Selector) : Option SegmentDescriptor :=
  if isNull s ∨ s.getLsbD 2 ∨ gdtr.limit.toNat < 8 * (s.toNat / 8) + 7 then none
  else some (segmentAt m (gdtr.base.toNat + 8 * (s.toNat / 8)))

/-- The table as `Machine` has it. -/
def accessBytes (gdtr : TableReg) : DescriptorTable :=
  (List.range ((gdtr.limit.toNat + 1) / 8)).map fun i ↦
    (segmentAt m (gdtr.base.toNat + 8 * i)).access

/-- `ltr` takes an available 32-bit task segment, and marks it as busy. -/
def ltr (r : TableRegs) (s : Selector) : Option (TableRegs × Bytes) :=
  (descriptorOf m r.gdtr s).bind fun d ↦
    if d.access &&& 0x1F = 0x09 ∧ Access.isPresent d.access then
      some ({ r with task := d },
        Function.update m (r.gdtr.base.toNat + 8 * (s.toNat / 8) + 5) (d.access ||| 2))
    else none

/-- The stack that the task segment has for an inner level. -/
def stackOf (r : TableRegs) (level : Nat) : Option (Selector × Word) :=
  let ss := read16 m (r.task.base.toNat + (8 + 8 * level))
  let esp := read32 m (r.task.base.toNat + (4 + 8 * level))
  if 9 + 8 * level ≤ r.task.lastOffset ∧ stackLoadable (accessBytes m r.gdtr) level ss then
    some (ss, esp)
  else none

/-- A handler's code segment, with the level it runs on. -/
def atLevel (s : Selector) (level : Nat) : Selector := s &&& 0xFFFC ||| BitVec.ofNat 16 level

/-- The gate of interrupt `v`, for `int v` when `software`; nothing when the CPU raises an exception
instead. -/
def gateOf (r : TableRegs) (cpl : Nat) (software : Bool) (v : Nat) : Option GateDescriptor :=
  let d := gateAt m (r.idtr.base.toNat + 8 * v)
  if 8 * v + 7 ≤ r.idtr.limit.toNat ∧ d.access &&& 0x1F = 0x0E ∧ Access.isPresent d.access ∧
      (software = true → cpl ≤ Access.dpl d.access) then some d
  else none

/-- The delivery of interrupt `v` in `c`; nothing when the CPU raises an exception instead. -/
def interrupt (r : TableRegs) (c : Context) (software : Bool) (v : Nat) (code : Option Word) :
    Option Context :=
  (gateOf m r c.cpl software v).bind fun d ↦
    (descriptorOf m r.gdtr d.selector).bind fun seg ↦
      let level := if Access.isConforming seg.access then c.cpl else Access.dpl seg.access
      if Access.isSegment seg.access ∧ Access.isCode seg.access ∧ Access.isPresent seg.access ∧
          Access.dpl seg.access ≤ c.cpl then
        let stack := if level = c.cpl then some (c.ss, c.esp) else stackOf m r level
        stack.map fun s ↦
          { deliver ⟨atLevel d.selector level, s.1, s.2⟩ c code with eip := d.offset }
      else none

/-- Whether `in` and `out` may use a port: at an outer level the task segment must have a clear bit
for it. -/
def portAllowed (r : TableRegs) (c : Context) (port : Nat) : Bool :=
  let iopl := c.eflags.toNat / 2 ^ 12 % 4
  let byte := (read16 m (r.task.base.toNat + 102)).toNat + port / 8
  decide (c.cpl ≤ iopl) ||
    (decide (byte + 1 ≤ r.task.lastOffset) &&
      !(m (r.task.base.toNat + byte)).getLsbD (port % 8))

end

/-! ## Same bytes, same descriptors -/

theorem segmentAt_congr {m m' : Bytes} {a b : Nat} (h : ∀ i < 8, m (a + i) = m' (b + i)) :
    segmentAt m a = segmentAt m' b := by
  have hzero := h 0 (by decide)
  have hone := h 1 (by decide)
  have htwo := h 2 (by decide)
  have hthree := h 3 (by decide)
  simp only [Nat.add_zero] at hzero
  simp only [segmentAt, read16, Nat.add_assoc, Nat.reduceAdd, hzero, hone, htwo, hthree,
    h 4 (by decide), h 5 (by decide), h 6 (by decide), h 7 (by decide)]

theorem gateAt_congr {m m' : Bytes} {a b : Nat} (h : ∀ i < 8, m (a + i) = m' (b + i)) :
    gateAt m a = gateAt m' b := by
  have hzero := h 0 (by decide)
  have hone := h 1 (by decide)
  have htwo := h 2 (by decide)
  have hthree := h 3 (by decide)
  simp only [Nat.add_zero] at hzero
  simp only [gateAt, read16, Nat.add_assoc, Nat.reduceAdd, hzero, hone, htwo, hthree,
    h 5 (by decide), h 6 (by decide), h 7 (by decide)]

-- On one level the stack of the gate is not looked at.
theorem deliver_sameLevel {g g' : Gate} {c : Context} (hcs : g.cs = g'.cs)
    (hlevel : c.cpl = rpl g.cs) (code : Option Word) : deliver g c code = deliver g' c code := by
  have hswitch : switchStack g c = switchStack g' c := by
    rw [switchStack, switchStack, if_pos hlevel, if_pos (hcs ▸ hlevel)]
  rw [deliver, deliver, hswitch, hcs]

end TenOs.X86
