import Mathlib.Logic.Function.Basic

/-!
# Interrupt entry code on IA-32

The instructions that entry code is made of, the delivery of an interrupt through a 32-bit gate, and
`iret`.  All accesses of one trap to memory are to the stack, at addresses that differ by multiples
of four, so memory is a function from addresses to words.  Returns to virtual-8086 mode and to nested
tasks do not occur.
-/

namespace TenOs.X86

abbrev Word := BitVec 32
abbrev Selector := BitVec 16

/-! ## Segments -/

/-- The access bytes of a descriptor table. -/
abbrev DescriptorTable := List (BitVec 8)

namespace Access

def dpl (a : BitVec 8) : Nat := a.toNat / 32 % 4
def isPresent (a : BitVec 8) : Bool := a.getLsbD 7
def isSegment (a : BitVec 8) : Bool := a.getLsbD 4
def isCode (a : BitVec 8) : Bool := a.getLsbD 3
def isConforming (a : BitVec 8) : Bool := isCode a && a.getLsbD 2
/-- A readable code segment or a writable data segment. -/
def isReadWrite (a : BitVec 8) : Bool := a.getLsbD 1

end Access

/-- The requested privilege level. -/
def rpl (s : Selector) : Nat := s.toNat % 4

def isNull (s : Selector) : Bool := s.toNat < 4

/-- The access byte that a selector names in the global table; there is no local table. -/
def access (gdt : DescriptorTable) (s : Selector) : Option (BitVec 8) :=
  if isNull s ∨ s.getLsbD 2 then none else gdt[s.toNat / 8]?

/-- `mov ds, ax` at level `cpl` goes through. -/
def dataLoadable (gdt : DescriptorTable) (cpl : Nat) (s : Selector) : Bool :=
  isNull s || (access gdt s).any fun a ↦
    Access.isSegment a && Access.isPresent a && (!Access.isCode a || Access.isReadWrite a) &&
      (Access.isConforming a || decide (max cpl (rpl s) ≤ Access.dpl a))

/-- `iret` can load it to `cs`. -/
def codeLoadable (gdt : DescriptorTable) (s : Selector) : Bool :=
  (access gdt s).any fun a ↦
    Access.isSegment a && Access.isPresent a && Access.isCode a &&
      (if Access.isConforming a then decide (Access.dpl a ≤ rpl s)
        else decide (Access.dpl a = rpl s))

/-- `iret` to level `cpl` can load it to `ss`. -/
def stackLoadable (gdt : DescriptorTable) (cpl : Nat) (s : Selector) : Bool :=
  (access gdt s).any fun a ↦
    Access.isSegment a && Access.isPresent a && !Access.isCode a && Access.isReadWrite a &&
      decide (rpl s = cpl) && decide (Access.dpl a = cpl)

/-- What a return to the outer level `cpl` leaves in a data segment register: null selectors, and
segments that the level may not use, become zero. -/
def settled (gdt : DescriptorTable) (cpl : Nat) (s : Selector) : Selector :=
  if isNull s || (access gdt s).any fun a ↦ !Access.isConforming a && decide (Access.dpl a < cpl)
  then 0 else s

/-! ## The machine -/

/-- The general registers but the stack pointer. -/
inductive Reg
  | eax | ecx | edx | ebx | ebp | esi | edi
  deriving DecidableEq

/-- The data segment registers. -/
inductive SegReg
  | ds | es | fs | gs
  deriving DecidableEq

structure Machine where
  reg : Reg → Word
  esp : Word
  seg : SegReg → Selector
  cs : Selector
  ss : Selector
  eflags : Word
  mem : Word → Word

/-- A machine that goes on at `eip`. -/
structure Context extends Machine where
  eip : Word

namespace Machine

variable (m : Machine)

/-- The current privilege level. -/
def cpl : Nat := rpl m.cs

/-- Word `i` of the stack. -/
def word (i : Nat) : Word := m.mem (m.esp + BitVec.ofNat 32 (4 * i))

def push (w : Word) : Machine :=
  { m with
    esp := m.esp - 4
    mem := Function.update m.mem (m.esp - 4) w }

/-- Drops `n` words. -/
def drop (n : Nat) : Machine := { m with esp := m.esp + BitVec.ofNat 32 (4 * n) }

def setReg (r : Reg) (w : Word) : Machine := { m with reg := Function.update m.reg r w }

end Machine

/-! ## Flags -/

def setFlag (i : Nat) (b : Bool) (flags : Word) : Word :=
  if b then flags ||| (1#32 <<< i) else flags &&& ~~~(1#32 <<< i)

/-- The flags after an addition: carry, parity, adjust, zero, sign and overflow. -/
def addFlags (a b flags : Word) : Word :=
  let r := a + b
  let even : Bool := (List.range 8).countP r.getLsbD % 2 = 0
  let flags := setFlag 0 (BitVec.carry 32 a b false) flags
  let flags := setFlag 2 even flags
  let flags := setFlag 4 (BitVec.carry 4 a b false) flags
  let flags := setFlag 6 (r == 0) flags
  let flags := setFlag 7 r.msb flags
  setFlag 11 (BitVec.saddOverflow a b) flags

/-- A flags word as the register holds it: bit 1 is one, and bits 3, 5, 15 and 22 to 31 are zero. -/
def fixedFlags (w : Word) : Word := w &&& 0x003F7FD7 ||| 2

def vmFlag : Nat := 17

/-! ## Instructions -/

/-- `F` names the functions of C that are called. -/
inductive Instr (F : Type)
  | cli
  | cld
  | pushByte (b : BitVec 8)
  | push (r : Reg)
  | pushEsp
  | pop (r : Reg)
  | pusha
  | popa
  | movAxSeg (s : SegReg)
  | movAxImm (w : BitVec 16)
  | movSegAx (s : SegReg)
  | addEsp (b : BitVec 8)
  | call (f : F)
  | iret
  deriving DecidableEq

variable {F : Type}

def low16 (w : Word) : BitVec 16 := w.setWidth 16

/-- A move to the lower half of a register. -/
def setLow16 (w : Word) (v : BitVec 16) : Word := w &&& 0xFFFF0000 ||| v.setWidth 32

/-- The fourth word that `pusha` stores is the stack pointer as it was before. -/
def pusha (m : Machine) : Machine :=
  let esp := m.esp
  ((((((((m.push (m.reg .eax)).push (m.reg .ecx)).push (m.reg .edx)).push (m.reg .ebx)).push
    esp).push (m.reg .ebp)).push (m.reg .esi)).push (m.reg .edi))

/-- `popa` skips the stack pointer. -/
def popa (m : Machine) : Machine :=
  let reg : Reg → Word
    | .edi => m.word 0
    | .esi => m.word 1
    | .ebp => m.word 2
    | .ebx => m.word 4
    | .edx => m.word 5
    | .ecx => m.word 6
    | .eax => m.word 7
  { m.drop 8 with reg }

/-- An instruction that is no `call` and no `iret`; nothing when it faults. -/
def step (gdt : DescriptorTable) (m : Machine) : Instr F → Option Machine
  | .cli => some { m with eflags := setFlag 9 false m.eflags }
  | .cld => some { m with eflags := setFlag 10 false m.eflags }
  | .pushByte b => some (m.push (b.signExtend 32))
  | .push r => some (m.push (m.reg r))
  | .pushEsp => some (m.push m.esp)
  | .pop r => some ((m.drop 1).setReg r (m.word 0))
  | .pusha => some (pusha m)
  | .popa => some (popa m)
  | .movAxSeg s => some (m.setReg .eax (setLow16 (m.reg .eax) (m.seg s)))
  | .movAxImm w => some (m.setReg .eax (setLow16 (m.reg .eax) w))
  | .movSegAx s =>
      let sel := low16 (m.reg .eax)
      if dataLoadable gdt m.cpl sel then some { m with seg := Function.update m.seg s sel }
      else none
  | .addEsp b =>
      let n := b.signExtend 32
      some { m with esp := m.esp + n, eflags := addFlags m.esp n m.eflags }
  | .call _ | .iret => none

/-- `iret` at level 0, where it loads all of the flags. -/
def iret (gdt : DescriptorTable) (m : Machine) : Option Context :=
  let cs := low16 (m.word 1)
  let eflags := fixedFlags (m.word 2)
  if eflags.getLsbD vmFlag ∨ ¬ codeLoadable gdt cs ∨ rpl cs < m.cpl then none
  else if rpl cs = m.cpl then
    some { m.drop 3 with cs, eflags, eip := m.word 0 }
  else
    let ss := low16 (m.word 4)
    if stackLoadable gdt (rpl cs) ss then
      some { m with
        esp := m.word 3
        seg := fun s ↦ settled gdt (rpl cs) (m.seg s)
        cs, ss, eflags
        eip := m.word 0 }
    else none

/-- Runs code up to its first call: the machine before the call, the function and the rest. -/
def runToCall (gdt : DescriptorTable) : List (Instr F) → Machine →
    Option (Machine × F × List (Instr F))
  | [], _ => none
  | .call f :: rest, m => some (m, f, rest)
  | i :: rest, m => (step gdt m i).bind (runToCall gdt rest)

/-- Runs code without calls to its `iret`. -/
def run (gdt : DescriptorTable) : List (Instr F) → Machine → Option Context
  | [], _ => none
  | .iret :: _, m => iret gdt m
  | i :: rest, m => (step gdt m i).bind (run gdt rest)

/-! ## Interrupts -/

/-- Where a gate leads: the code segment of the handler, and the stack of its level. -/
structure Gate where
  cs : Selector
  ss0 : Selector
  esp0 : Word

/-- The first step of a delivery: the stack of the handler's level, with the stack pointer of the
outer level on it when the level changes. -/
def switchStack (g : Gate) (c : Context) : Machine :=
  if c.cpl = rpl g.cs then c.toMachine
  else ({ c.toMachine with ss := g.ss0, esp := g.esp0 }.push (c.ss.setWidth 32)).push c.esp

/-- The delivery of an interrupt, with the error code if the vector has one. -/
def deliver (g : Gate) (c : Context) (code : Option Word) : Machine :=
  let m := (((switchStack g c).push c.eflags).push (c.cs.setWidth 32)).push c.eip
  let m := code.elim m m.push
  -- a gate for interrupts clears TF, IF, NT, RF and VM
  { m with cs := g.cs, eflags := m.eflags &&& ~~~0x00034300 }

end TenOs.X86
