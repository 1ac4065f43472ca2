import TenOs.Lib.Util
import TenOs.X86.Stack

/-!
# `cpu/interrupt.asm` and `cpu/syscall_handler.asm`

The code between a trap and its C handler, with the gates of `isr_install` and the segments of
`kernel_gdt.asm`.  When the handler returns, the interrupted context resumes as it was, unless the
CPU and the stub both push an error code, or neither, or the data segment registers differ: what is
saved of them is `ds`.
-/

namespace TenOs.Cpu

open TenOs.Lib TenOs.X86

/-! ## The code -/

/-- The functions of C that the code calls. -/
inductive Handler
  | isrHandler
  | irqHandler
  | syscallDispatcher
  deriving DecidableEq

abbrev Code := List (Instr Handler)

def movDataSegs : Code := [.movSegAx .ds, .movSegAx .es, .movSegAx .fs, .movSegAx .gs]

/-- What a common stub does before its call: the CPU state, the segments of the kernel, and a pointer
to what is saved. -/
def saveState : Code :=
  [.pusha, .movAxSeg .ds, .push .eax, .movAxImm 0x10] ++ movDataSegs ++ [.pushEsp, .cld]

/-- What it does after its call; the last instruction but one drops the error code and the number. -/
def restoreState : Code := [.pop .eax, .pop .eax] ++ movDataSegs ++ [.popa, .addEsp 8, .iret]

def commonStub (f : Handler) : Code := saveState ++ .call f :: restoreState

def isrCommonStub : Code := commonStub .isrHandler
def irqCommonStub : Code := commonStub .irqHandler

/-- The first part of a stub pushes bytes. -/
def pushBytes (bytes : List u8) : Code := .cli :: bytes.map .pushByte

/-- An exception without an error code gets a zero for it. -/
def isrStub (vector : u8) : Code := pushBytes [0, vector] ++ isrCommonStub
def isrStubWithCode (vector : u8) : Code := pushBytes [vector] ++ isrCommonStub
def irqStub (irq vector : u8) : Code := pushBytes [irq, vector] ++ irqCommonStub

def isr0 : Code := isrStub 0
def isr1 : Code := isrStub 1
def isr2 : Code := isrStub 2
def isr3 : Code := isrStub 3
def isr4 : Code := isrStub 4
def isr5 : Code := isrStub 5
def isr6 : Code := isrStub 6
def isr7 : Code := isrStub 7
def isr8 : Code := isrStubWithCode 8
def isr9 : Code := isrStub 9
def isr10 : Code := isrStubWithCode 10
def isr11 : Code := isrStubWithCode 11
def isr12 : Code := isrStubWithCode 12
def isr13 : Code := isrStubWithCode 13
def isr14 : Code := isrStubWithCode 14
def isr15 : Code := isrStub 15
def isr16 : Code := isrStub 16
def isr17 : Code := isrStub 17
def isr18 : Code := isrStub 18
def isr19 : Code := isrStub 19
def isr20 : Code := isrStub 20
def isr21 : Code := isrStub 21
def isr22 : Code := isrStub 22
def isr23 : Code := isrStub 23
def isr24 : Code := isrStub 24
def isr25 : Code := isrStub 25
def isr26 : Code := isrStub 26
def isr27 : Code := isrStub 27
def isr28 : Code := isrStub 28
def isr29 : Code := isrStub 29
def isr30 : Code := isrStub 30
def isr31 : Code := isrStub 31

def irq0 : Code := irqStub 0 32
def irq1 : Code := irqStub 1 33
def irq2 : Code := irqStub 2 34
def irq3 : Code := irqStub 3 35
def irq4 : Code := irqStub 4 36
def irq5 : Code := irqStub 5 37
def irq6 : Code := irqStub 6 38
def irq7 : Code := irqStub 7 39
def irq8 : Code := irqStub 8 40
def irq9 : Code := irqStub 9 41
def irq10 : Code := irqStub 10 42
def irq11 : Code := irqStub 11 43
def irq12 : Code := irqStub 12 44
def irq13 : Code := irqStub 13 45
def irq14 : Code := irqStub 14 46
def irq15 : Code := irqStub 15 47

def pushArgs : Code :=
  [.push .edi, .push .esi, .push .edx, .push .ecx, .push .ebx, .push .eax]

/-- The registers are pushed twice: to be saved, and as the arguments of the call. -/
def syscallHandlerAsm : Code :=
  pushArgs ++ pushArgs ++ .call .syscallDispatcher ::
    [.addEsp 24, .addEsp 4, .pop .ebx, .pop .ecx, .pop .edx, .pop .esi, .pop .edi, .iret]

/-- The gates that `isr_install` sets. -/
def isrInstall (vector : Nat) : Option Code :=
  if vector = 0x80 then some syscallHandlerAsm
  else
    [isr0, isr1, isr2, isr3, isr4, isr5, isr6, isr7, isr8, isr9, isr10, isr11, isr12, isr13, isr14,
      isr15, isr16, isr17, isr18, isr19, isr20, isr21, isr22, isr23, isr24, isr25, isr26, isr27,
      isr28, isr29, isr30, isr31, irq0, irq1, irq2, irq3, irq4, irq5, irq6, irq7, irq8, irq9, irq10,
      irq11, irq12, irq13, irq14, irq15][vector]?

/-- The access bytes of `kernel_gdt_start`, after `gdt_set_tss`. -/
def kernelGdt : DescriptorTable := [0x00, 0x9A, 0x92, 0xFA, 0xF2, 0x89]

def KERNEL_CS : Selector := 0x08
def DATA_SEG : Selector := 0x10

/-- All gates lead to the code segment of the kernel, and `tss_init` sets the stack. -/
def kernelGate (kernelStack : u32) : Gate := ⟨KERNEL_CS, DATA_SEG, kernelStack⟩

/-! ## Traps -/

inductive Trap
  | exception (n : Fin 32)
  | irq (n : Fin 16)
  | syscall

namespace Trap

/-- The PICs are programmed for the vectors from 32 on. -/
def vector : Trap → Nat
  | .exception n => n
  | .irq n => 32 + n
  | .syscall => 0x80

def handler : Trap → Handler
  | .exception _ => .isrHandler
  | .irq _ => .irqHandler
  | .syscall => .syscallDispatcher

/-- What the CPU pushes last: an error code for the exceptions that have one. -/
def errorCode (hasCode : Fin 32 → Bool) (code : u32) : Trap → Option u32
  | .exception n => if hasCode n then some code else none
  | .irq _ | .syscall => none

end Trap

/-- `registers_t` -/
structure Registers where
  ds : u32
  edi : u32
  esi : u32
  ebp : u32
  esp : u32
  ebx : u32
  edx : u32
  ecx : u32
  eax : u32
  intNo : u32
  errCode : u32
  eip : u32
  cs : u32
  eflags : u32
  useresp : u32
  ss : u32

/-- The structure at address `p`. -/
def registersAt (mem : u32 → u32) (p : u32) : Registers :=
  let field (i : Nat) : u32 := mem (p + BitVec.ofNat 32 (4 * i))
  ⟨field 0, field 1, field 2, field 3, field 4, field 5, field 6, field 7, field 8, field 9, field 10,
    field 11, field 12, field 13, field 14, field 15⟩

/-- The argument of the handler points to what the CPU pushed, and the vector.  The outer stack is
pushed when the trap comes from an outer level. -/
structure SeesFrame (vector : Nat) (c : Context) (r : Registers) : Prop where
  intNo : r.intNo = BitVec.ofNat 32 vector
  eip : r.eip = c.eip
  cs : r.cs = c.cs.setWidth 32
  eflags : r.eflags = c.eflags
  useresp : c.cpl ≠ 0 → r.useresp = c.esp
  ss : c.cpl ≠ 0 → r.ss = c.ss.setWidth 32

/-- What the called function gets, in the state of the caller before the call. -/
def Trap.Sees (t : Trap) (c : Context) (m : Machine) : Prop :=
  match t with
  | .exception _ | .irq _ => SeesFrame t.vector c (registersAt m.mem (m.word 0))
  | .syscall => (List.range 6).map m.word =
      [c.reg .eax, c.reg .ebx, c.reg .ecx, c.reg .edx, c.reg .esi, c.reg .edi]

/-- The context goes on as it was, with `eax` for its register. -/
structure Resumes (eax : u32) (c c' : Context) : Prop where
  eip : c'.eip = c.eip
  cs : c'.cs = c.cs
  eflags : c'.eflags = c.eflags
  esp : c'.esp = c.esp
  ss : c'.ss = c.ss
  seg : ∀ s, c'.seg s = c.seg s
  reg : ∀ r, c'.reg r = if r = .eax then eax else c.reg r

namespace Trap

/-- The number of words that the called function takes as arguments. -/
def args : Trap → Nat
  | .exception _ | .irq _ => 1
  | .syscall => 6

/-- What `eax` is at the end, when the called function has left the machine `m`. -/
def result (c : Context) (m : Machine) : Trap → u32
  | .exception _ | .irq _ => c.reg .eax
  | .syscall => m.reg .eax

/-- The handler sees what the CPU pushed, and if it returns as the calling convention says, the
context resumes. -/
def Transparent (hasCode : Fin 32 → Bool) (kernelStack code : u32) (t : Trap) (c : Context) : Prop :=
  let g := kernelGate kernelStack
  ∃ stub m rest, isrInstall t.vector = some stub ∧
    runToCall kernelGdt stub (deliver g c (t.errorCode hasCode code)) = some (m, t.handler, rest) ∧
    t.Sees c m ∧
    ∀ m', Cdecl t.args (trapTop g c) m m' →
      ∃ c', run kernelGdt rest m' = some c' ∧ Resumes (t.result c m') c c'

end Trap

/-! ## The common stubs -/

variable {m m' : Machine} {top : u32} {ws : List u32} {kernelStack code : u32} {c : Context}

/-- The bytes of a stub, extended to words, on the stack. -/
theorem pushBytes_steps (bytes : List u8) (h : OnStack m top ws)
    (hlen : ws.length + bytes.length ≤ maxWords) :
    ∃ m', steps kernelGdt (pushBytes bytes) m = some m' ∧
      OnStack m' top ((bytes.map (·.signExtend 32)).reverse ++ ws) ∧ m'.reg = m.reg ∧
        m'.seg = m.seg ∧ m'.cs = m.cs ∧ m'.ss = m.ss := by
  obtain ⟨m', hsteps, hs, hreg, hseg, hcs, hss⟩ :=
    steps_pushes kernelGdt (F := Handler) .pushByte (fun _ b ↦ b.signExtend 32)
      (fun _ _ ↦ rfl) bytes (m := { m with eflags := setFlag 9 false m.eflags })
      (h.congr rfl rfl) hlen
  exact ⟨m', (steps_cons rfl).trans hsteps, hs, hreg, hseg, hcs, hss⟩

/-- Up to the call: the saved registers lie on the stack, below a pointer to them. -/
theorem saveState_steps (h : OnStack m top ws) (hlen : ws.length + 10 ≤ maxWords)
    (hlevel : m.cpl = 0) :
    ∃ m' d, steps kernelGdt saveState m = some m' ∧ low16 d = m.seg .ds ∧
      OnStack m' top ((m'.esp + 4) :: d :: (savedRegs m.reg m.esp ++ ws)) ∧ m'.cs = m.cs ∧
        m'.ss = m.ss := by
  -- `d` is the word that `push eax` stores
  let d := setLow16 (m.reg .eax) (m.seg .ds)
  let t := ((pusha m).setReg .eax d).push d
  let t' := t.setReg .eax (setLow16 d 0x10)
  have hpusha := h.pusha (by omega)
  have hsaved : OnStack ((pusha m).setReg .eax d) top (savedRegs m.reg m.esp ++ ws) :=
    hpusha.congr rfl rfl
  have hd : OnStack t top (d :: (savedRegs m.reg m.esp ++ ws)) :=
    hsaved.push
      (by rw [List.length_append]; change 8 + ws.length < maxWords; omega) d
  have hax : low16 (t'.reg .eax) = DATA_SEG := low16_setLow16 d 0x10
  have hload : dataLoadable kernelGdt t'.cpl (low16 (t'.reg .eax)) := by
    rw [hax, show t'.cpl = 0 from hlevel]
    decide
  obtain ⟨u, hsegs, hesp, hmem, -, -, hcs, hss⟩ :=
    steps_movSeg (F := Handler) [.ds, .es, .fs, .gs] hload
  have hu : OnStack u top (d :: (savedRegs m.reg m.esp ++ ws)) := hd.congr hesp hmem
  have hpointer := hu.push (by
    rw [List.length_cons, List.length_append]
    change 8 + ws.length + 1 < maxWords
    omega) u.esp
  refine ⟨{ u.push u.esp with eflags := setFlag 10 false u.eflags }, d, ?_, low16_setLow16 _ _, ?_,
    hcs, hss⟩
  · have hfirst : steps kernelGdt ([.pusha, .movAxSeg .ds, .push .eax, .movAxImm 0x10] : Code) m =
        some t' := rfl
    rw [saveState, List.append_assoc, steps_append hfirst]
    exact (steps_append hsegs).trans rfl
  · have hptr : u.esp - 4 + 4 = u.esp := BitVec.sub_add_cancel _ _
    refine OnStack.congr (m := u.push u.esp) ?_ rfl rfl
    change OnStack _ top ((u.esp - 4 + 4) :: _)
    rwa [hptr]

/-- From behind the call to `iret`: the registers are those saved, and all data segment registers are
the one saved. -/
theorem restoreState_run {reg : Reg → u32} {esp d n e : u32}
    (h : OnStack (m.drop 1) top (d :: (savedRegs reg esp ++ n :: e :: ws)))
    (hload : dataLoadable kernelGdt m.cpl (low16 d)) :
    ∃ m', run kernelGdt restoreState m = iret kernelGdt m' ∧ OnStack m' top ws ∧ m'.reg = reg ∧
      (∀ s, m'.seg s = low16 d) ∧ m'.cs = m.cs ∧ m'.ss = m.ss := by
  let t := (((m.drop 1).setReg .eax (m.word 0)).drop 1).setReg .eax ((m.drop 1).word 0)
  have hax : t.reg .eax = d := (Machine.setReg_self _ _ _).trans h.head
  have ht : OnStack t top (savedRegs reg esp ++ n :: e :: ws) := h.tail.congr rfl rfl
  have hsegsOk : dataLoadable kernelGdt t.cpl (low16 (t.reg .eax)) := by rwa [hax]
  obtain ⟨u, hsegs, huesp, humem, -, hseg, hcs, hss⟩ :=
    steps_movSeg (F := Handler) [.ds, .es, .fs, .gs] hsegsOk
  obtain ⟨hpopa, hreg⟩ := (ht.congr huesp humem).popa
  let v := popa u
  let m' := { v.drop 2 with eflags := addFlags v.esp 8 v.eflags }
  have hdrop : OnStack m' top ws := (hpopa.drop [n, e]).congr rfl rfl
  refine ⟨m', ?_, hdrop, hreg, fun s ↦ ?_, hcs, hss⟩
  · have hfirst : steps kernelGdt ([.pop .eax, .pop .eax] : Code) m = some t := rfl
    have hlast : steps kernelGdt ([.popa, .addEsp 8] : Code) u = some m' := rfl
    rw [restoreState, List.append_assoc, run_steps _ hfirst]
    exact (run_steps _ hsegs).trans (run_steps [.iret] hlast)
  · change u.seg s = low16 d
    rw [hseg s, hax, if_pos (by cases s <;> simp)]

/-! ## Exceptions and IRQs -/

theorem kernelGate_level (kernelStack : u32) : rpl (kernelGate kernelStack).cs = 0 :=
  (by decide : rpl KERNEL_CS = 0)

/-- The words on the stack between the saved registers and the interrupted context: what the stub and
the CPU pushed. -/
def pushed (kernelStack : u32) (c : Context) (bytes : List u8) (code : Option u32) : List u32 :=
  (bytes.map (·.signExtend 32)).reverse ++ (code.toList ++ trapFrame (kernelGate kernelStack) c)

theorem pushed_length_le (kernelStack : u32) (c : Context) (bytes : List u8) (code : Option u32) :
    (pushed kernelStack c bytes code).length ≤ bytes.length + 6 := by
  have hframe := outerFrame_length_le (kernelGate kernelStack) c
  simp only [pushed, trapFrame, List.length_append, List.length_reverse, List.length_map,
    List.length_cons]
  cases code <;> simp only [Option.toList, List.length_nil, List.length_singleton] <;> omega

/-- What a stub that pushes `bytes` gives to its handler. -/
structure Entered (f : Handler) (kernelStack : u32) (c : Context) (bytes : List u8)
    (code : Option u32) (m : Machine) (d : u32) : Prop where
  runs : runToCall kernelGdt (pushBytes bytes ++ commonStub f)
    (deliver (kernelGate kernelStack) c code) = some (m, f, restoreState)
  ds : low16 d = c.seg .ds
  onStack : ∃ esp, OnStack m (trapTop (kernelGate kernelStack) c)
    ((m.esp + 4) :: d :: (savedRegs c.reg esp ++ pushed kernelStack c bytes code))
  cs : m.cs = KERNEL_CS
  ss : c.cpl = 0 → m.ss = c.ss

theorem switchStack_regs (g : Gate) (c : Context) :
    (switchStack g c).reg = c.reg ∧ (switchStack g c).seg = c.seg ∧
      (c.cpl = rpl g.cs → (switchStack g c).ss = c.ss) := by
  rw [switchStack]
  split
  · exact ⟨rfl, rfl, fun _ ↦ rfl⟩
  · rename_i houter
    exact ⟨rfl, rfl, fun hinner ↦ absurd hinner houter⟩

theorem deliver_regs (g : Gate) (c : Context) (code : Option u32) :
    (deliver g c code).reg = c.reg ∧ (deliver g c code).seg = c.seg ∧
      (c.cpl = rpl g.cs → (deliver g c code).ss = c.ss) := by
  obtain ⟨hreg, hseg, hss⟩ := switchStack_regs g c
  cases code <;> exact ⟨hreg, hseg, hss⟩

theorem entered (f : Handler) (kernelStack : u32) (c : Context) {bytes : List u8}
    (hbytes : bytes.length ≤ 2) (code : Option u32) :
    ∃ m d, Entered f kernelStack c bytes code m d := by
  let g := kernelGate kernelStack
  have hlen := outerFrame_length_le g c
  have hframe : (code.toList ++ trapFrame g c).length ≤ 6 := pushed_length_le kernelStack c [] code
  obtain ⟨hreg₀, hseg₀, hss₀⟩ := deliver_regs g c code
  obtain ⟨t, hpush, ht, hreg, hseg, hcs, hss⟩ := pushBytes_steps bytes (deliver_onStack g c code)
    (by unfold maxWords; omega)
  have hlevel : t.cpl = 0 := by
    rw [Machine.cpl, hcs]
    exact kernelGate_level kernelStack
  have hpushed := pushed_length_le kernelStack c bytes code
  obtain ⟨m, d, hsave, hd, hm, hmcs, hmss⟩ := saveState_steps ht
    (by change (pushed kernelStack c bytes code).length + 10 ≤ 64; omega) hlevel
  refine ⟨m, d, ?_, ?_, ⟨t.esp, ?_⟩, ?_, fun hinner ↦ ?_⟩
  · rw [runToCall_steps _ hpush, commonStub]
    exact runToCall_steps _ hsave
  · rw [hd, hseg, hseg₀]
  · rwa [hreg, hreg₀] at hm
  · rw [hmcs, hcs]
    rfl
  · rw [hmss, hss]
    exact hss₀ (hinner.trans (kernelGate_level kernelStack).symm)

/-- Field `9 + i` of the `registers_t` that the handler gets. -/
theorem Entered.field {f : Handler} {bytes : List u8} {code : Option u32} {d : u32}
    (h : Entered f kernelStack c bytes code m d) (hws : pushed kernelStack c bytes code = ws)
    {i : Nat} (hi : i < ws.length) : m.mem (m.word 0 + BitVec.ofNat 32 (4 * (9 + i))) = ws[i] := by
  obtain ⟨esp, hs⟩ := h.onStack
  rw [hws] at hs
  have hlt : 9 + i < (d :: (savedRegs c.reg esp ++ ws)).length := by
    rw [List.length_cons, List.length_append]
    change 9 + i < 8 + ws.length + 1
    omega
  have hword := hs.tail.word (9 + i) hlt
  rw [hs.head]
  refine (show _ = (m.drop 1).word (9 + i) from rfl).trans (hword.trans ?_)
  rw [List.getElem_cons, dif_neg (by omega), List.getElem_append_right (by simp [savedRegs])]
  congr 1
  change 9 + i - 1 - 8 = i
  omega

/-- The two words below the frame of the CPU are the vector and an error code. -/
theorem Entered.sees {f : Handler} {bytes : List u8} {code : Option u32} {d e : u32} {vector : Nat}
    (h : Entered f kernelStack c bytes code m d)
    (hpushed : pushed kernelStack c bytes code =
      BitVec.ofNat 32 vector :: e :: trapFrame (kernelGate kernelStack) c) :
    SeesFrame vector c (registersAt m.mem (m.word 0)) := by
  refine ⟨h.field hpushed (i := 0) (by simp), h.field hpushed (i := 2) (by simp [trapFrame]),
    h.field hpushed (i := 3) (by simp [trapFrame]), h.field hpushed (i := 4) (by simp [trapFrame]),
    fun hc ↦ ?_, fun hc ↦ ?_⟩
  -- the outer stack is there when the level changes
  all_goals
    have houter : outerFrame (kernelGate kernelStack) c = [c.esp, c.ss.setWidth 32] :=
      if_neg (by rwa [kernelGate_level])
    rw [trapFrame, houter] at hpushed
  · exact h.field hpushed (i := 5) (by simp)
  · exact h.field hpushed (i := 6) (by simp)

/-! ### Words that are mistaken for others -/

theorem code_bit {s : Selector} (h : codeLoadable kernelGdt s) : s.getLsbD 3 = true := by
  obtain ⟨a, ha, hok⟩ := Option.any_eq_true _ _ |>.mp h
  simp only [Bool.and_eq_true] at hok
  rw [access] at ha
  split at ha
  · cases ha
  · -- the code segments of the table are at odd places
    obtain ⟨hlt, rfl⟩ := List.getElem?_eq_some_iff.mp ha
    have hodd : ∀ i (hi : i < kernelGdt.length), Access.isSegment kernelGdt[i] →
        Access.isCode kernelGdt[i] → i % 2 = 1 := by decide
    have hplace := hodd _ hlt hok.1.1.1 hok.1.2
    rw [BitVec.getLsbD, Nat.testBit_eq_decide_div_mod_eq]
    exact decide_eq_true hplace

theorem flags_bit {w : u32} (h : fixedFlags w = w) : w.getLsbD 3 = false := by
  rw [← h, fixedFlags]
  simp

theorem cs_ne_eflags (hc : c.Valid kernelGdt) : c.cs.setWidth 32 ≠ c.eflags := by
  intro heq
  have hbit := congrArg (·.getLsbD 3) heq
  simp only [flags_bit hc.flags, BitVec.getLsbD_setWidth, code_bit hc.cs] at hbit
  cases hbit

/-! ### The iff -/

/-- The data segment registers hold the same selector. -/
def SameSegs (c : Context) : Prop := ∀ s, c.seg s = c.seg .ds

/-- In a context on an outer level a null selector is zero; a return to such a level makes it so. -/
def PlainNulls (c : Context) : Prop := c.cpl ≠ 0 → ∀ s, isNull (c.seg s) → c.seg s = 0

/-- From behind the call to the interrupted context, when the frame of the CPU is where the stub
takes it to be. -/
theorem Entered.leaves {f : Handler} {bytes : List u8} {code : Option u32} {d n e : u32}
    (h : Entered f kernelStack c bytes code m d) (hc : c.Valid kernelGdt)
    (hpushed : pushed kernelStack c bytes code = n :: e :: trapFrame (kernelGate kernelStack) c)
    (hcall : Cdecl 1 (trapTop (kernelGate kernelStack) c) m m') :
    ∃ c', run kernelGdt restoreState m' = some c' ∧
      ResumedWith c.reg (fun _ ↦ afterReturn kernelGdt c (c.seg .ds)) c c' := by
  obtain ⟨esp, hs⟩ := h.onStack
  have hlen := outerFrame_length_le (kernelGate kernelStack) c
  rw [hpushed] at hs
  have hback := hcall.drop [m.esp + 4] hs
    (by simp only [savedRegs, trapFrame, List.length_append, List.length_cons, List.length_nil,
          maxWords]
        omega)
  have hcs : m'.cs = KERNEL_CS := hcall.cs.trans h.cs
  have hload : dataLoadable kernelGdt m'.cpl (low16 d) := by
    rw [h.ds, Machine.cpl, hcs]
    exact dataLoadable_mono (Nat.zero_le _) (hc.seg .ds)
  obtain ⟨u, hrun, hu, hureg, huseg, hucs, huss⟩ := restoreState_run hback hload
  have hreturning : Returning (kernelGate kernelStack) c u := by
    refine ⟨hucs.trans hcs, fun hinner ↦ ?_, hu⟩
    rw [kernelGate_level] at hinner
    rw [huss, hcall.ss, h.ss hinner]
  obtain ⟨c', hiret, hresumed⟩ := iret_returning (kernelGate_level kernelStack) hc hreturning
  simp only [hureg, huseg, h.ds] at hresumed
  exact ⟨c', hrun.trans hiret, hresumed⟩

/-- `Trap.Transparent` for a stub that pushes `bytes` and goes on in a common stub. -/
def CommonTransparent (f : Handler) (vector : Nat) (bytes : List u8) (kernelStack : u32)
    (code : Option u32) (c : Context) : Prop :=
  let g := kernelGate kernelStack
  ∃ m rest, runToCall kernelGdt (pushBytes bytes ++ commonStub f) (deliver g c code) =
      some (m, f, rest) ∧
    SeesFrame vector c (registersAt m.mem (m.word 0)) ∧
    ∀ m', Cdecl 1 (trapTop g c) m m' →
      ∃ c', run kernelGdt rest m' = some c' ∧ Resumes (c.reg .eax) c c'

/-- A stub pushes the vector, and before it a word of its own or none. -/
structure StubBytes (vector : Nat) (bytes : List u8) : Prop where
  last : ∃ own v, bytes = own ++ [v] ∧ v.signExtend 32 = BitVec.ofNat 32 vector
  short : bytes.length ≤ 2

-- One word too many or too few shifts the frame of the CPU against the structure.
theorem Entered.length_eq {f : Handler} {vector : Nat} {bytes : List u8} {code : Option u32}
    {d : u32} (h : Entered f kernelStack c bytes code m d) (hc : c.Valid kernelGdt)
    (hbytes : StubBytes vector bytes) (hsees : SeesFrame vector c (registersAt m.mem (m.word 0))) :
    bytes.length + code.toList.length = 2 := by
  obtain ⟨⟨own, v, rfl, -⟩, hshort⟩ := hbytes
  match own, code with
  | [], some w => rfl
  | [x], none => rfl
  | [], none =>
    -- `cs` of the structure is the word of the flags
    have hcs : c.eflags = c.cs.setWidth 32 :=
      (h.field (i := 3) rfl (by simp [pushed, trapFrame])).symm.trans hsees.cs
    exact absurd hcs.symm (cs_ne_eflags hc)
  | [x], some w =>
    -- `eflags` of the structure is the word of the code segment
    have hflags : c.cs.setWidth 32 = c.eflags :=
      (h.field (i := 4) rfl (by simp [pushed, trapFrame])).symm.trans hsees.eflags
    exact absurd hflags (cs_ne_eflags hc)
  | x :: y :: own, _ =>
    simp only [List.length_append, List.length_cons] at hshort
    omega

theorem StubBytes.pushed_eq {vector : Nat} {bytes : List u8} {code : Option u32}
    (hbytes : StubBytes vector bytes) (kernelStack : u32) (c : Context)
    (hlen : bytes.length + code.toList.length = 2) :
    ∃ e, pushed kernelStack c bytes code =
      BitVec.ofNat 32 vector :: e :: trapFrame (kernelGate kernelStack) c := by
  obtain ⟨⟨own, v, rfl, hv⟩, -⟩ := hbytes
  match own, code with
  | [], some w => exact ⟨w, by simp [pushed, hv]⟩
  | [x], none => exact ⟨x.signExtend 32, by simp [pushed, hv]⟩
  | [], none => cases hlen
  | [x], some w => cases hlen
  | x :: y :: own, _ =>
    simp only [List.length_append, List.length_cons] at hlen
    omega

theorem commonTransparent_iff (hc : c.Valid kernelGdt) (f : Handler) {vector : Nat}
    {bytes : List u8} (hbytes : StubBytes vector bytes) (kernelStack : u32) (code : Option u32) :
    CommonTransparent f vector bytes kernelStack code c ↔
      bytes.length + code.toList.length = 2 ∧ SameSegs c ∧ PlainNulls c := by
  obtain ⟨m, d, h⟩ := entered f kernelStack c hbytes.short code
  constructor
  · rintro ⟨m₁, rest, hrun, hsees, hreturn⟩
    rw [h.runs] at hrun
    cases hrun
    have hlen := h.length_eq hc hbytes hsees
    obtain ⟨e, hpushed⟩ := hbytes.pushed_eq kernelStack c hlen
    -- a handler that does nothing returns, too
    have hcall := Cdecl.refl 1 (trapTop (kernelGate kernelStack) c) m
    obtain ⟨c₁, hrun₁, hresumes⟩ := hreturn m hcall
    obtain ⟨c₂, hrun₂, hresumed⟩ := h.leaves hc hpushed hcall
    rw [hrun₁] at hrun₂
    cases hrun₂
    have hsegs (s : SegReg) : afterReturn kernelGdt c (c.seg .ds) = c.seg s :=
      (congrFun hresumed.seg s).symm.trans (hresumes.seg s)
    have hds := hsegs .ds
    have hsame : SameSegs c := fun s ↦ (hsegs s).symm.trans hds
    refine ⟨hlen, hsame, fun houter s hnull ↦ ?_⟩
    rw [hsame s] at hnull ⊢
    exact (afterReturn_eq_iff hc .ds).mp hds houter hnull
  · rintro ⟨hlen, hsame, hnulls⟩
    obtain ⟨e, hpushed⟩ := hbytes.pushed_eq kernelStack c hlen
    refine ⟨m, restoreState, h.runs, h.sees hpushed, fun m' hcall ↦ ?_⟩
    obtain ⟨c', hrun, hresumed⟩ := h.leaves hc hpushed hcall
    have hds := (afterReturn_eq_iff hc .ds).mpr fun houter ↦ hnulls houter .ds
    refine ⟨c', hrun, hresumed.eip, hresumed.cs, hresumed.eflags, hresumed.esp, hresumed.ss,
      fun s ↦ ?_, fun r ↦ ?_⟩
    · exact (congrFun hresumed.seg s).trans (hds.trans (hsame s).symm)
    · rw [hresumed.reg]
      by_cases hr : r = .eax
      · rw [hr, if_pos rfl]
      · rw [if_neg hr]

/-! ## `int 0x80` -/

/-- The arguments of `syscall_dispatcher`, in order; `push` stores them from the last on. -/
def argRegs : List Reg := [.eax, .ebx, .ecx, .edx, .esi, .edi]

def afterDispatch : Code :=
  [.addEsp 24, .addEsp 4, .pop .ebx, .pop .ecx, .pop .edx, .pop .esi, .pop .edi, .iret]

/-- Up to the call: the registers lie on the stack as arguments, and once more to be saved. -/
theorem pushArgs_steps (h : OnStack m top ws) (hlen : ws.length ≤ 5) :
    ∃ m', steps kernelGdt (pushArgs ++ pushArgs) m = some m' ∧
      OnStack m' top (argRegs.map m.reg ++ (argRegs.map m.reg ++ ws)) ∧ m'.reg = m.reg ∧
        m'.seg = m.seg ∧ m'.cs = m.cs ∧ m'.ss = m.ss := by
  have hpushes {t : Machine} {ws : List u32} (ht : OnStack t top ws) (hlen : ws.length ≤ 11) :=
    steps_pushes kernelGdt (F := Handler) .push (fun reg r ↦ reg r) (fun _ _ ↦ rfl)
      [.edi, .esi, .edx, .ecx, .ebx, .eax] ht
      (by simp only [List.length_cons, List.length_nil, maxWords]; omega)
  obtain ⟨t, hsave, ht, hreg, hseg, hcs, hss⟩ := hpushes h (by omega)
  obtain ⟨u, hargs, hu, hreg', hseg', hcs', hss'⟩ := hpushes ht
    (by simp only [List.length_append, List.length_reverse, List.length_map, List.length_cons,
          List.length_nil]
        omega)
  refine ⟨u, (steps_append hsave).trans hargs, ?_, hreg'.trans hreg, hseg'.trans hseg,
    hcs'.trans hcs, hss'.trans hss⟩
  rw [hreg] at hu
  exact hu

/-- From behind the call to `iret`: the saved registers but `eax`, which is that of the call. -/
theorem afterDispatch_run {reg : Reg → u32} (h : OnStack (m.drop 6) top (argRegs.map reg ++ ws)) :
    ∃ m', run kernelGdt afterDispatch m = iret kernelGdt m' ∧ OnStack m' top ws ∧
      (∀ r, m'.reg r = if r ∈ [Reg.ebx, .ecx, .edx, .esi, .edi] then reg r else m.reg r) ∧
      m'.seg = m.seg ∧ m'.cs = m.cs ∧ m'.ss = m.ss := by
  let t := { m.drop 6 with eflags := addFlags m.esp 24 m.eflags }
  let u := { t.drop 1 with eflags := addFlags t.esp 4 t.eflags }
  have hskip : steps kernelGdt ([.addEsp 24, .addEsp 4] : Code) m = some u := rfl
  have hu : OnStack u top ([Reg.ebx, .ecx, .edx, .esi, .edi].map reg ++ ws) := h.tail.congr rfl rfl
  obtain ⟨m', hpops, hm', hreg, hseg, hcs, hss⟩ := steps_pop kernelGdt (F := Handler) _ reg hu
  refine ⟨m', ?_, hm', hreg, hseg, hcs, hss⟩
  have hrest := run_steps [.iret] hpops
  exact (run_steps _ hskip).trans hrest

/-- What the stub of `int 0x80` gives to `syscall_dispatcher`. -/
structure Dispatched (kernelStack : u32) (c : Context) (m : Machine) : Prop where
  runs : runToCall kernelGdt syscallHandlerAsm (deliver (kernelGate kernelStack) c none) =
    some (m, .syscallDispatcher, afterDispatch)
  onStack : OnStack m (trapTop (kernelGate kernelStack) c)
    (argRegs.map c.reg ++ (argRegs.map c.reg ++ trapFrame (kernelGate kernelStack) c))
  reg : m.reg = c.reg
  seg : m.seg = c.seg
  cs : m.cs = KERNEL_CS
  ss : c.cpl = 0 → m.ss = c.ss

theorem dispatched (kernelStack : u32) (c : Context) : ∃ m, Dispatched kernelStack c m := by
  let g := kernelGate kernelStack
  obtain ⟨hreg₀, hseg₀, hss₀⟩ := deliver_regs g c none
  have hlen : (trapFrame g c).length ≤ 5 := by
    have houter := outerFrame_length_le g c
    simp only [trapFrame, List.length_cons]
    omega
  obtain ⟨m, hsteps, hm, hreg, hseg, hcs, hss⟩ := pushArgs_steps (deliver_onStack g c none) hlen
  rw [hreg₀] at hm
  refine ⟨m, runToCall_steps _ hsteps, hm, hreg.trans hreg₀, hseg.trans hseg₀, hcs, fun hinner ↦ ?_⟩
  exact hss.trans (hss₀ (hinner.trans (kernelGate_level kernelStack).symm))

theorem Dispatched.sees (h : Dispatched kernelStack c m) : Trap.syscall.Sees c m := by
  change (List.range 6).map m.word = argRegs.map c.reg
  refine List.ext_getElem (by simp [argRegs]) fun i hi hi' ↦ ?_
  have hlt : i < (argRegs.map c.reg ++
      (argRegs.map c.reg ++ trapFrame (kernelGate kernelStack) c)).length := by
    rw [List.length_append]
    omega
  rw [List.getElem_map, List.getElem_range, h.onStack.word i hlt, List.getElem_append_left hi']

/-- From behind the call to the interrupted context. -/
theorem Dispatched.leaves (h : Dispatched kernelStack c m) (hc : c.Valid kernelGdt)
    (hcall : Cdecl 6 (trapTop (kernelGate kernelStack) c) m m') :
    ∃ c', run kernelGdt afterDispatch m' = some c' ∧
      ResumedWith (fun r ↦ if r = .eax then m'.reg .eax else c.reg r)
        (fun s ↦ afterReturn kernelGdt c (c.seg s)) c c' := by
  have hlen := outerFrame_length_le (kernelGate kernelStack) c
  have hback := Cdecl.drop (argRegs.map c.reg) hcall h.onStack (by
    simp only [trapFrame, argRegs, List.length_append, List.length_map, List.length_cons,
      List.length_nil, maxWords]
    omega)
  obtain ⟨u, hrun, hu, hureg, huseg, hucs, huss⟩ := afterDispatch_run hback
  have hreturning : Returning (kernelGate kernelStack) c u := by
    refine ⟨hucs.trans (hcall.cs.trans h.cs), fun hinner ↦ ?_, hu⟩
    rw [kernelGate_level] at hinner
    rw [huss, hcall.ss, h.ss hinner]
  have hregs : u.reg = fun r ↦ if r = .eax then m'.reg .eax else c.reg r := by
    funext r
    rw [hureg r]
    cases r with
    | eax => rfl
    | ebp =>
      -- the stub leaves `ebp` to the convention
      have hebp := hcall.reg .ebp (by simp)
      rw [h.reg] at hebp
      exact hebp
    | _ => rfl
  obtain ⟨c', hiret, hresumed⟩ := iret_returning (kernelGate_level kernelStack) hc hreturning
  rw [hregs, huseg, hcall.seg, h.seg] at hresumed
  exact ⟨c', hrun.trans hiret, hresumed⟩

theorem syscall_transparent_iff (hc : c.Valid kernelGdt) (hasCode : Fin 32 → Bool)
    (kernelStack code : u32) :
    Trap.syscall.Transparent hasCode kernelStack code c ↔ PlainNulls c := by
  obtain ⟨m, h⟩ := dispatched kernelStack c
  constructor
  · rintro ⟨stub, m₁, rest, hstub, hrun, -, hreturn⟩ houter s
    cases hstub
    have hsame := h.runs.symm.trans hrun
    cases hsame
    -- a handler that does nothing returns, too
    have hcall := Cdecl.refl 6 (trapTop (kernelGate kernelStack) c) m
    obtain ⟨c₁, hrun₁, hresumes⟩ := hreturn m hcall
    obtain ⟨c₂, hrun₂, hresumed⟩ := h.leaves hc hcall
    rw [hrun₁] at hrun₂
    cases hrun₂
    have hseg := (congrFun hresumed.seg s).symm.trans (hresumes.seg s)
    exact (afterReturn_eq_iff hc s).mp hseg houter
  · intro hnulls
    refine ⟨syscallHandlerAsm, m, afterDispatch, rfl, h.runs, h.sees, fun m' hcall ↦ ?_⟩
    obtain ⟨c', hrun, hresumed⟩ := h.leaves hc hcall
    refine ⟨c', hrun, hresumed.eip, hresumed.cs, hresumed.eflags, hresumed.esp, hresumed.ss,
      fun s ↦ ?_, congrFun hresumed.reg⟩
    have hseg := (afterReturn_eq_iff hc s).mpr fun houter ↦ hnulls houter s
    exact (congrFun hresumed.seg s).trans hseg

/-! ## Every trap -/

/-- The exceptions whose stub leaves the error code to the CPU. -/
def stubTakesCode (n : Fin 32) : Bool := n.val ∈ [8, 10, 11, 12, 13, 14]

def exceptionBytes (n : Fin 32) : List u8 :=
  if stubTakesCode n then [BitVec.ofNat 8 n] else [0, BitVec.ofNat 8 n]

theorem exception_stub : ∀ n : Fin 32, isrInstall (Trap.exception n).vector =
    some (pushBytes (exceptionBytes n) ++ commonStub .isrHandler) := by decide

theorem irq_stub : ∀ n : Fin 16, isrInstall (Trap.irq n).vector =
    some (pushBytes [BitVec.ofNat 8 n, BitVec.ofNat 8 (32 + n)] ++ commonStub .irqHandler) := by
  decide

theorem exceptionBytes_stub (n : Fin 32) : StubBytes n (exceptionBytes n) := by
  have hext : ∀ n : Fin 32, (BitVec.ofNat 8 n).signExtend 32 = BitVec.ofNat 32 n := by decide
  rw [exceptionBytes]
  split
  · exact ⟨⟨[], _, rfl, hext n⟩, by simp⟩
  · exact ⟨⟨[0], _, rfl, hext n⟩, by simp⟩

theorem irqBytes_stub (n : Fin 16) :
    StubBytes (32 + n) [BitVec.ofNat 8 n, BitVec.ofNat 8 (32 + n)] := by
  have hext : ∀ n : Fin 16, (BitVec.ofNat 8 (32 + n)).signExtend 32 = BitVec.ofNat 32 (32 + n) := by
    decide
  exact ⟨⟨[_], _, rfl, hext n⟩, by simp⟩

/-- When a trap is transparent: exactly one of the CPU and the stub pushes the error code, what is
saved of the data segment registers is all of them, and the return leaves null selectors alone. -/
def Trap.Restorable (hasCode : Fin 32 → Bool) (c : Context) : Trap → Prop
  | .exception n => hasCode n = stubTakesCode n ∧ SameSegs c ∧ PlainNulls c
  | .irq _ => SameSegs c ∧ PlainNulls c
  | .syscall => PlainNulls c

theorem exception_transparent_iff (hc : c.Valid kernelGdt) (hasCode : Fin 32 → Bool) (n : Fin 32)
    (kernelStack code : u32) : (Trap.exception n).Transparent hasCode kernelStack code c ↔
      (Trap.exception n).Restorable hasCode c := by
  have hcommon := commonTransparent_iff hc .isrHandler (exceptionBytes_stub n) kernelStack
    ((Trap.exception n).errorCode hasCode code)
  have hlen : (exceptionBytes n).length +
      ((Trap.exception n).errorCode hasCode code).toList.length = 2 ↔ hasCode n = stubTakesCode n := by
    rw [exceptionBytes, Trap.errorCode]
    cases hasCode n <;> cases stubTakesCode n <;> simp
  rw [hlen] at hcommon
  refine Iff.trans ⟨?_, ?_⟩ hcommon
  · rintro ⟨stub, m, rest, hstub, hrun, hsees, hreturn⟩
    rw [exception_stub n] at hstub
    cases hstub
    exact ⟨m, rest, hrun, hsees, hreturn⟩
  · rintro ⟨m, rest, hrun, hsees, hreturn⟩
    exact ⟨_, m, rest, exception_stub n, hrun, hsees, hreturn⟩

theorem irq_transparent_iff (hc : c.Valid kernelGdt) (hasCode : Fin 32 → Bool) (n : Fin 16)
    (kernelStack code : u32) : (Trap.irq n).Transparent hasCode kernelStack code c ↔
      (Trap.irq n).Restorable hasCode c := by
  have hcommon := commonTransparent_iff hc .irqHandler (irqBytes_stub n) kernelStack none
  rw [and_iff_right (by rfl)] at hcommon
  refine Iff.trans ⟨?_, ?_⟩ hcommon
  · rintro ⟨stub, m, rest, hstub, hrun, hsees, hreturn⟩
    rw [irq_stub n] at hstub
    cases hstub
    exact ⟨m, rest, hrun, hsees, hreturn⟩
  · rintro ⟨m, rest, hrun, hsees, hreturn⟩
    exact ⟨_, m, rest, irq_stub n, hrun, hsees, hreturn⟩

theorem trap_transparent_iff {c : Context} (hc : c.Valid kernelGdt) (hasCode : Fin 32 → Bool)
    (kernelStack code : u32) (t : Trap) :
    t.Transparent hasCode kernelStack code c ↔ t.Restorable hasCode c := by
  cases t with
  | exception n => exact exception_transparent_iff hc hasCode n kernelStack code
  | irq n => exact irq_transparent_iff hc hasCode n kernelStack code
  | syscall => exact syscall_transparent_iff hc hasCode kernelStack code

/-- A program on level 3, as `jump_usermode` starts it but for `es`. -/
def userContext (es : Selector) : Context where
  reg := fun _ ↦ 0
  esp := 0x00801000
  seg := fun s ↦ if s = .es then es else 0x23
  cs := 0x1B
  ss := 0x23
  eflags := 0x202
  mem := fun _ ↦ 0
  eip := 0x00101000

theorem userContext_valid {es : Selector} (hes : dataLoadable kernelGdt 3 es) :
    (userContext es).Valid kernelGdt := by
  have hlevel : (userContext es).cpl = 3 := (by decide : rpl 0x1B = 3)
  refine ⟨(by decide : fixedFlags 0x202 = 0x202), (by decide : (0x202 : u32).getLsbD vmFlag = false),
    (by decide : codeLoadable kernelGdt 0x1B), ?_, fun s ↦ ?_⟩
  · rw [hlevel]
    exact (by decide : stackLoadable kernelGdt 3 0x23)
  · rw [hlevel]
    cases s with
    | es => exact hes
    | _ => exact (by decide : dataLoadable kernelGdt 3 0x23)

/-- The exceptions that have an error code; 21 has one where control flow is protected. -/
def cpuHasCode (n : Fin 32) : Bool := n.val ∈ [8, 10, 11, 12, 13, 14, 17, 21]

theorem trap_transparent_userContext :
    (Trap.irq 1).Transparent cpuHasCode 0x9000 0 (userContext 0x23) := by
  refine (trap_transparent_iff (userContext_valid (by decide)) cpuHasCode 0x9000 0 (.irq 1)).mpr ?_
  refine ⟨fun s ↦ ?_, fun _ s hnull ↦ ?_⟩
  · cases s <;> rfl
  · cases s <;> exact absurd hnull (by decide)

-- An alignment check, and an IRQ of a program that has loaded a null selector to `es`.
theorem not_trap_transparent :
    (userContext 0x23).Valid kernelGdt ∧
      ¬ (Trap.exception 17).Transparent cpuHasCode 0x9000 0 (userContext 0x23) ∧
    (userContext 0).Valid kernelGdt ∧
      ¬ (Trap.irq 1).Transparent cpuHasCode 0x9000 0 (userContext 0) := by
  have hvalid : (userContext 0x23).Valid kernelGdt := userContext_valid (by decide)
  have hvalid' : (userContext 0).Valid kernelGdt := userContext_valid (by decide)
  refine ⟨hvalid, fun h ↦ ?_, hvalid', fun h ↦ ?_⟩
  · have hcode := ((exception_transparent_iff hvalid cpuHasCode 17 0x9000 0).mp h).1
    revert hcode
    decide
  · have hsame := ((irq_transparent_iff hvalid' cpuHasCode 1 0x9000 0).mp h).1 .es
    revert hsame
    decide

end TenOs.Cpu
