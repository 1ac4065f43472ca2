import Mathlib.Logic.Relation
import TenOs.Cpu.Interrupt

/-!
# `kernel/jmp_user.c` and the run of the user program

`jump_usermode` leaves ring 0 through an `iret` frame of its own.  From there on the program computes,
makes system calls and is interrupted by IRQs, in any order; every trap enters the kernel on an empty
kernel stack and resumes the program as it was.
-/

namespace TenOs.Kernel

open TenOs.Lib TenOs.X86 TenOs.Cpu

/-! ## `jump_usermode` -/

/-- The program runs in ring 3 with interrupts on, without I/O privilege, on its own segments. -/
structure InUser (c : Context) : Prop where
  flags : fixedFlags c.eflags = c.eflags
  vm : c.eflags.getLsbD vmFlag = false
  interrupts : c.eflags.getLsbD 9 = true
  iopl : c.eflags.extractLsb' 12 2 = 0
  cs : c.cs = 0x1B
  ss : c.ss = 0x23
  seg : ∀ s, c.seg s = 0x23

/-- An instruction of the program.  Ring 3 cannot change IF, IOPL and VM, and the program does not load
segment registers. -/
structure UserStep (c c' : Context) : Prop where
  fixed : fixedFlags c'.eflags = c'.eflags
  vm : c'.eflags.getLsbD vmFlag = c.eflags.getLsbD vmFlag
  interrupts : c'.eflags.getLsbD 9 = c.eflags.getLsbD 9
  iopl : c'.eflags.extractLsb' 12 2 = c.eflags.extractLsb' 12 2
  cs : c'.cs = c.cs
  ss : c'.ss = c.ss
  seg : c'.seg = c.seg

/-- The traps from which the kernel returns: `isr_handler` does not. -/
def Returns : Trap → Prop
  | .exception _ => False
  | .irq _ | .syscall => True

/-- A step of the program, or a trap whose handler keeps to the calling convention. -/
inductive ProgramStep (kernelStack : u32) (c c' : Context) : Prop
  | user (h : UserStep c c')
  | trap (t : Trap) (returns : Returns t) (stub : Code) (m m' : Machine) (rest : Code)
      (installed : isrInstall t.vector = some stub)
      (enters : runToCall kernelGdt stub (deliver (kernelGate kernelStack) c none) =
        some (m, t.handler, rest))
      (call : Cdecl t.args (trapTop (kernelGate kernelStack) c) m m')
      (leaves : run kernelGdt rest m' = some c')

/-! ## Into ring 3 -/

variable {kernelStack : u32} {c c' : Context}

theorem InUser.cpl (h : InUser c) : c.cpl = 3 := by
  rw [Machine.cpl, h.cs]
  decide

theorem InUser.valid (h : InUser c) : c.Valid kernelGdt := by
  refine ⟨h.flags, h.vm, ?_, ?_, fun s ↦ ?_⟩
  · rw [h.cs]
    decide
  · rw [h.cpl, h.ss]
    decide
  · rw [h.cpl, h.seg s]
    decide

theorem InUser.transparent (h : InUser c) {t : Trap} (ht : Returns t) (hasCode : Fin 32 → Bool)
    (kernelStack code : u32) : t.Transparent hasCode kernelStack code c := by
  have hsame : SameSegs c := fun s ↦ (h.seg s).trans (h.seg .ds).symm
  have hnulls : PlainNulls c := fun _ s hnull ↦ by
    rw [h.seg s] at hnull
    exact absurd hnull (by decide)
  cases t with
  | exception n => exact ht.elim
  | irq n => exact (irq_transparent_iff h.valid hasCode n kernelStack code).mpr ⟨hsame, hnulls⟩
  | syscall => exact (syscall_transparent_iff h.valid hasCode kernelStack code).mpr hnulls

-- A trap comes back to where it came from.
theorem InUser.resumes (h : InUser c) {eax : u32} (hres : Resumes eax c c') : InUser c' := by
  refine ⟨?_, ?_, ?_, ?_, hres.cs.trans h.cs, hres.ss.trans h.ss, fun s ↦ (hres.seg s).trans (h.seg s)⟩
  all_goals rw [hres.eflags]
  · exact h.flags
  · exact h.vm
  · exact h.interrupts
  · exact h.iopl

theorem InUser.step (h : InUser c) (hstep : ProgramStep kernelStack c c') : InUser c' := by
  cases hstep with
  | user hu =>
    exact ⟨hu.fixed, hu.vm.trans h.vm, hu.interrupts.trans h.interrupts, hu.iopl.trans h.iopl,
      hu.cs.trans h.cs, hu.ss.trans h.ss, fun s ↦ (congrFun hu.seg s).trans (h.seg s)⟩
  | trap t returns stub m m' rest installed enters call leaves =>
    obtain ⟨stub₁, m₁, rest₁, hinstalled, henters, -, hreturn⟩ :=
      h.transparent returns (fun _ ↦ false) kernelStack 0
    have hnone : t.errorCode (fun _ ↦ false) 0 = none := by cases t <;> rfl
    rw [hinstalled, Option.some.injEq] at installed
    rw [hnone, installed, enters] at henters
    cases henters
    obtain ⟨c₁, hleaves, hres⟩ := hreturn m' call
    rw [leaves] at hleaves
    cases hleaves
    exact h.resumes hres

end TenOs.Kernel
