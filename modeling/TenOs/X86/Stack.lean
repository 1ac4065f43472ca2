import TenOs.X86.Machine

/-!
# The stack of a trap

`OnStack` lists the words that a trap has on its stack.  What is delivered, pushed and popped is
followed on the list, and `iret` resumes the interrupted context when the list is the frame that the
delivery pushed.
-/

namespace TenOs.X86

variable {gdt : DescriptorTable} {m m' : Machine} {top w : Word} {ws : List Word}

/-- The words `ws`, the newest first, lie between the stack pointer and `top`. -/
structure OnStack (m : Machine) (top : Word) (ws : List Word) : Prop where
  esp : m.esp = top - BitVec.ofNat 32 (4 * ws.length)
  word : ∀ i (hi : i < ws.length), m.word i = ws[i]

/-- No trap stores more words than this on its stack. -/
def maxWords : Nat := 64

namespace Machine

@[simp] theorem setReg_self (m : Machine) (r : Reg) (w : Word) : (m.setReg r w).reg r = w := by
  simp [setReg]

theorem drop_word (m : Machine) (n i : Nat) : (m.drop n).word i = m.word (n + i) := by
  have haddr : m.esp + BitVec.ofNat 32 (4 * n) + BitVec.ofNat 32 (4 * i) =
      m.esp + BitVec.ofNat 32 (4 * (n + i)) := by
    rw [BitVec.add_assoc, ← BitVec.ofNat_add, Nat.mul_add]
  exact congrArg m.mem haddr

-- A word that is pushed lies below those pushed before it.
theorem push_word_succ (m : Machine) (w : Word) {i : Nat} (hi : i < maxWords) :
    (m.push w).word (i + 1) = m.word i := by
  have haddr : m.esp - 4 + BitVec.ofNat 32 (4 * (i + 1)) = m.esp + BitVec.ofNat 32 (4 * i) := by
    bv_omega
  have hne : m.esp + BitVec.ofNat 32 (4 * i) ≠ m.esp - 4 := by
    unfold maxWords at hi
    bv_omega
  change Function.update m.mem (m.esp - 4) w (m.esp - 4 + BitVec.ofNat 32 (4 * (i + 1))) = _
  rw [haddr, Function.update_of_ne hne]
  rfl

theorem push_word_zero (m : Machine) (w : Word) : (m.push w).word 0 = w := by
  change Function.update m.mem (m.esp - 4) w (m.esp - 4 + 0#32) = w
  rw [BitVec.add_zero]
  exact Function.update_self _ _ _

end Machine

namespace OnStack

theorem nil (m : Machine) : OnStack m m.esp [] := ⟨(BitVec.sub_zero _).symm, by simp⟩

/-- The list is about the stack pointer and the memory only. -/
theorem congr (h : OnStack m top ws) (hesp : m'.esp = m.esp) (hmem : m'.mem = m.mem) :
    OnStack m' top ws := by
  refine ⟨hesp.trans h.esp, fun i hi ↦ ?_⟩
  rw [← h.word i hi, Machine.word, Machine.word, hesp, hmem]

theorem push (h : OnStack m top ws) (hlen : ws.length < maxWords) (w : Word) :
    OnStack (m.push w) top (w :: ws) := by
  refine ⟨?_, fun i hi ↦ ?_⟩
  · change m.esp - 4 = _
    rw [h.esp, List.length_cons, Nat.mul_succ, BitVec.ofNat_add, BitVec.sub_sub]
    rfl
  · cases i with
    | zero => exact m.push_word_zero w
    | succ i =>
      have hi : i < ws.length := Nat.lt_of_succ_lt_succ hi
      rw [m.push_word_succ w (Nat.lt_trans hi hlen)]
      exact h.word i hi

theorem head (h : OnStack m top (w :: ws)) : m.word 0 = w := h.word 0 (Nat.succ_pos _)

theorem drop (xs : List Word) (h : OnStack m top (xs ++ ws)) :
    OnStack (m.drop xs.length) top ws := by
  refine ⟨?_, fun i hi ↦ ?_⟩
  · change m.esp + _ = _
    rw [h.esp, List.length_append, Nat.mul_add, BitVec.ofNat_add]
    bv_omega
  · have hlt : xs.length + i < (xs ++ ws).length := by
      rw [List.length_append]
      omega
    rw [m.drop_word, h.word _ hlt]
    simp

theorem tail (h : OnStack m top (w :: ws)) : OnStack (m.drop 1) top ws := drop [w] h

end OnStack

/-! ## Registers saved and restored -/

/-- The eight words that `pusha` stores. -/
def savedRegs (reg : Reg → Word) (esp : Word) : List Word :=
  [reg .edi, reg .esi, reg .ebp, esp, reg .ebx, reg .edx, reg .ecx, reg .eax]

theorem OnStack.pusha (h : OnStack m top ws) (hlen : ws.length + 8 ≤ maxWords) :
    OnStack (pusha m) top (savedRegs m.reg m.esp ++ ws) := by
  have hroom {k : Nat} (hk : k < 8) : ws.length + k < maxWords := by omega
  have heax := h.push (hroom (k := 0) (by decide)) (m.reg .eax)
  have hecx := heax.push (hroom (k := 1) (by decide)) (m.reg .ecx)
  have hedx := hecx.push (hroom (k := 2) (by decide)) (m.reg .edx)
  have hebx := hedx.push (hroom (k := 3) (by decide)) (m.reg .ebx)
  have hesp := hebx.push (hroom (k := 4) (by decide)) m.esp
  have hebp := hesp.push (hroom (k := 5) (by decide)) (m.reg .ebp)
  have hesi := hebp.push (hroom (k := 6) (by decide)) (m.reg .esi)
  exact hesi.push (hroom (k := 7) (by decide)) (m.reg .edi)

/-- `popa` brings the registers back that `pusha` stored. -/
theorem OnStack.popa {reg : Reg → Word} {esp : Word} (h : OnStack m top (savedRegs reg esp ++ ws)) :
    OnStack (popa m) top ws ∧ (popa m).reg = reg := by
  have hdrop : OnStack (m.drop 8) top ws := h.drop (savedRegs reg esp)
  refine ⟨hdrop.congr rfl rfl, funext fun r ↦ ?_⟩
  have hword (i : Nat) (hi : i < 8) : m.word i = (savedRegs reg esp)[i] := by
    rw [h.word i (by rw [List.length_append]; exact Nat.lt_add_right _ hi)]
    exact List.getElem_append_left hi
  cases r with
  | edi => exact hword 0 (by decide)
  | esi => exact hword 1 (by decide)
  | ebp => exact hword 2 (by decide)
  | ebx => exact hword 4 (by decide)
  | edx => exact hword 5 (by decide)
  | ecx => exact hword 6 (by decide)
  | eax => exact hword 7 (by decide)

/-! ## Straight-line code -/

section

variable {F : Type} {is : List (Instr F)}

/-- Code without calls and returns. -/
def steps (gdt : DescriptorTable) (is : List (Instr F)) (m : Machine) : Option Machine :=
  is.foldlM (step gdt) m

theorem steps_cons {i : Instr F} (h : step gdt m i = some m') :
    steps gdt (i :: is) m = steps gdt is m' := by
  rw [steps, List.foldlM_cons, h]
  rfl

theorem steps_append {is' : List (Instr F)} (h : steps gdt is m = some m') :
    steps gdt (is ++ is') m = steps gdt is' m' := by
  rw [steps, List.foldlM_append, ← steps, h]
  rfl

-- A step that goes through is no call and no return.
theorem runToCall_steps (rest : List (Instr F)) (h : steps gdt is m = some m') :
    runToCall gdt (is ++ rest) m = runToCall gdt rest m' := by
  induction is generalizing m with
  | nil =>
    cases h
    rfl
  | cons i is ih =>
    obtain ⟨t, ht, hrest⟩ := Option.bind_eq_some_iff.mp h
    have hcons : runToCall gdt (i :: is ++ rest) m =
        (step gdt m i).bind (runToCall gdt (is ++ rest)) := by
      cases i with
      | call f => cases ht
      | iret => cases ht
      | _ => rfl
    rw [hcons, ht]
    exact ih hrest

theorem run_steps (rest : List (Instr F)) (h : steps gdt is m = some m') :
    run gdt (is ++ rest) m = run gdt rest m' := by
  induction is generalizing m with
  | nil =>
    cases h
    rfl
  | cons i is ih =>
    obtain ⟨t, ht, hrest⟩ := Option.bind_eq_some_iff.mp h
    have hcons : run gdt (i :: is ++ rest) m = (step gdt m i).bind (run gdt (is ++ rest)) := by
      cases i with
      | call f => cases ht
      | iret => cases ht
      | _ => rfl
    rw [hcons, ht]
    exact ih hrest

/-- Pushes one after the other, where `f a` pushes the word `val m.reg a`. -/
theorem steps_pushes (gdt : DescriptorTable) {α : Type} (f : α → Instr F)
    (val : (Reg → Word) → α → Word) (hf : ∀ m a, step gdt m (f a) = some (m.push (val m.reg a)))
    (l : List α) (h : OnStack m top ws)
    (hlen : ws.length + l.length ≤ maxWords) :
    ∃ m', steps gdt (l.map f) m = some m' ∧ OnStack m' top ((l.map (val m.reg)).reverse ++ ws) ∧
      m'.reg = m.reg ∧ m'.seg = m.seg ∧ m'.cs = m.cs ∧ m'.ss = m.ss := by
  induction l generalizing m ws with
  | nil => exact ⟨m, rfl, h, rfl, rfl, rfl, rfl⟩
  | cons a l ih =>
    rw [List.length_cons] at hlen
    have hpush := h.push (by omega) (val m.reg a)
    obtain ⟨m', hsteps, hs, hreg, hseg, hcs, hss⟩ := ih hpush (by rw [List.length_cons]; omega)
    refine ⟨m', ?_, ?_, hreg, hseg, hcs, hss⟩
    · rw [List.map_cons, steps_cons (hf m a), hsteps]
    · rw [List.map_cons, List.reverse_cons, List.append_assoc]
      exact hs

/-- Pops of registers bring back the values `val`. -/
theorem steps_pop (gdt : DescriptorTable) (l : List Reg) (val : Reg → Word)
    (h : OnStack m top (l.map val ++ ws)) :
    ∃ m', steps gdt (l.map (Instr.pop (F := F))) m = some m' ∧ OnStack m' top ws ∧
      (∀ r, m'.reg r = if r ∈ l then val r else m.reg r) ∧ m'.seg = m.seg ∧ m'.cs = m.cs ∧
        m'.ss = m.ss := by
  induction l generalizing m with
  | nil => exact ⟨m, rfl, h, fun r ↦ rfl, rfl, rfl, rfl⟩
  | cons r l ih =>
    have hpop : OnStack ((m.drop 1).setReg r (m.word 0)) top (l.map val ++ ws) :=
      h.tail.congr rfl rfl
    obtain ⟨m', hsteps, hs, hreg, hseg, hcs, hss⟩ := ih hpop
    refine ⟨m', ?_, hs, fun r' ↦ ?_, hseg, hcs, hss⟩
    · rw [List.map_cons, steps_cons rfl, hsteps]
    · have hval : m.word 0 = val r := h.head
      rw [hreg r', hval]
      change (if r' ∈ l then val r' else Function.update m.reg r (val r) r') = _
      by_cases hr : r' = r
      · rw [hr, Function.update_self, if_pos List.mem_cons_self, ite_self]
      · rw [Function.update_of_ne hr]
        simp only [List.mem_cons, hr, false_or]

/-- Moves of `ax` to data segment registers. -/
theorem steps_movSeg (l : List SegReg) (h : dataLoadable gdt m.cpl (low16 (m.reg .eax))) :
    ∃ m', steps gdt (l.map (Instr.movSegAx (F := F))) m = some m' ∧ m'.esp = m.esp ∧
      m'.mem = m.mem ∧ m'.reg = m.reg ∧
      (∀ s, m'.seg s = if s ∈ l then low16 (m.reg .eax) else m.seg s) ∧ m'.cs = m.cs ∧
        m'.ss = m.ss := by
  induction l generalizing m with
  | nil => exact ⟨m, rfl, rfl, rfl, rfl, fun s ↦ rfl, rfl, rfl⟩
  | cons s l ih =>
    let t : Machine := { m with seg := Function.update m.seg s (low16 (m.reg .eax)) }
    have hmove : step gdt m (Instr.movSegAx (F := F) s) = some t := if_pos h
    obtain ⟨m', hsteps, hesp, hmem, hreg, hseg, hcs, hss⟩ := ih (m := t) h
    refine ⟨m', ?_, hesp, hmem, hreg, fun s' ↦ ?_, hcs, hss⟩
    · rw [List.map_cons, steps_cons hmove, hsteps]
    · rw [hseg s']
      change (if s' ∈ l then low16 (m.reg .eax) else
        Function.update m.seg s (low16 (m.reg .eax)) s') = _
      by_cases hs : s' = s
      · rw [hs, Function.update_self, if_pos List.mem_cons_self, ite_self]
      · rw [Function.update_of_ne hs]
        simp only [List.mem_cons, hs, false_or]

end

/-! ## Calls -/

/-- What the C calling convention promises of a call with `args` words of arguments: the callee may
change its arguments, but not the other words that its caller has on the stack. -/
structure Cdecl (args : Nat) (top : Word) (m m' : Machine) : Prop where
  reg : ∀ r ∈ [Reg.ebx, .ebp, .esi, .edi], m'.reg r = m.reg r
  esp : m'.esp = m.esp
  seg : m'.seg = m.seg
  cs : m'.cs = m.cs
  ss : m'.ss = m.ss
  word : ∀ i, args ≤ i → i < (top - m.esp).toNat / 4 → m'.word i = m.word i

theorem Cdecl.refl (args : Nat) (top : Word) (m : Machine) : Cdecl args top m m :=
  ⟨fun _ _ ↦ rfl, rfl, rfl, rfl, rfl, fun _ _ _ ↦ rfl⟩

theorem OnStack.depth (h : OnStack m top ws) (hlen : ws.length ≤ maxWords) :
    (top - m.esp).toNat / 4 = ws.length := by
  unfold maxWords at hlen
  have hesp := h.esp
  bv_omega

/-- After the call the caller finds its words behind the arguments. -/
theorem Cdecl.drop (xs : List Word) (h : Cdecl xs.length top m m') (hs : OnStack m top (xs ++ ws))
    (hlen : (xs ++ ws).length ≤ maxWords) : OnStack (m'.drop xs.length) top ws := by
  have hdrop : OnStack (m.drop xs.length) top ws := hs.drop xs
  refine ⟨?_, fun i hi ↦ ?_⟩
  · rw [← hdrop.esp]
    exact congrArg (· + BitVec.ofNat 32 (4 * xs.length)) h.esp
  · have hdepth := hs.depth hlen
    rw [List.length_append] at hdepth
    rw [← hdrop.word i hi, Machine.drop_word, Machine.drop_word]
    exact h.word _ (Nat.le_add_right _ _) (by omega)

/-! ## Segments -/

theorem dataLoadable_mono {cpl cpl' : Nat} (hle : cpl' ≤ cpl) {s : Selector}
    (h : dataLoadable gdt cpl s) : dataLoadable gdt cpl' s := by
  rw [dataLoadable, Bool.or_eq_true, Option.any_eq_true] at h ⊢
  obtain hnull | ⟨a, ha, hok⟩ := h
  · exact Or.inl hnull
  · refine Or.inr ⟨a, ha, ?_⟩
    simp only [Bool.and_eq_true, Bool.or_eq_true, decide_eq_true_eq] at hok ⊢
    obtain ⟨hkind, hlevel⟩ := hok
    exact ⟨hkind, hlevel.imp_right fun hmax ↦ by omega⟩

/-- A return to the level where a selector was loaded keeps it, if it is not a null selector other
than zero. -/
theorem settled_eq_iff {cpl : Nat} {s : Selector} (h : dataLoadable gdt cpl s) :
    settled gdt cpl s = s ↔ (isNull s → s = 0) := by
  rw [settled]
  by_cases hnull : isNull s
  · rw [hnull, Bool.true_or, if_pos rfl]
    exact ⟨fun heq _ ↦ heq.symm, fun heq ↦ (heq rfl).symm⟩
  · -- the level may use the segment
    rw [dataLoadable, Bool.or_eq_true, or_iff_right hnull, Option.any_eq_true] at h
    obtain ⟨a, ha, hok⟩ := h
    simp only [Bool.and_eq_true, Bool.or_eq_true, decide_eq_true_eq] at hok
    have hkeep : ¬ (isNull s || (access gdt s).any fun a ↦
        !Access.isConforming a && decide (Access.dpl a < cpl)) := by
      rw [ha, Option.any_some, Bool.or_eq_true, Bool.and_eq_true, decide_eq_true_eq,
        Bool.not_eq_true']
      rintro (hnull' | ⟨hconforming, hlt⟩)
      · exact hnull hnull'
      · rcases hok.2 with hyes | hmax
        · rw [hyes] at hconforming
          cases hconforming
        · omega
    rw [if_neg hkeep]
    exact iff_of_true rfl fun h ↦ absurd h hnull

/-! ## Delivery and return -/

/-- What protected mode guarantees of a machine that can be interrupted. -/
structure Context.Valid (gdt : DescriptorTable) (c : Context) : Prop where
  flags : fixedFlags c.eflags = c.eflags
  vm : c.eflags.getLsbD vmFlag = false
  cs : codeLoadable gdt c.cs
  ss : stackLoadable gdt c.cpl c.ss
  seg : ∀ s, dataLoadable gdt c.cpl (c.seg s)

variable {g : Gate} {c : Context}

/-- What the first step of a delivery pushes. -/
def outerFrame (g : Gate) (c : Context) : List Word :=
  if c.cpl = rpl g.cs then [] else [c.esp, c.ss.setWidth 32]

/-- The frame that a delivery pushes before the error code. -/
def trapFrame (g : Gate) (c : Context) : List Word :=
  c.eip :: c.cs.setWidth 32 :: c.eflags :: outerFrame g c

/-- Where the stack of the trap starts. -/
def trapTop (g : Gate) (c : Context) : Word := if c.cpl = rpl g.cs then c.esp else g.esp0

theorem outerFrame_length_le (g : Gate) (c : Context) : (outerFrame g c).length ≤ 2 := by
  rw [outerFrame]
  split <;> simp

theorem switchStack_onStack (g : Gate) (c : Context) :
    OnStack (switchStack g c) (trapTop g c) (outerFrame g c) := by
  rw [switchStack, trapTop, outerFrame]
  split
  · exact .nil _
  · exact ((OnStack.nil _).push (by decide) _).push (show 1 < maxWords by decide) _

theorem deliver_onStack (g : Gate) (c : Context) (code : Option Word) :
    OnStack (deliver g c code) (trapTop g c) (code.toList ++ trapFrame g c) := by
  have hlen := outerFrame_length_le g c
  have hroom {k : Nat} (hk : k ≤ 5) : k < maxWords := Nat.lt_of_le_of_lt hk (by decide)
  have hflags := (switchStack_onStack g c).push (hroom (by omega)) c.eflags
  have hcs := hflags.push (hroom (by rw [List.length_cons]; omega)) (c.cs.setWidth 32)
  have heip := hcs.push (hroom (by simp only [List.length_cons]; omega)) c.eip
  cases code with
  | none => exact heip.congr rfl rfl
  | some w =>
    have hcode := heip.push (hroom (by simp only [List.length_cons]; omega)) w
    exact hcode.congr rfl rfl

/-- A machine about to return, as the handler leaves it: on the level of the gate, and on the
interrupted stack unless the level changed. -/
structure Returning (g : Gate) (c : Context) (m : Machine) : Prop where
  cs : m.cs = g.cs
  ss : c.cpl = rpl g.cs → m.ss = c.ss
  onStack : OnStack m (trapTop g c) (trapFrame g c)

theorem low16_setLow16 (w : Word) (v : BitVec 16) : low16 (setLow16 w v) = v := by
  simp [low16, setLow16, BitVec.setWidth_or, BitVec.setWidth_and]

theorem low16_setWidth (s : Selector) : low16 (s.setWidth 32) = s := by
  rw [low16]
  exact BitVec.setWidth_setWidth_of_le s (by decide)

/-- What a data segment register with `s` holds after the return to `c`. -/
def afterReturn (gdt : DescriptorTable) (c : Context) (s : Selector) : Selector :=
  if c.cpl = 0 then s else settled gdt c.cpl s

theorem afterReturn_eq_iff (hc : c.Valid gdt) (s : SegReg) :
    afterReturn gdt c (c.seg s) = c.seg s ↔ (c.cpl ≠ 0 → isNull (c.seg s) → c.seg s = 0) := by
  rw [afterReturn]
  by_cases hinner : c.cpl = 0
  · rw [if_pos hinner]
    exact iff_of_true rfl fun h ↦ absurd hinner h
  · rw [if_neg hinner, settled_eq_iff (hc.seg s)]
    exact ⟨fun h _ ↦ h, fun h ↦ h hinner⟩

/-- `c'` goes on where `c` was interrupted, with `reg` and `seg` in its registers. -/
structure ResumedWith (reg : Reg → Word) (seg : SegReg → Selector) (c c' : Context) : Prop where
  eip : c'.eip = c.eip
  cs : c'.cs = c.cs
  eflags : c'.eflags = c.eflags
  esp : c'.esp = c.esp
  ss : c'.ss = c.ss
  reg : c'.reg = reg
  seg : c'.seg = seg

/-- `iret` goes on where the interrupt came. -/
theorem iret_returning (hg : rpl g.cs = 0) (hc : c.Valid gdt) (h : Returning g c m) :
    ∃ c', iret gdt m = some c' ∧
      ResumedWith m.reg (fun s ↦ afterReturn gdt c (m.seg s)) c c' := by
  have hword := h.onStack.word
  have heip : m.word 0 = c.eip := hword 0 (by simp [trapFrame])
  have hcs : low16 (m.word 1) = c.cs := by
    rw [hword 1 (by simp [trapFrame])]
    exact low16_setWidth c.cs
  have hflags : fixedFlags (m.word 2) = c.eflags := by
    rw [hword 2 (by simp [trapFrame])]
    exact hc.flags
  have hlevel : m.cpl = 0 := by rw [Machine.cpl, h.cs, hg]
  have hvalid : ¬ (c.eflags.getLsbD vmFlag ∨ ¬ codeLoadable gdt c.cs ∨ rpl c.cs < m.cpl) := by
    rw [hc.vm, hc.cs, hlevel]
    simp
  rw [iret, hcs, hflags, heip, if_neg hvalid, hlevel]
  by_cases hsame : rpl c.cs = 0
  · -- the handler ran on the interrupted stack
    have hinner : c.cpl = rpl g.cs := hsame.trans hg.symm
    have hseg (s : SegReg) : m.seg s = afterReturn gdt c (m.seg s) := (if_pos hsame).symm
    refine ⟨_, if_pos hsame, rfl, rfl, rfl, ?_, h.ss hinner, rfl, funext hseg⟩
    have hesp := h.onStack.esp
    rw [trapTop, if_pos hinner, trapFrame, outerFrame, if_pos hinner] at hesp
    change m.esp + 12 = c.esp
    rw [hesp]
    exact BitVec.sub_add_cancel c.esp 12
  · -- the outer stack is the end of the frame
    have houter : ¬ c.cpl = rpl g.cs := by rwa [hg]
    have hframe : trapFrame g c =
        [c.eip, c.cs.setWidth 32, c.eflags, c.esp, c.ss.setWidth 32] := by
      rw [trapFrame, outerFrame, if_neg houter]
    rw [hframe] at hword
    have hesp : m.word 3 = c.esp := hword 3 (by simp)
    have hss : low16 (m.word 4) = c.ss := by
      rw [hword 4 (by simp)]
      exact low16_setWidth c.ss
    rw [hesp, hss]
    have hstack : stackLoadable gdt (rpl c.cs) c.ss := hc.ss
    refine ⟨_, (if_neg hsame).trans (if_pos hstack), rfl, rfl, rfl, rfl, rfl, rfl, funext fun s ↦ ?_⟩
    exact (if_neg hsame).symm

end TenOs.X86
