import TenOs.Cpu.Interrupt
import TenOs.X86.Descriptors

/-!
# `cpu/idt.c`, `cpu/gdt.c`, `cpu/kernel_gdt.asm` and the gates of `cpu/isr.c`

The descriptor tables as bytes, the way the kernel writes them and the way the CPU reads them.  What
the CPU finds for an interrupt is the stub of `isrInstall` behind `kernelGate`; a program in ring 3 can
raise no interrupt but `0x80`, and use no port.
-/

namespace TenOs.Cpu

open TenOs.Base TenOs.Lib TenOs.X86

/-! ## The interrupt table -/

def IDT_ENTRIES : Nat := 256

/-- The macro `high_16`. -/
def high16 (address : u32) : u16 := address.extractLsb' 16 16

/-- `set_idt_gate` with the table at address `idt`. -/
def setIdtGate (idt : Nat) (m : Bytes) (n : Nat) (handler : u32) (selector : u16) (flags : u8) :
    Bytes :=
  let entry := idt + 8 * n
  let m := write16 m entry (low16 handler)
  let m := write16 m (entry + 2) selector
  let m := Function.update m (entry + 4) 0
  let m := Function.update m (entry + 5) flags
  write16 m (entry + 6) (high16 handler)

/-- The register that `set_idt` loads. -/
def setIdt (idt : u32) : TableReg := ⟨idt, BitVec.ofNat 16 (IDT_ENTRIES * 8 - 1)⟩

/-- The calls of `set_idt_gate`: the number, the handler and the flags. -/
def idtGates : List (Nat × Code × u8) :=
  [(0, isr0, 0x8E), (1, isr1, 0x8E), (2, isr2, 0x8E), (3, isr3, 0x8E), (4, isr4, 0x8E),
    (5, isr5, 0x8E), (6, isr6, 0x8E), (7, isr7, 0x8E), (8, isr8, 0x8E), (9, isr9, 0x8E),
    (10, isr10, 0x8E), (11, isr11, 0x8E), (12, isr12, 0x8E), (13, isr13, 0x8E), (14, isr14, 0x8E),
    (15, isr15, 0x8E), (16, isr16, 0x8E), (17, isr17, 0x8E), (18, isr18, 0x8E), (19, isr19, 0x8E),
    (20, isr20, 0x8E), (21, isr21, 0x8E), (22, isr22, 0x8E), (23, isr23, 0x8E), (24, isr24, 0x8E),
    (25, isr25, 0x8E), (26, isr26, 0x8E), (27, isr27, 0x8E), (28, isr28, 0x8E), (29, isr29, 0x8E),
    (30, isr30, 0x8E), (31, isr31, 0x8E), (32, irq0, 0x8E), (33, irq1, 0x8E), (34, irq2, 0x8E),
    (35, irq3, 0x8E), (36, irq4, 0x8E), (37, irq5, 0x8E), (38, irq6, 0x8E), (39, irq7, 0x8E),
    (40, irq8, 0x8E), (41, irq9, 0x8E), (42, irq10, 0x8E), (43, irq11, 0x8E), (44, irq12, 0x8E),
    (45, irq13, 0x8E), (46, irq14, 0x8E), (47, irq15, 0x8E), (0x80, syscallHandlerAsm, 0xEE)]

/-- What `isr_install` writes, where `addr` is the address of each stub. -/
def installGates (addr : Code → u32) (idt : Nat) (m : Bytes) : Bytes :=
  idtGates.foldl (fun m g ↦ setIdtGate idt m g.1 (addr g.2.1) KERNEL_CS g.2.2) m

/-! ## The global table and the task segment -/

/-- The bytes at `kernel_gdt_start`. -/
def kernelGdtStart : List u8 :=
  [0x00, 0x00, 0x00, 0x00, 0x00, 0x00, 0x00, 0x00,  -- null
    0xFF, 0xFF, 0x00, 0x00, 0x00, 0x9A, 0xCF, 0x00,  -- gdt_code
    0xFF, 0xFF, 0x00, 0x00, 0x00, 0x92, 0xCF, 0x00,  -- gdt_data
    0xFF, 0xFF, 0x00, 0x00, 0x00, 0xFA, 0xCF, 0x00,  -- gdt_code_user
    0xFF, 0xFF, 0x00, 0x00, 0x00, 0xF2, 0xCF, 0x00,  -- gdt_data_user
    0x68, 0x00, 0x00, 0x00, 0x00, 0xE9, 0x00, 0x00]  -- gdt_tss

/-- What `kernel_gdt_descriptor` holds, for `lgdt`. -/
def kernelGdtDescriptor (gdt : u32) : TableReg := ⟨gdt, BitVec.ofNat 16 (kernelGdtStart.length - 1)⟩

def TSS_SEG : Selector := 0x28

/-- `sizeof(tss_entry_t)` -/
def tssSize : Nat := 104

/-- `gdt_set_tss`; `limit_high` and `flags` are the halves of one byte. -/
def gdtSetTss (gdt : Nat) (m : Bytes) (base limit : u32) : Bytes :=
  let entry := gdt + 8 * 5
  let m := write16 m (entry + 2) (low16 (base &&& 0xFFFF))
  let m := Function.update m (entry + 4) (((base >>> 16) &&& 0xFF).setWidth 8)
  let m := Function.update m (entry + 7) (((base >>> 24) &&& 0xFF).setWidth 8)
  let m := write16 m entry (low16 (limit &&& 0xFFFF))
  let m := Function.update m (entry + 6)
    ((m (entry + 6)).extractLsb' 4 4 ++ ((limit >>> 16) &&& 0x0F).setWidth 4)
  let m := Function.update m (entry + 5) 0x89
  Function.update m (entry + 6) ((0x00 : BitVec 4) ++ (m (entry + 6)).extractLsb' 0 4)

/-- What `tss_init` writes before `ltr`. -/
def tssInit (gdt : Nat) (tss : u32) (m : Bytes) (kernelStack : u32) : Bytes :=
  let m := memset m tss.toNat 0 tssSize
  let m := write32 m (tss.toNat + 8) (DATA_SEG.setWidth 32)
  let m := write32 m (tss.toNat + 4) kernelStack
  let m := write16 m (tss.toNat + 102) (BitVec.ofNat 16 tssSize)
  gdtSetTss gdt m tss (BitVec.ofNat 32 (tssSize - 1))

/-! ## Where the tables are -/

/-- The addresses of `idt`, `kernel_gdt_start` and `tss`, which do not overlap. -/
structure TableLayout where
  idt : u32
  gdt : u32
  tss : u32
  idt_gdt : idt.toNat + 2048 ≤ gdt.toNat ∨ gdt.toNat + 48 ≤ idt.toNat
  idt_tss : idt.toNat + 2048 ≤ tss.toNat ∨ tss.toNat + 104 ≤ idt.toNat
  gdt_tss : gdt.toNat + 48 ≤ tss.toNat ∨ tss.toNat + 104 ≤ gdt.toNat

/-! ## One gate -/

theorem setIdtGate_outside {idt n : Nat} {m : Bytes} {handler : u32} {selector : u16} {flags : u8}
    {a : Nat} (ha : a < idt + 8 * n ∨ idt + 8 * n + 8 ≤ a) :
    setIdtGate idt m n handler selector flags a = m a := by
  rw [setIdtGate, write16_outside _ _ (by omega), Function.update_of_ne (by omega),
    Function.update_of_ne (by omega), write16_outside _ _ (by omega),
    write16_outside _ _ (by omega)]

-- Two bytes of a half word, and two halves of a word.
theorem bytes_append (v : u16) : v.extractLsb' 8 8 ++ v.extractLsb' 0 8 = v := by
  have h := read16_write16 (fun _ ↦ 0) 0 v
  rwa [read16, write16_apply, if_pos rfl, write16_apply, if_neg (by decide), if_pos rfl] at h

theorem high16_append_low16 (a : u32) : high16 a ++ low16 a = a := by
  apply BitVec.eq_of_getLsbD_eq
  intro i hi
  simp only [high16, low16, BitVec.getLsbD_append, BitVec.getLsbD_extractLsb',
    BitVec.getLsbD_setWidth]
  by_cases hlow : i < 16
  · simp [hlow]
  · have hsub : 16 + (i - 16) = i := by omega
    simp [hlow, hsub, show i - 16 < 16 by omega]

/-- The gate that the CPU reads is the one that was set. -/
theorem gateAt_setIdtGate (idt n : Nat) (m : Bytes) (handler : u32) (selector : u16) (flags : u8) :
    gateAt (setIdtGate idt m n handler selector flags) (idt + 8 * n) =
      ⟨handler, selector, flags⟩ := by
  simp only [gateAt, setIdtGate, read16, write16_apply, Function.update_apply, Nat.add_assoc,
    Nat.reduceAdd, Nat.add_left_cancel_iff, Nat.left_eq_add, Nat.reduceEqDiff, OfNat.ofNat_ne_zero,
    if_true, if_false, bytes_append, high16_append_low16]

theorem gateAt_setIdtGate_of_ne {idt n k : Nat} (h : k ≠ n) (m : Bytes) (handler : u32)
    (selector : u16) (flags : u8) :
    gateAt (setIdtGate idt m n handler selector flags) (idt + 8 * k) = gateAt m (idt + 8 * k) :=
  gateAt_congr fun i hi ↦ setIdtGate_outside (by omega)

/-! ## All gates -/

theorem gateAt_foldl (addr : Code → u32) (idt : Nat) {l : List (Nat × Code × u8)}
    (hnodup : (l.map Prod.fst).Nodup) (m : Bytes) :
    let m' := l.foldl (fun m g ↦ setIdtGate idt m g.1 (addr g.2.1) KERNEL_CS g.2.2) m
    (∀ g ∈ l, gateAt m' (idt + 8 * g.1) = ⟨addr g.2.1, KERNEL_CS, g.2.2⟩) ∧
      ∀ k ∉ l.map Prod.fst, gateAt m' (idt + 8 * k) = gateAt m (idt + 8 * k) := by
  induction l generalizing m with
  | nil => exact ⟨fun g hg ↦ absurd hg List.not_mem_nil, fun _ _ ↦ rfl⟩
  | cons g l ih =>
    obtain ⟨hnew, hrest⟩ := List.nodup_cons.mp hnodup
    obtain ⟨hset, hkept⟩ := ih hrest (setIdtGate idt m g.1 (addr g.2.1) KERNEL_CS g.2.2)
    refine ⟨fun g' hg' ↦ ?_, fun k hk ↦ ?_⟩
    · rcases List.mem_cons.mp hg' with rfl | hmem
      · exact (hkept _ hnew).trans (gateAt_setIdtGate _ _ _ _ _ _)
      · exact hset g' hmem
    · rw [List.map_cons, List.mem_cons, not_or] at hk
      exact (hkept k hk.2).trans (gateAt_setIdtGate_of_ne hk.1 _ _ _ _)

theorem foldl_outside (addr : Code → u32) (idt : Nat) {l : List (Nat × Code × u8)}
    (hlt : ∀ g ∈ l, g.1 < IDT_ENTRIES) (m : Bytes) {a : Nat} (ha : a < idt ∨ idt + 2048 ≤ a) :
    l.foldl (fun m g ↦ setIdtGate idt m g.1 (addr g.2.1) KERNEL_CS g.2.2) m a = m a := by
  induction l generalizing m with
  | nil => rfl
  | cons g l ih =>
    have hg : g.1 < 256 := hlt g List.mem_cons_self
    exact (ih (fun g' hg' ↦ hlt g' (List.mem_cons_of_mem _ hg')) _).trans
      (setIdtGate_outside (by omega))

theorem isrInstall_of_mem : ∀ g ∈ idtGates,
    isrInstall g.1 = some g.2.1 ∧ g.2.2 = if g.1 = 0x80 then 0xEE else 0x8E := by decide

-- A vector has a stub exactly when a gate was set for it.
theorem mem_idtGates_iff (v : Nat) : v ∈ idtGates.map Prod.fst ↔ isrInstall v ≠ none := by
  constructor
  · intro hmem
    obtain ⟨g, hg, rfl⟩ := List.mem_map.mp hmem
    rw [(isrInstall_of_mem g hg).1]
    exact Option.some_ne_none _
  · intro hsome
    by_cases hsyscall : v = 0x80
    · rw [hsyscall]
      decide
    · obtain ⟨stub, hstub⟩ := Option.ne_none_iff_exists'.mp hsome
      rw [isrInstall, if_neg hsyscall] at hstub
      have hlt : v < 48 := (List.getElem?_eq_some_iff.mp hstub).1
      have hall : ∀ v < 48, v ∈ idtGates.map Prod.fst := by decide
      exact hall v hlt

/-- What the CPU reads after `isr_install`, where the table was zero. -/
theorem gateAt_installGates (addr : Code → u32) {idt : Nat} {m : Bytes}
    (hzero : ∀ i < 2048, m (idt + i) = 0) {v : Nat} (hv : v < IDT_ENTRIES) :
    gateAt (installGates addr idt m) (idt + 8 * v) = match isrInstall v with
      | some stub => ⟨addr stub, KERNEL_CS, if v = 0x80 then 0xEE else 0x8E⟩
      | none => ⟨0, 0, 0⟩ := by
  have hv' : v < 256 := hv
  obtain ⟨hset, hkept⟩ := gateAt_foldl addr idt (l := idtGates) (by decide) m
  by_cases hmem : v ∈ idtGates.map Prod.fst
  · obtain ⟨g, hg, rfl⟩ := List.mem_map.mp hmem
    obtain ⟨hstub, hflags⟩ := isrInstall_of_mem g hg
    rw [hstub, installGates, hset g hg, hflags]
  · have hnone : isrInstall v = none := not_not.mp (mt (mem_idtGates_iff v).mpr hmem)
    have hblank : gateAt m (idt + 8 * v) = gateAt (fun _ ↦ 0) 0 :=
      gateAt_congr fun i hi ↦ by
        rw [Nat.add_assoc]
        exact hzero _ (by omega)
    rw [hnone, installGates, hkept v hmem, hblank]
    rfl

/-! ## The task segment -/

theorem gdtSetTss_outside {gdt : Nat} {m : Bytes} {base limit : u32} {a : Nat}
    (ha : a < gdt + 40 ∨ gdt + 48 ≤ a) : gdtSetTss gdt m base limit a = m a := by
  rw [gdtSetTss, Function.update_of_ne (by omega), Function.update_of_ne (by omega),
    Function.update_of_ne (by omega), write16_outside _ _ (by omega),
    Function.update_of_ne (by omega), Function.update_of_ne (by omega),
    write16_outside _ _ (by omega)]

-- The four pieces of the base address.
theorem base_append (base : u32) :
    (((base >>> 24) &&& 0xFF).setWidth 8 ++ ((base >>> 16) &&& 0xFF).setWidth 8) ++
      low16 (base &&& 0xFFFF) = base := by
  apply BitVec.eq_of_toNat_eq
  have hmask8 : (0xFF : u32).toNat = 2 ^ 8 - 1 := rfl
  have hmask16 : (0xFFFF : u32).toNat = 2 ^ 16 - 1 := rfl
  simp only [toNat_append_eq, low16, BitVec.toNat_setWidth, toNat_and_lowMask _ hmask8,
    toNat_and_lowMask _ hmask16, toNat_ushiftRight_eq]
  have hlt := base.isLt
  omega

theorem limit_append (limit : u32) :
    ((limit >>> 16) &&& 0x0F).setWidth 4 ++ low16 (limit &&& 0xFFFF) = limit.setWidth 20 := by
  apply BitVec.eq_of_toNat_eq
  have hmask4 : (0x0F : u32).toNat = 2 ^ 4 - 1 := rfl
  have hmask16 : (0xFFFF : u32).toNat = 2 ^ 16 - 1 := rfl
  simp only [toNat_append_eq, low16, BitVec.toNat_setWidth, toNat_and_lowMask _ hmask4,
    toNat_and_lowMask _ hmask16, toNat_ushiftRight_eq]
  have hlt := limit.isLt
  omega

theorem nibbles_append (x y : BitVec 4) :
    (x ++ y).extractLsb' 0 4 = y ∧ (x ++ y).extractLsb' 4 4 = x := by
  revert x y
  decide

/-- The descriptor that the CPU reads is the one that `gdt_set_tss` was given, whatever was there. -/
theorem segmentAt_gdtSetTss (gdt : Nat) (m : Bytes) (base limit : u32) :
    segmentAt (gdtSetTss gdt m base limit) (gdt + 40) = ⟨base, limit.setWidth 20, 0x89, 0⟩ := by
  simp only [segmentAt, gdtSetTss, read16, write16_apply, Function.update_apply, Nat.add_assoc,
    Nat.reduceAdd, Nat.reduceMul, Nat.add_left_cancel_iff, Nat.reduceEqDiff, if_true, if_false,
    bytes_append, (nibbles_append _ _).1, (nibbles_append _ _).2, base_append, limit_append]

theorem tssInit_outside {gdt : Nat} {tss : u32} {m : Bytes} {kernelStack : u32} {a : Nat}
    (hgdt : a < gdt + 40 ∨ gdt + 48 ≤ a) (htss : a < tss.toNat ∨ tss.toNat + 104 ≤ a) :
    tssInit gdt tss m kernelStack a = m a := by
  rw [tssInit, gdtSetTss_outside hgdt, write16_outside _ _ (by omega),
    write32_outside _ _ (by omega), write32_outside _ _ (by omega), memset, fillCells_apply,
    if_neg (by unfold tssSize; omega)]

theorem low16_read32 (m : Bytes) (a : Nat) : low16 (read32 m a) = read16 m a := by
  apply BitVec.eq_of_toNat_eq
  have hlt := (read16 m a).isLt
  rw [low16, read32, BitVec.toNat_setWidth, toNat_append_eq]
  omega

/-- What the CPU reads of the task segment. -/
theorem tssInit_fields {gdt : Nat} {tss : u32} (h : gdt + 48 ≤ tss.toNat ∨ tss.toNat + 104 ≤ gdt)
    (m : Bytes) (kernelStack : u32) :
    let m' := tssInit gdt tss m kernelStack
    read16 m' (tss.toNat + 8) = DATA_SEG ∧ read32 m' (tss.toNat + 4) = kernelStack ∧
      read16 m' (tss.toNat + 102) = 104 := by
  let m₁ := memset m tss.toNat 0 tssSize
  let m₂ := write32 m₁ (tss.toNat + 8) (DATA_SEG.setWidth 32)
  let m₃ := write32 m₂ (tss.toNat + 4) kernelStack
  let m₄ := write16 m₃ (tss.toNat + 102) (BitVec.ofNat 16 tssSize)
  have hkeep {a : Nat} (h1 : tss.toNat ≤ a) (h2 : a < tss.toNat + 104) :
      tssInit gdt tss m kernelStack a = m₄ a := gdtSetTss_outside (by omega)
  refine ⟨?_, ?_, ?_⟩
  · have hss : read16 (tssInit gdt tss m kernelStack) (tss.toNat + 8) =
        read16 m₂ (tss.toNat + 8) := read16_congr fun i h1 h2 ↦ by
      rw [hkeep (by omega) (by omega)]
      exact (write16_outside _ _ (by omega)).trans (write32_outside _ _ (by omega))
    have hlow : read32 m₂ (tss.toNat + 8) = DATA_SEG.setWidth 32 := read32_write32 _ _ _
    rw [hss, ← low16_read32, hlow]
    rfl
  · have hesp : read32 (tssInit gdt tss m kernelStack) (tss.toNat + 4) =
        read32 m₃ (tss.toNat + 4) := read32_congr fun i h1 h2 ↦ by
      rw [hkeep (by omega) (by omega)]
      exact write16_outside _ _ (by omega)
    rw [hesp]
    exact read32_write32 _ _ _
  · have hiomap : read16 (tssInit gdt tss m kernelStack) (tss.toNat + 102) =
        read16 m₄ (tss.toNat + 102) := read16_congr fun i h1 h2 ↦ hkeep (by omega) (by omega)
    rw [hiomap]
    exact read16_write16 _ _ _

/-! ## What the CPU finds -/

/-- `isr_install` has set its gates in a table of zeros, and the global table is as it was assembled;
elsewhere memory holds anything. -/
structure TablesReady (addr : Code → u32) (t : TableLayout) (m : Bytes) : Prop where
  idt : ∃ m₀, (∀ i < 2048, m₀ (t.idt.toNat + i) = 0) ∧
    ∀ i < 2048, m (t.idt.toNat + i) = installGates addr t.idt.toNat m₀ (t.idt.toNat + i)
  gdt : ∀ i < 48, m (t.gdt.toNat + i) = kernelGdtStart.getD i 0

/-- The registers before `ltr`. -/
def TableLayout.regs (t : TableLayout) : TableRegs :=
  ⟨kernelGdtDescriptor t.gdt, setIdt t.idt, ⟨0, 0, 0, 0⟩⟩

variable {addr : Code → u32} {t : TableLayout} {mem : Bytes} {kernelStack : u32}

-- The descriptors but that of the task segment are as they were assembled.
theorem accessBytes_eq {gdt : u32} {m : Bytes}
    (h : ∀ i < 40, m (gdt.toNat + i) = kernelGdtStart.getD i 0) :
    accessBytes m (kernelGdtDescriptor gdt) =
      [0x00, 0x9A, 0x92, 0xFA, 0xF2, m (gdt.toNat + 45)] := by
  have hrange : ((kernelGdtDescriptor gdt).limit.toNat + 1) / 8 = 6 := by
    change ((BitVec.ofNat 16 (kernelGdtStart.length - 1)).toNat + 1) / 8 = 6
    decide
  have hlist : List.range 6 = [0, 1, 2, 3, 4, 5] := rfl
  rw [accessBytes, hrange, hlist]
  simp only [List.map_cons, List.map_nil, segmentAt, kernelGdtDescriptor, Nat.add_assoc,
    Nat.reduceMul, Nat.reduceAdd, h 5 (by decide), h 13 (by decide), h 21 (by decide),
    h 29 (by decide), h 37 (by decide)]
  rfl

theorem descriptorOf_kernelCs {gdt : u32} {m : Bytes}
    (h : ∀ i < 40, m (gdt.toNat + i) = kernelGdtStart.getD i 0) :
    descriptorOf m (kernelGdtDescriptor gdt) KERNEL_CS = some ⟨0, 0xFFFFF, 0x9A, 0x0C⟩ := by
  have hin : ¬ (isNull KERNEL_CS ∨ KERNEL_CS.getLsbD 2 ∨
      (kernelGdtDescriptor gdt).limit.toNat < 8 * (KERNEL_CS.toNat / 8) + 7) := by
    change ¬ (isNull KERNEL_CS ∨ KERNEL_CS.getLsbD 2 ∨
      (BitVec.ofNat 16 (kernelGdtStart.length - 1)).toNat < 8 * (KERNEL_CS.toNat / 8) + 7)
    decide
  have hseg : segmentAt m (gdt.toNat + 8) = segmentAt (fun a ↦ kernelGdtStart.getD a 0) 8 :=
    segmentAt_congr fun i hi ↦ by
      rw [Nat.add_assoc]
      exact h _ (by omega)
  rw [descriptorOf, if_neg hin]
  change some (segmentAt m (gdt.toNat + 8)) = _
  rw [hseg]
  exact congrArg some
    (SegmentDescriptor.ext (by decide) (by decide) (by decide) (by decide))

theorem ltr_tssInit (t : TableLayout) (mem : Bytes) (kernelStack : u32) :
    ltr (tssInit t.gdt.toNat t.tss mem kernelStack) t.regs TSS_SEG =
      some ({ t.regs with task := ⟨t.tss, 103, 0x89, 0⟩ },
        Function.update (tssInit t.gdt.toNat t.tss mem kernelStack) (t.gdt.toNat + 45) 0x8B) := by
  have hin : ¬ (isNull TSS_SEG ∨ TSS_SEG.getLsbD 2 ∨
      t.regs.gdtr.limit.toNat < 8 * (TSS_SEG.toNat / 8) + 7) := by
    change ¬ (isNull TSS_SEG ∨ TSS_SEG.getLsbD 2 ∨
      (BitVec.ofNat 16 (kernelGdtStart.length - 1)).toNat < 8 * (TSS_SEG.toNat / 8) + 7)
    decide
  have htask : segmentAt (tssInit t.gdt.toNat t.tss mem kernelStack) (t.gdt.toNat + 40) =
      ⟨t.tss, 103, 0x89, 0⟩ := by rw [tssInit, segmentAt_gdtSetTss]; rfl
  have hindex : 8 * (TSS_SEG.toNat / 8) = 40 := by decide
  have hbase : t.regs.gdtr.base = t.gdt := rfl
  have hbusy : (0x89 : u8) ||| 2 = 0x8B := by decide
  generalize tssInit t.gdt.toNat t.tss mem kernelStack = m₁ at htask ⊢
  rw [ltr, descriptorOf, if_neg hin, Option.bind_some, hindex, hbase, htask]
  dsimp only
  rw [if_pos ⟨by decide, by decide⟩, hbusy]

/-- What is behind the registers once `ltr` has marked the task segment as busy. -/
structure TablesLoaded (addr : Code → u32) (t : TableLayout) (kernelStack : u32) (m : Bytes) :
    Prop where
  gate : ∀ v < IDT_ENTRIES, gateAt m (t.idt.toNat + 8 * v) = match isrInstall v with
    | some stub => ⟨addr stub, KERNEL_CS, if v = 0x80 then 0xEE else 0x8E⟩
    | none => ⟨0, 0, 0⟩
  code : descriptorOf m (kernelGdtDescriptor t.gdt) KERNEL_CS = some ⟨0, 0xFFFFF, 0x9A, 0x0C⟩
  stack : stackLoadable (accessBytes m (kernelGdtDescriptor t.gdt)) 0 DATA_SEG
  ss0 : read16 m (t.tss.toNat + 8) = DATA_SEG
  esp0 : read32 m (t.tss.toNat + 4) = kernelStack
  iomap : read16 m (t.tss.toNat + 102) = 104

theorem TablesReady.loaded (h : TablesReady addr t mem) (kernelStack : u32) :
    TablesLoaded addr t kernelStack
      (Function.update (tssInit t.gdt.toNat t.tss mem kernelStack) (t.gdt.toNat + 45) 0x8B) := by
  have hidtGdt := t.idt_gdt
  have hidtTss := t.idt_tss
  have hgdtTss := t.gdt_tss
  obtain ⟨hss, hesp, hiomap⟩ := tssInit_fields hgdtTss mem kernelStack
  have hkept {a : Nat} (hgdt : a < t.gdt.toNat + 40 ∨ t.gdt.toNat + 48 ≤ a)
      (htss : a < t.tss.toNat ∨ t.tss.toNat + 104 ≤ a) :
      tssInit t.gdt.toNat t.tss mem kernelStack a = mem a := tssInit_outside hgdt htss
  generalize tssInit t.gdt.toNat t.tss mem kernelStack = m₁ at hss hesp hiomap hkept ⊢
  have hsegs : ∀ i < 40, Function.update m₁ (t.gdt.toNat + 45) 0x8B (t.gdt.toNat + i) =
      kernelGdtStart.getD i 0 := by
    intro i hi
    rw [Function.update_of_ne (by omega)]
    exact (hkept (by omega) (by omega)).trans (h.gdt i (by omega))
  have htss {a : Nat} (h1 : t.tss.toNat ≤ a) (h2 : a < t.tss.toNat + 104) :
      Function.update m₁ (t.gdt.toNat + 45) 0x8B a = m₁ a := Function.update_of_ne (by omega) _ _
  obtain ⟨m₀, hzero, hidt⟩ := h.idt
  refine ⟨fun v hv ↦ ?_, descriptorOf_kernelCs hsegs, ?_, ?_, ?_, ?_⟩
  · have hv' : v < 256 := hv
    rw [← gateAt_installGates addr hzero hv]
    refine gateAt_congr fun i hi ↦ ?_
    rw [Function.update_of_ne (by omega), Nat.add_assoc]
    exact (hkept (by omega) (by omega)).trans (hidt _ (by omega))
  · rw [accessBytes_eq hsegs, Function.update_self]
    decide
  · rw [← hss]
    exact read16_congr fun i h1 h2 ↦ htss (by omega) (by omega)
  · rw [← hesp]
    exact read32_congr fun i h1 h2 ↦ htss (by omega) (by omega)
  · rw [← hiomap]
    exact read16_congr fun i h1 h2 ↦ htss (by omega) (by omega)

variable {m : Bytes}

theorem lastOffset_tss (base : u32) :
    SegmentDescriptor.lastOffset ⟨base, 103, 0x89, 0⟩ = 103 := by
  have hflag : ¬ (0 : BitVec 4).getLsbD 3 = true := by decide
  rw [SegmentDescriptor.lastOffset, if_neg hflag]
  exact (by decide : (103 : BitVec 20).toNat = 103)

theorem TablesLoaded.gateOf (h : TablesLoaded addr t kernelStack m) (r : TableRegs)
    (hr : r.idtr = setIdt t.idt) {cpl : Nat} (hcpl : cpl ≤ 3) (software : Bool) (v : Nat) :
    X86.gateOf m r cpl software v =
      if software = true ∧ v ≠ 0x80 ∧ cpl ≠ 0 then none
      else (isrInstall v).map fun stub ↦
        ⟨addr stub, KERNEL_CS, if v = 0x80 then 0xEE else 0x8E⟩ := by
  have hlimit : r.idtr.limit.toNat = 2047 := by rw [hr]; rfl
  have hbase : r.idtr.base = t.idt := by rw [hr]; rfl
  rw [X86.gateOf, hlimit, hbase]
  by_cases hv : v < 256
  · have hgate := h.gate v hv
    cases hstub : isrInstall v with
    | none =>
      rw [hstub] at hgate
      dsimp only at hgate
      rw [hgate, if_neg fun hall ↦ absurd hall.2.1 (by decide), Option.map_none, ite_self]
    | some stub =>
      rw [hstub] at hgate
      dsimp only at hgate
      rw [hgate, Option.map_some]
      dsimp only
      by_cases hsyscall : v = 0x80
      · have hdpl : Access.dpl 0xEE = 3 := by decide
        rw [if_pos hsyscall,
          if_pos ⟨by omega, by decide, by decide, fun _ ↦ by rw [hdpl]; exact hcpl⟩,
          if_neg fun hall ↦ hall.2.1 hsyscall]
      · have hdpl : Access.dpl 0x8E = 0 := by decide
        rw [if_neg hsyscall, hdpl]
        by_cases hrefused : software = true ∧ v ≠ 0x80 ∧ cpl ≠ 0
        · rw [if_pos hrefused,
            if_neg fun hall ↦ hrefused.2.2 (Nat.le_zero.mp (hall.2.2.2 hrefused.1))]
        · have hzero (hsoft : software = true) : cpl ≤ 0 := by
            by_contra hpos
            exact hrefused ⟨hsoft, hsyscall, by omega⟩
          rw [if_neg hrefused, if_pos ⟨by omega, by decide, by decide, hzero⟩]
  · have hnone : isrInstall v = none := by
      by_contra hsome
      have hall : ∀ k ∈ idtGates.map Prod.fst, k < 256 := by decide
      exact hv (hall v ((mem_idtGates_iff v).mpr hsome))
    rw [if_neg fun hall ↦ by omega, hnone, Option.map_none, ite_self]

/-- In whatever context an interrupt comes, the CPU enters its stub through `kernelGate`; for `int`
outside of ring 0 it does so for `0x80` only. -/
theorem TablesLoaded.interrupt (h : TablesLoaded addr t kernelStack m) (c : Context)
    (software : Bool) (v : Nat) (code : Option u32) :
    X86.interrupt m { t.regs with task := ⟨t.tss, 103, 0x89, 0⟩ } c software v code =
      if software = true ∧ v ≠ 0x80 ∧ c.cpl ≠ 0 then none
      else (isrInstall v).map fun stub ↦
        { deliver (kernelGate kernelStack) c code with eip := addr stub } := by
  have hcpl : c.cpl ≤ 3 := Nat.le_of_lt_succ (Nat.mod_lt _ (by decide))
  rw [X86.interrupt, h.gateOf _ rfl hcpl]
  by_cases hrefused : software = true ∧ v ≠ 0x80 ∧ c.cpl ≠ 0
  · rw [if_pos hrefused, if_pos hrefused, Option.bind_none]
  · rw [if_neg hrefused, if_neg hrefused]
    cases isrInstall v with
    | none => rfl
    | some stub =>
      rw [Option.map_some, Option.bind_some, Option.map_some]
      dsimp only
      have hcode : descriptorOf m t.regs.gdtr KERNEL_CS = some ⟨0, 0xFFFFF, 0x9A, 0x0C⟩ := h.code
      have hcond : ¬ Access.isConforming 0x9A = true := by decide
      have hdpl : Access.dpl 0x9A = 0 := by decide
      have hlevel : atLevel KERNEL_CS 0 = KERNEL_CS := by decide
      rw [hcode, Option.bind_some]
      dsimp only
      rw [if_neg hcond, hdpl, hlevel,
        if_pos ⟨by decide, by decide, by decide, Nat.zero_le _⟩]
      by_cases hinner : 0 = c.cpl
      · have hcs : Gate.cs ⟨KERNEL_CS, c.ss, c.esp⟩ = (kernelGate kernelStack).cs := rfl
        have hsame := deliver_sameLevel hcs
          (hinner.symm.trans (by decide : 0 = rpl KERNEL_CS)) code
        rw [if_pos hinner, Option.map_some, hsame]
      · rw [if_neg hinner, stackOf]
        have hss : read16 m (t.tss.toNat + (8 + 8 * 0)) = DATA_SEG := h.ss0
        have hesp : read32 m (t.tss.toNat + (4 + 8 * 0)) = kernelStack := h.esp0
        dsimp only
        rw [hss, hesp, lastOffset_tss, if_pos ⟨by decide, h.stack⟩]
        rfl

theorem TablesLoaded.portAllowed (h : TablesLoaded addr t kernelStack m) {c : Context}
    (hiopl : c.eflags.toNat / 2 ^ 12 % 4 < c.cpl) (port : Nat) :
    X86.portAllowed m { t.regs with task := ⟨t.tss, 103, 0x89, 0⟩ } c port = false := by
  have hiomap : read16 m (t.tss.toNat + 102) = 104 := h.iomap
  rw [X86.portAllowed]
  dsimp only
  rw [hiomap]
  have hlimit : ¬ (104 : u16).toNat + port / 8 + 1 ≤
      SegmentDescriptor.lastOffset ⟨t.tss, 103, 0x89, 0⟩ := by
    rw [lastOffset_tss, show (104 : u16).toNat = 104 by decide]
    omega
  rw [decide_eq_false (Nat.not_le.mpr hiopl), decide_eq_false hlimit]
  rfl

theorem TablesReady.accessBytes (h : TablesReady addr t mem) (kernelStack : u32) :
    X86.accessBytes (tssInit t.gdt.toNat t.tss mem kernelStack) t.regs.gdtr = kernelGdt := by
  have hapart := t.gdt_tss
  have hsegs : ∀ i < 40, tssInit t.gdt.toNat t.tss mem kernelStack (t.gdt.toNat + i) =
      kernelGdtStart.getD i 0 := fun i hi ↦
    (tssInit_outside (by omega) (by omega)).trans (h.gdt i (by omega))
  have htask : tssInit t.gdt.toNat t.tss mem kernelStack (t.gdt.toNat + 45) = 0x89 := by
    have hsegment := segmentAt_gdtSetTss t.gdt.toNat
    exact congrArg SegmentDescriptor.access (hsegment _ t.tss (BitVec.ofNat 32 (tssSize - 1)))
  have haccess := accessBytes_eq hsegs
  rw [htask] at haccess
  exact haccess

-- The gates are set in a table that does not overlap the global one.
theorem tablesReady_installGates (addr : Code → u32) {t : TableLayout} {m : Bytes}
    (hzero : ∀ i < 2048, m (t.idt.toNat + i) = 0)
    (hgdt : ∀ i < 48, m (t.gdt.toNat + i) = kernelGdtStart.getD i 0) :
    TablesReady addr t (installGates addr t.idt.toNat m) := by
  have hapart := t.idt_gdt
  exact ⟨⟨m, hzero, fun _ _ ↦ rfl⟩, fun i hi ↦
    (foldl_outside addr t.idt.toNat (by decide) m (by omega)).trans (hgdt i hi)⟩

/-- The bytes that `isr_install`, `kernel_gdt.asm` and `tss_init` leave in memory are the tables that
`isrInstall`, `kernelGate` and `kernelGdt` stand for: with them the CPU delivers every interrupt to its
stub, `int` outside of ring 0 only for `0x80`, and outside of ring 0 a program with no I/O privilege
can use no port. -/
theorem tables_found (h : TablesReady addr t mem) (kernelStack : u32) :
    X86.accessBytes (tssInit t.gdt.toNat t.tss mem kernelStack) t.regs.gdtr = kernelGdt ∧
      ∃ r m, ltr (tssInit t.gdt.toNat t.tss mem kernelStack) t.regs TSS_SEG = some (r, m) ∧
        (∀ c software v code, X86.interrupt m r c software v code =
          if software = true ∧ v ≠ 0x80 ∧ c.cpl ≠ 0 then none
          else (isrInstall v).map fun stub ↦
            { deliver (kernelGate kernelStack) c code with eip := addr stub }) ∧
        ∀ c port, c.eflags.toNat / 2 ^ 12 % 4 < c.cpl → X86.portAllowed m r c port = false := by
  have hloaded := h.loaded kernelStack
  exact ⟨h.accessBytes kernelStack, _, _, ltr_tssInit t mem kernelStack, hloaded.interrupt,
    fun c port hiopl ↦ hloaded.portAllowed hiopl port⟩

/-! Tables one page apart, in memory that is zero but for the global table, and stubs 16 bytes apart. -/

def stubAddress (stub : Code) : u32 :=
  BitVec.ofNat 32 (0xC0100000 + 16 * idtGates.findIdx (·.2.1 = stub))

def pagedLayout : TableLayout where
  idt := 0xC0110000
  gdt := 0xC0111000
  tss := 0xC0112000
  idt_gdt := by decide
  idt_tss := by decide
  gdt_tss := by decide

def assembledMemory : Bytes := fun a ↦
  if 0xC0111000 ≤ a ∧ a < 0xC0111030 then kernelGdtStart.getD (a - 0xC0111000) 0 else 0

theorem tablesReady_paged (addr : Code → u32) :
    TablesReady addr pagedLayout (installGates addr pagedLayout.idt.toNat assembledMemory) := by
  have hidt : pagedLayout.idt.toNat = 0xC0110000 := rfl
  have hgdt : pagedLayout.gdt.toNat = 0xC0111000 := rfl
  refine tablesReady_installGates addr (fun i hi ↦ ?_) fun i hi ↦ ?_
  · rw [hidt, assembledMemory, if_neg (by omega)]
  · rw [hgdt, assembledMemory, if_pos (by omega), Nat.add_sub_cancel_left]

theorem tables_found_paged :
    let mem := installGates stubAddress pagedLayout.idt.toNat assembledMemory
    X86.accessBytes (tssInit pagedLayout.gdt.toNat pagedLayout.tss mem 0xC0190000)
        pagedLayout.regs.gdtr = kernelGdt ∧
      ∃ r m, ltr (tssInit pagedLayout.gdt.toNat pagedLayout.tss mem 0xC0190000)
          pagedLayout.regs TSS_SEG = some (r, m) ∧
        (∀ c software v code, X86.interrupt m r c software v code =
          if software = true ∧ v ≠ 0x80 ∧ c.cpl ≠ 0 then none
          else (isrInstall v).map fun stub ↦
            { deliver (kernelGate 0xC0190000) c code with eip := stubAddress stub }) ∧
        ∀ c port, c.eflags.toNat / 2 ^ 12 % 4 < c.cpl → X86.portAllowed m r c port = false :=
  tables_found (tablesReady_paged stubAddress) 0xC0190000

end TenOs.Cpu
