import TenOs.Base.TwoLevel
import TenOs.Lib.Util
import TenOs.Mm.Memory

/-!
# `mm/paging.c` and `boot/paging.asm`

The kernel edits its page tables through linear addresses, so each access goes through the tables
that are in force at that moment.  An access to a page that is not mapped is a page fault, which the
kernel does not come back from: `none`.  The kernel's variables are fields of `Machine` and not
words of its memory.
-/

namespace TenOs.Mm

open TenOs.Base TenOs.Lib

/-- The frame allocator that paging calls; `alloc_memory_block` returns an address, or 0. -/
class FrameAllocator (A : Type) where
  allocMemoryBlock : A → A × u32

instance : FrameAllocator MemMngr where
  allocMemoryBlock := MemMngr.allocMemoryBlock

namespace FrameAllocator

variable {A : Type} [FrameAllocator A]

/-- The allocator after `n` calls. -/
def after (a : A) : Nat → A
  | 0 => a
  | n + 1 => (allocMemoryBlock (after a n)).1

/-- What call `n` returns. -/
def frame (a : A) (n : Nat) : u32 := (allocMemoryBlock (after a n)).2

theorem after_allocMemoryBlock (a : A) (n : Nat) :
    after (allocMemoryBlock a).1 n = after a (n + 1) := by
  induction n with
  | zero => rfl
  | succ n ih =>
    rw [after, ih]
    rfl

theorem frame_allocMemoryBlock (a : A) (n : Nat) :
    frame (allocMemoryBlock a).1 n = frame a (n + 1) := by
  rw [frame, after_allocMemoryBlock, frame]

end FrameAllocator

/-! ## Entries -/

def I86_PTE_PRESENT : u32 := 1
def I86_PTE_WRITABLE : u32 := 2
def I86_PTE_USER : u32 := 4
def I86_PTE_FRAME : u32 := 0x7FFFF000
def I86_PDE_PRESENT : u32 := 1
def I86_PDE_WRITABLE : u32 := 2
def I86_PDE_USER : u32 := 4
def I86_PDE_FRAME : u32 := 0x7FFFF000

/-- The bodies that `vmmngr_pte.c` and `vmmngr_pde.c` share. -/
def entryAddAttrib (e attrib : u32) : u32 := e ||| attrib
def entryDelAttrib (e attrib : u32) : u32 := e &&& ~~~attrib
def entrySetFrame (frame e addr : u32) : u32 := (e &&& ~~~frame) ||| addr
def entryPfn (frame e : u32) : u32 := e &&& frame

def ptEntryAddAttrib (e attrib : u32) : u32 := entryAddAttrib e attrib
def ptEntryDelAttrib (e attrib : u32) : u32 := entryDelAttrib e attrib
def ptEntrySetFrame (e addr : u32) : u32 := entrySetFrame I86_PTE_FRAME e addr
def ptEntryPfn (e : u32) : u32 := entryPfn I86_PTE_FRAME e
def pdEntryAddAttrib (e attrib : u32) : u32 := entryAddAttrib e attrib
def pdEntrySetFrame (e addr : u32) : u32 := entrySetFrame I86_PDE_FRAME e addr
def pdEntryPfn (e : u32) : u32 := entryPfn I86_PDE_FRAME e

def PAGE_SIZE : u32 := 4096
def pageDirectoryIndex (x : u32) : u32 := (x >>> 22) &&& 0x3FF
def pageTableIndex (x : u32) : u32 := (x >>> 12) &&& 0x3FF
/-- `PAGE_GET_PHYSICAL_ADDRESS`, of the entry itself. -/
def pageGetPhysicalAddress (e : u32) : u32 := e &&& ~~~0xFFF
def P2V (addr : u32) : u32 := addr + 0xC0000000

/-- `&table->m_entries[i]`. -/
def mEntries (table i : u32) : u32 := table + 4 * i

/-! ## The machine -/

structure Machine (A : Type) where
  frames : A
  mem : Words
  cr3 : u32
  curDirectory : u32
  curPdbr : u32
  kernelDirectory : u32
  kernelDirectoryPhysical : u32

namespace Machine

variable {A : Type}

def translate (s : Machine A) (v : u32) : Option u32 := Base.translate s.mem s.cr3 v

def load (s : Machine A) (v : u32) : Option u32 :=
  (s.translate v).map fun p ↦ s.mem (p.toNat / 4)

def store (s : Machine A) (v x : u32) : Option (Machine A) :=
  (s.translate v).map fun p ↦ { s with mem := Function.update s.mem (p.toNat / 4) x }

/-- A function of `vmmngr_pte.c` or `vmmngr_pde.c` on the entry at `e`. -/
def modify (s : Machine A) (e : u32) (f : u32 → u32) : Option (Machine A) := do
  let x ← s.load e
  s.store e (f x)

/-- `memset`, a word at a time: it is called on whole tables. -/
def memset (s : Machine A) (dest : u32) (val : u8) (len : Nat) : Option (Machine A) :=
  forAbort (fun i s ↦ s.store (dest + 4 * BitVec.ofNat 32 i) (val ++ val ++ val ++ val))
    (len / 4) 0 s

/-- The four calls that fill in a directory entry. -/
def setPde (s : Machine A) (e addr : u32) : Option (Machine A) := do
  let s ← s.modify e (pdEntrySetFrame · addr)
  let s ← s.modify e (pdEntryAddAttrib · I86_PDE_PRESENT)
  let s ← s.modify e (pdEntryAddAttrib · I86_PDE_WRITABLE)
  s.modify e (pdEntryAddAttrib · I86_PDE_USER)

def setPte (s : Machine A) (e addr : u32) : Option (Machine A) := do
  let s ← s.modify e (ptEntrySetFrame · addr)
  let s ← s.modify e (ptEntryAddAttrib · I86_PTE_PRESENT)
  let s ← s.modify e (ptEntryAddAttrib · I86_PTE_WRITABLE)
  s.modify e (ptEntryAddAttrib · I86_PTE_USER)

/-- `vmmngr_map_page` from where the page table is there. -/
def mapInTable (s : Machine A) (e phys virt : u32) : Option (Machine A) := do
  let pde ← s.load e
  let table := P2V (pageGetPhysicalAddress pde)
  s.setPte (mEntries table (pageTableIndex virt)) phys

variable [FrameAllocator A]

/-- `alloc_memory_block` with the address it returns. -/
def allocMemoryBlock (s : Machine A) : Machine A × u32 :=
  let r := FrameAllocator.allocMemoryBlock s.frames
  ({ s with frames := r.1 }, r.2)

def vmmngrMapPage (s : Machine A) (phys virt : u32) : Option (Machine A) :=
  if phys = 0 ∨ virt = 0 then some s
  else do
    let e := mEntries s.curDirectory (pageDirectoryIndex virt)
    let pde ← s.load e
    if pde &&& I86_PDE_PRESENT = 0 then
      let r := s.allocMemoryBlock
      let table := P2V r.2
      if table = 0 then some r.1
      else do
        let s ← r.1.memset table 0 4096
        let s ← s.setPde e r.2
        s.mapInTable e phys virt
    else s.mapInTable e phys virt

/-- `vmmngr_alloc_page` with the address it returns. -/
def vmmngrAllocPage (s : Machine A) : Option (Machine A × u32) :=
  let r := s.allocMemoryBlock
  if r.2 = 0 then some (r.1, 0)
  else (r.1.vmmngrMapPage r.2 (P2V r.2)).map fun s ↦ (s, P2V r.2)

/-- `n` calls of `vmmngr_alloc_page` with the addresses they return. -/
def allocPages (s : Machine A) : Nat → Option (Machine A × List u32)
  | 0 => some (s, [])
  | n + 1 => do
      let r ← s.vmmngrAllocPage
      let rest ← r.1.allocPages n
      some (rest.1, r.2 :: rest.2)

/-- `vmmngr_free_page`, of the entry at `e`. -/
def vmmngrFreePage (s : Machine MemMngr) (e : u32) : Option (Machine MemMngr) :=
  if e = 0 then some s
  else do
    let pte ← s.load e
    let p := ptEntryPfn pte
    let s := if p = 0 then s else { s with frames := s.frames.freeMemoryBlock p }
    s.modify e (ptEntryDelAttrib · I86_PTE_PRESENT)

/-! ## `vmmngr_initialize` -/

/-- "Copying boot mappings to new PD": the turn for directory entry `i`. -/
def copyTable (bootPd newPd : u32) (i : Nat) (s : Machine A) : Option (Machine A) := do
  let bootPde := mEntries bootPd (BitVec.ofNat 32 i)
  let pde ← s.load bootPde
  if pde &&& I86_PDE_PRESENT = 0 then some s
  else do
    let r := s.allocMemoryBlock
    let newTable := P2V r.2
    let s ← r.1.memset newTable 0 4096
    let pde ← s.load bootPde
    let oldTable := P2V (pageGetPhysicalAddress pde)
    let s ← forAbort (fun j s ↦ do
      let x ← s.load (mEntries oldTable (BitVec.ofNat 32 j))
      s.store (mEntries newTable (BitVec.ofNat 32 j)) x) 1024 0 s
    s.setPde (mEntries newPd (BitVec.ofNat 32 i)) r.2

/-- `vmmngr_switch_pdirectory`. -/
def vmmngrSwitchPdirectory (s : Machine A) (dirPhys : u32) : Machine A :=
  if dirPhys = 0 then s else { s with curPdbr := dirPhys, cr3 := dirPhys }

/-- "Extending memory mappings": the turn for the page at `phys`. -/
def extendPage (phys : u32) (s : Machine A) : Option (Machine A) := do
  let virt := 0xC0000000 + phys
  let pde ← s.load (mEntries s.kernelDirectory (pageDirectoryIndex virt))
  if pde &&& I86_PDE_PRESENT = 0 then s.vmmngrMapPage phys virt
  else do
    let table := P2V (pageGetPhysicalAddress pde)
    let pte ← s.load (mEntries table (pageTableIndex virt))
    if pte &&& I86_PTE_PRESENT = 0 then s.vmmngrMapPage phys virt else some s

/-- "Removing identity mapping".  The reload of `cr3` at its end drops the processor's copies of the
entries, of which the model has none. -/
def removeIdentity (s : Machine A) : Option (Machine A) := do
  let pde ← s.load (mEntries s.kernelDirectory 0)
  if pde &&& I86_PDE_PRESENT = 0 then some s
  else do
    let table := P2V (pageGetPhysicalAddress pde)
    let s ← forAbort (fun i s ↦ s.store (mEntries table (BitVec.ofNat 32 i)) 0) 1024 0 s
    s.store (mEntries s.kernelDirectory 0) 0

/-- The turns of `for (phys = 0x400000; phys < total_memory; phys += PAGE_SIZE)`. -/
def extendTurns (totalMemory : u32) : Nat := (totalMemory.toNat - 0x400000 + 4095) / 4096

def vmmngrInitialize (s : Machine A) (totalMemory : u32) : Option (Machine A) :=
  let bootPd := P2V s.cr3
  let totalMemory := if totalMemory > 0x40000000 then 0x40000000 else totalMemory
  let r := s.allocMemoryBlock
  if r.2 = 0 then some r.1
  else do
    let newPd := P2V r.2
    let s ← r.1.memset newPd 0 4096
    let s ← forAbort (copyTable bootPd newPd) 1024 0 s
    let s := { s with
      kernelDirectory := newPd
      kernelDirectoryPhysical := r.2
      curDirectory := newPd
      curPdbr := r.2 }
    let s := s.vmmngrSwitchPdirectory r.2
    let s ← forAbort (fun i s ↦ s.extendPage (0x400000 + BitVec.ofNat 32 i * PAGE_SIZE))
      (extendTurns totalMemory) 0 s
    s.removeIdentity

end Machine

/-! ## `setup_paging` -/

def PAGE_DIR : u32 := 0x9C000
def PAGE_TABLE_0 : u32 := 0x9D000
def PAGE_TABLE_768 : u32 := 0x9E000
def PAGE_TABLE_ENTRIES : Nat := 1024
/-- Present, writable and user. -/
def PRIV : u32 := 0x007

/-- The stores before paging is on. -/
def setupTables (mem : Words) : Words :=
  let mem := forLoop (fun i mem ↦ Function.update mem (PAGE_DIR.toNat / 4 + i) 0) 1024 0 mem
  let mem := forLoop (fun i mem ↦ Function.update mem (PAGE_TABLE_0.toNat / 4 + i)
    (PRIV + BitVec.ofNat 32 i * 4096)) PAGE_TABLE_ENTRIES 0 mem
  let mem := Function.update mem (PAGE_DIR.toNat / 4) (PAGE_TABLE_0 ||| PRIV)
  Function.update mem (PAGE_DIR.toNat / 4 + 768) (PAGE_TABLE_768 ||| PRIV)

/-- The table for the kernel's half is filled when paging is on already, through the identity
mapping. -/
def setupPaging {A : Type} (frames : A) (mem : Words) : Option (Machine A) :=
  let s : Machine A :=
    { frames, mem := setupTables mem, cr3 := PAGE_DIR, curDirectory := 0, curPdbr := 0,
      kernelDirectory := 0, kernelDirectoryPhysical := 0 }
  forAbort (fun i s ↦ s.store (PAGE_TABLE_768 + 4 * BitVec.ofNat 32 i)
    (PRIV + BitVec.ofNat 32 i * 4096)) PAGE_TABLE_ENTRIES 0 s

end TenOs.Mm
