import TenOs.Base.Memory

/-!
# An IDE drive

One drive on a channel, with 28-bit sector numbers, programmed I/O and a write cache.  A command and
the end of a written sector keep the drive busy for a while, which passes as its status is looked at;
while it is busy it takes no bytes.
-/

namespace TenOs.X86

open TenOs.Base

/-- What the data register is for: the words of a sector from a position on, out or in. -/
inductive IdeTransfer
  | none
  | toHost (sector pos : Nat)
  | toDrive (sector pos : Nat) (block : Bytes)

/-- `contents` are the sectors as reads give them, and `stable` as they are without the cache.  The
`k`-th task takes `pace k` looks at the status. -/
structure IdeDrive where
  sectors : Nat
  contents : Nat → Bytes
  stable : Nat → Bytes
  count : BitVec 8
  lbaLow : BitVec 8
  lbaMid : BitVec 8
  lbaHigh : BitVec 8
  head : BitVec 8
  transfer : IdeTransfer
  failed : Bool
  busy : Nat
  pace : Nat → Nat
  tasks : Nat

namespace IdeDrive

variable (d : IdeDrive)

/-- The sector that the registers name. -/
def lba : Nat :=
  d.lbaLow.toNat + 2 ^ 8 * d.lbaMid.toNat + 2 ^ 16 * d.lbaHigh.toNat + 2 ^ 24 * (d.head &&& 0x0F).toNat

/-- The registers ask for one sector by its number, on the first drive. -/
def Addressed : Prop := d.count = 1 ∧ d.head &&& 0x50 = 0x40

instance : Decidable d.Addressed := inferInstanceAs (Decidable (_ ∧ _))

def start : IdeDrive := { d with busy := d.pace d.tasks, tasks := d.tasks + 1 }

/-- The commands to read and to write a sector, and to flush the cache; others, and requests for more
than one sector, are not modelled. -/
def command (c : BitVec 8) : IdeDrive :=
  match d.transfer with
  | .none =>
      if c = 0xE7 then { d.start with stable := d.contents, failed := false }
      else if d.Addressed ∧ c = 0x20 then
        if d.lba < d.sectors then { d.start with transfer := .toHost d.lba 0, failed := false }
        else { d.start with failed := true }
      else if d.Addressed ∧ c = 0x30 then
        if d.lba < d.sectors then
          { d.start with transfer := .toDrive d.lba 0 (d.contents d.lba), failed := false }
        else { d.start with failed := true }
      else d
  | _ => d

/-- A byte for one of the registers 2 to 7. -/
def writeReg (reg : Nat) (b : BitVec 8) : IdeDrive :=
  if d.busy ≠ 0 then d
  else if reg = 2 then { d with count := b }
  else if reg = 3 then { d with lbaLow := b }
  else if reg = 4 then { d with lbaMid := b }
  else if reg = 5 then { d with lbaHigh := b }
  else if reg = 6 then { d with head := b }
  else if reg = 7 then d.command b
  else d

def requests : Bool :=
  match d.transfer with
  | .none => false
  | _ => true

/-- Only the busy bit while the drive is busy; otherwise ready, with the bits of a request for the data
register and of an error. -/
def status : BitVec 8 :=
  if d.busy ≠ 0 then 0x80
  else 0x50 ||| (if d.requests then 0x08 else 0) ||| (if d.failed then 0x01 else 0)

/-- What a look at the status does. -/
def look : IdeDrive := { d with busy := d.busy - 1 }

/-- The error register: the sector was not found. -/
def error : BitVec 8 := if d.failed then 0x10 else 0

def readData : BitVec 16 × IdeDrive :=
  if d.busy ≠ 0 then (0xFFFF, d)
  else match d.transfer with
  | .toHost n i =>
      (read16 (d.contents n) (2 * i),
        { d with transfer := if i + 1 < 256 then .toHost n (i + 1) else .none })
  | _ => (0xFFFF, d)

/-- The last word of a sector puts it in the cache. -/
def writeData (w : BitVec 16) : IdeDrive :=
  if d.busy ≠ 0 then d
  else match d.transfer with
  | .toDrive n i block =>
      let block := write16 block (2 * i) w
      if i + 1 < 256 then { d with transfer := .toDrive n (i + 1) block }
      else { d.start with contents := Function.update d.contents n block, transfer := .none }
  | _ => d

/-! ## Registers -/

variable {d}

theorem writeReg_count (h : d.busy = 0) (b : BitVec 8) : d.writeReg 2 b = { d with count := b } := by
  rw [writeReg, if_neg (not_not.mpr h), if_pos rfl]

theorem writeReg_lbaLow (h : d.busy = 0) (b : BitVec 8) :
    d.writeReg 3 b = { d with lbaLow := b } := by
  rw [writeReg, if_neg (not_not.mpr h), if_neg (by decide), if_pos rfl]

theorem writeReg_lbaMid (h : d.busy = 0) (b : BitVec 8) :
    d.writeReg 4 b = { d with lbaMid := b } := by
  rw [writeReg, if_neg (not_not.mpr h), if_neg (by decide), if_neg (by decide), if_pos rfl]

theorem writeReg_lbaHigh (h : d.busy = 0) (b : BitVec 8) :
    d.writeReg 5 b = { d with lbaHigh := b } := by
  rw [writeReg, if_neg (not_not.mpr h), if_neg (by decide), if_neg (by decide), if_neg (by decide),
    if_pos rfl]

theorem writeReg_head (h : d.busy = 0) (b : BitVec 8) : d.writeReg 6 b = { d with head := b } := by
  rw [writeReg, if_neg (not_not.mpr h), if_neg (by decide), if_neg (by decide), if_neg (by decide),
    if_neg (by decide), if_pos rfl]

theorem writeReg_command (h : d.busy = 0) (b : BitVec 8) : d.writeReg 7 b = d.command b := by
  rw [writeReg, if_neg (not_not.mpr h), if_neg (by decide), if_neg (by decide), if_neg (by decide),
    if_neg (by decide), if_neg (by decide), if_pos rfl]

theorem writeReg_busy (h : d.busy ≠ 0) (reg : Nat) (b : BitVec 8) : d.writeReg reg b = d := if_pos h

theorem look_busy (d : IdeDrive) : d.look.busy = d.busy - 1 := rfl

/-! ## Sectors as words -/

-- A word that is loaded from one place and stored in another is a copy of two bytes.
theorem write16_read16 (m b : Bytes) (a c : Nat) :
    write16 m a (read16 b c) = copyCells m a b c 2 := by
  have hlow : (read16 b c).extractLsb' 0 8 = b c := BitVec.extractLsb'_append_eq_right
  have hhigh : (read16 b c).extractLsb' 8 8 = b (c + 1) := BitVec.extractLsb'_append_eq_left
  rw [write16, hlow, hhigh]
  rfl

/-- The drive is not busy, and gives the words of sector `n` from `i` on. -/
structure Reads (d : IdeDrive) (n i : Nat) : Prop where
  free : d.busy = 0
  transfer : d.transfer = .toHost n i

/-- The drive is not busy, and takes the words of sector `n` from `i` on. -/
structure Writes (d : IdeDrive) (n i : Nat) (block : Bytes) : Prop where
  free : d.busy = 0
  transfer : d.transfer = .toDrive n i block

theorem Reads.next {n i : Nat} (h : d.Reads n i) :
    d.readData = (read16 (d.contents n) (2 * i),
      { d with transfer := if i + 1 < 256 then .toHost n (i + 1) else .none }) := by
  rw [readData, if_neg (not_not.mpr h.free), h.transfer]

theorem Writes.next {n i : Nat} {block : Bytes} (h : d.Writes n i block) (w : BitVec 16) :
    d.writeData w =
      if i + 1 < 256 then { d with transfer := .toDrive n (i + 1) (write16 block (2 * i) w) }
      else
        { d.start with
          contents := Function.update d.contents n (write16 block (2 * i) w)
          transfer := .none } := by
  rw [writeData, if_neg (not_not.mpr h.free), h.transfer]

end IdeDrive

end TenOs.X86
