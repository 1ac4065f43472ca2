import TenOs.Lib.Util

/-!
# `drivers/ata.c`: sectors

What the file system sees of the drive: `readSector` and `writeSector` of one 512-byte sector.
`SectorDevice` is that interface, so that the file system is one definition over any drive;
`Disk` is the drive that answers every command and keeps what was written.
-/

namespace TenOs.Drivers

open TenOs.Base TenOs.Lib

/-- The sector number that reaches the drive: `ata_read_sector` and `ata_write_sector` send bits
0 to 23 in the three LBA registers and bits 24 to 27 in the drive/head register. -/
def lba28 (lba : u32) : Nat :=
  (lba &&& 0xFF#32).toNat + 2 ^ 8 * ((lba >>> 8) &&& 0xFF#32).toNat +
    2 ^ 16 * ((lba >>> 16) &&& 0xFF#32).toNat + 2 ^ 24 * ((lba >>> 24) &&& 0x0F#32).toNat

theorem lba28_eq_mod (lba : u32) : lba28 lba = lba.toNat % 2 ^ 28 := by
  unfold lba28
  rw [toNat_and_lowMask lba (k := 8) rfl, toNat_and_lowMask (lba >>> 8) (k := 8) rfl,
    toNat_and_lowMask (lba >>> 16) (k := 8) rfl, toNat_and_lowMask (lba >>> 24) (k := 4) rfl,
    toNat_ushiftRight_eq, toNat_ushiftRight_eq, toNat_ushiftRight_eq]
  omega

/-- A drive: read one sector into `buffer + at`, and write one sector from `buffer + at`. -/
class SectorDevice (D : Type) where
  readSector : D → u32 → Bytes → Nat → Bytes × D
  writeSector : D → u32 → Bytes → Nat → D

export SectorDevice (readSector writeSector)

/-- A faithful store: `sector n` holds bytes `0, …, 511` of sector `n`. -/
structure Disk where
  sector : Nat → Bytes

/-- `ata_read_sector` on its path without an error: 256 data words into the buffer. -/
def ataReadSector (disk : Disk) (lba : u32) (buffer : Bytes) (off : Nat) : Bytes :=
  copyCells buffer off (disk.sector (lba28 lba)) 0 512

/-- `ata_write_sector`: 256 data words from the buffer. -/
def ataWriteSector (disk : Disk) (lba : u32) (buffer : Bytes) (off : Nat) : Disk where
  sector := Function.update disk.sector (lba28 lba)
    (copyCells (disk.sector (lba28 lba)) 0 buffer off 512)

instance : SectorDevice Disk where
  readSector disk lba buffer off := (ataReadSector disk lba buffer off, disk)
  writeSector disk lba buffer off := ataWriteSector disk lba buffer off

variable (disk : Disk) (lba : u32) (buffer : Bytes) (off : Nat)

theorem readSector_inside {i : Nat} (h : i < 512) :
    (readSector disk lba buffer off).1 (off + i) = disk.sector (lba28 lba) i := by
  change copyCells buffer off (disk.sector (lba28 lba)) 0 512 (off + i) = _
  rw [copyCells_inside _ _ h, Nat.zero_add]

theorem readSector_outside {a : Nat} (h : a < off ∨ off + 512 ≤ a) :
    (readSector disk lba buffer off).1 a = buffer a :=
  copyCells_outside _ _ h

theorem writeSector_same {i : Nat} (h : i < 512) :
    (writeSector disk lba buffer off).sector (lba28 lba) i = buffer (off + i) := by
  change Function.update disk.sector (lba28 lba)
    (copyCells (disk.sector (lba28 lba)) 0 buffer off 512) (lba28 lba) i = _
  rw [Function.update_self]
  simpa only [Nat.zero_add] using copyCells_inside (disk.sector (lba28 lba)) buffer (d := 0)
    (s := off) h

theorem writeSector_other {n : Nat} (h : n ≠ lba28 lba) :
    (writeSector disk lba buffer off).sector n = disk.sector n :=
  Function.update_of_ne h _ _

end TenOs.Drivers
