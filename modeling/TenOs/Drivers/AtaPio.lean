import TenOs.Base.Returns
import TenOs.Drivers.AtaPolling
import TenOs.X86.IdeDrive

/-!
# `drivers/ata.c` on a drive

The driver's accesses to the registers of a drive with delays of any length.  Calls for sectors that
exist return and do to the drive what they do to a `Disk`, call after call; a call for any other sector
never returns.
-/

namespace TenOs.Drivers

open TenOs.Base TenOs.Lib TenOs.X86

/-! ## The code -/

/-- The drive, and the lines logged. -/
structure AtaBus where
  drive : IdeDrive
  messages : List AtaMessage

namespace AtaBus

variable (s : AtaBus)

/-- Port `ATA_PRIMARY_IO + reg`. -/
def portByteOut (reg : Nat) (value : u8) : AtaBus := { s with drive := s.drive.writeReg reg value }

/-- The status register, or the alternate one at `ATA_PRIMARY_CONTROL`. -/
def statusIn : u8 × AtaBus := (s.drive.status, { s with drive := s.drive.look })

def dataIn : u16 × AtaBus := (s.drive.readData.1, { s with drive := s.drive.readData.2 })

def dataOut (word : u16) : AtaBus := { s with drive := s.drive.writeData word }

def prErr (message : AtaMessage) : AtaBus := { s with messages := s.messages ++ [message] }

def ioWait : AtaBus := s.statusIn.2.statusIn.2.statusIn.2.statusIn.2

/-- `none` when the drive is still busy after `k` turns. -/
def ataWaitBsy : (k : Nat) → AtaBus → Option AtaBus
  | 0, _ => none
  | k + 1, s =>
      let (status, s) := s.statusIn
      if status &&& ATA_SR_BSY ≠ 0 then ataWaitBsy k s else some s

def ataWaitDrq : (k : Nat) → AtaBus → Option AtaBus
  | 0, _ => none
  | k + 1, s =>
      let (status, s) := s.statusIn
      if ¬ (status &&& ATA_SR_DRQ ≠ 0) then ataWaitDrq k s else some s

def ataCheckError : Bool × AtaBus :=
  let (status, s) := s.statusIn
  if status &&& ATA_SR_ERR ≠ 0 then (true, s.prErr (.ataError s.drive.error))
  else if status &&& ATA_SR_DF ≠ 0 then (true, s.prErr .driveFault)
  else (false, s)

/-- The registers that select the sector, and the command. -/
def command (lba : u32) (cmd : u8) : AtaBus :=
  let s := s.portByteOut ATA_REG_DRIVE_HEAD
    (ATA_DRIVE_MASTER ||| (0x40 : u8) ||| ((lba >>> 24) &&& 0x0F).setWidth 8)
  let s := s.portByteOut ATA_REG_SECCOUNT 1
  let s := s.portByteOut ATA_REG_LBA_LOW ((lba &&& 0xFF).setWidth 8)
  let s := s.portByteOut ATA_REG_LBA_MID (((lba >>> 8) &&& 0xFF).setWidth 8)
  let s := s.portByteOut ATA_REG_LBA_HIGH (((lba >>> 16) &&& 0xFF).setWidth 8)
  s.portByteOut ATA_REG_COMMAND cmd

/-- `buf16[i] = port_word_in(...)`, for `buffer + off`. -/
def wordIn (off i : Nat) (r : AtaBus × Bytes) : AtaBus × Bytes :=
  (r.1.dataIn.2, write16 r.2 (off + 2 * i) r.1.dataIn.1)

/-- `port_word_out(..., buf16[i])` -/
def wordOut (buffer : Bytes) (off i : Nat) (s : AtaBus) : AtaBus :=
  s.dataOut (read16 buffer (off + 2 * i))

def ataReadSector (k : Nat) (lba : u32) (buffer : Bytes) (off : Nat) : Option (AtaBus × Bytes) := do
  let s ← ataWaitBsy k s
  let s ← ataWaitDrq k (s.command lba ATA_CMD_READ_PIO)
  let (failed, s) := s.ataCheckError
  if failed then some (s.prErr (.errorReading lba), buffer)
  else
    let (s, buffer) := forLoop (wordIn off) 256 0 (s, buffer)
    some (s.ioWait, buffer)

def ataWriteSector (k : Nat) (lba : u32) (buffer : Bytes) (off : Nat) : Option AtaBus := do
  let s ← ataWaitBsy k s
  let s ← ataWaitDrq k (s.command lba ATA_CMD_WRITE_PIO)
  let s := forLoop (wordOut buffer off) 256 0 s
  let s := s.ioWait.portByteOut ATA_REG_COMMAND ATA_CMD_CACHE_FLUSH
  let s ← ataWaitBsy k s
  let (failed, s) := s.ataCheckError
  if failed then some (s.prErr (.errorWriting lba)) else some s

def ataReadSectors (k : Nat) (lba : u32) (sectorCount : u8) (buffer : Bytes) (off : Nat) :
    Option (AtaBus × Bytes) :=
  forAbort (fun i r ↦ r.1.ataReadSector k (lba + BitVec.ofNat 32 i) r.2 (off + i * 512))
    sectorCount.toNat 0 (s, buffer)

def ataWriteSectors (k : Nat) (lba : u32) (sectorCount : u8) (buffer : Bytes) (off : Nat) :
    Option AtaBus :=
  forAbort (fun i s ↦ s.ataWriteSector k (lba + BitVec.ofNat 32 i) buffer (off + i * 512))
    sectorCount.toNat 0 s

/-! ## Waiting -/

theorem status_bsy (d : IdeDrive) : d.status &&& ATA_SR_BSY ≠ 0 ↔ d.busy ≠ 0 := by
  rw [IdeDrive.status]
  split
  · exact iff_of_true (by decide) ‹_›
  · refine iff_of_false (not_not.mpr ?_) ‹_›
    cases d.requests <;> cases d.failed <;> decide

theorem status_drq (d : IdeDrive) :
    d.status &&& ATA_SR_DRQ ≠ 0 ↔ d.busy = 0 ∧ d.requests = true := by
  rw [IdeDrive.status]
  split
  · exact iff_of_false (by decide) fun h ↦ absurd h.1 ‹_›
  · rename_i hfree
    simp only [not_not.mp hfree, true_and]
    cases d.requests <;> cases d.failed <;> decide

theorem status_error {d : IdeDrive} (hfree : d.busy = 0) (hfailed : d.failed = false) :
    d.status &&& ATA_SR_ERR = 0 ∧ d.status &&& ATA_SR_DF = 0 := by
  rw [IdeDrive.status, if_neg (not_not.mpr hfree), hfailed]
  cases d.requests <;> decide

/-- The drive has come to the end of its task. -/
def settled : AtaBus := { s with drive := { s.drive with busy := 0 } }

variable {s}

-- Every turn is a look at the status, and brings the end of the task nearer.
theorem ataWaitBsy_eq {k : Nat} (hk : s.drive.busy < k) : ataWaitBsy k s = some s.settled := by
  generalize hn : s.drive.busy = n at hk
  induction n generalizing s k with
  | zero =>
    obtain ⟨k, rfl⟩ := Nat.exists_eq_succ_of_ne_zero (Nat.ne_of_gt hk)
    rw [ataWaitBsy]
    dsimp only [statusIn]
    rw [if_neg (mt (status_bsy _).mp (not_not.mpr hn)), settled, IdeDrive.look, hn]
  | succ n ih =>
    obtain ⟨k, rfl⟩ := Nat.exists_eq_succ_of_ne_zero (Nat.ne_of_gt (Nat.zero_lt_of_lt hk))
    rw [ataWaitBsy]
    dsimp only [statusIn]
    rw [if_pos ((status_bsy _).mpr (by omega))]
    exact ih (s := { s with drive := s.drive.look }) ((IdeDrive.look_busy _).trans (by omega))
      (Nat.lt_of_succ_lt_succ hk)

theorem ataWaitBsy_early {k : Nat} (hk : k ≤ s.drive.busy) : ataWaitBsy k s = none := by
  induction k generalizing s with
  | zero => rfl
  | succ k ih =>
    rw [ataWaitBsy]
    dsimp only [statusIn]
    rw [if_pos ((status_bsy _).mpr (by omega))]
    exact ih (s := { s with drive := s.drive.look }) (Nat.le_sub_of_add_le hk)

theorem ataWaitBsy_returns (s : AtaBus) : Returns (fun k ↦ ataWaitBsy k s) s.settled :=
  .intro (s.drive.busy + 1) fun _ hk ↦ ataWaitBsy_eq hk

theorem ataWaitDrq_eq (hrequest : s.drive.requests = true) {k : Nat} (hk : s.drive.busy < k) :
    ataWaitDrq k s = some s.settled := by
  generalize hn : s.drive.busy = n at hk
  induction n generalizing s k with
  | zero =>
    obtain ⟨k, rfl⟩ := Nat.exists_eq_succ_of_ne_zero (Nat.ne_of_gt hk)
    rw [ataWaitDrq]
    dsimp only [statusIn]
    rw [if_neg (not_not.mpr ((status_drq _).mpr ⟨hn, hrequest⟩)), settled, IdeDrive.look, hn]
  | succ n ih =>
    obtain ⟨k, rfl⟩ := Nat.exists_eq_succ_of_ne_zero (Nat.ne_of_gt (Nat.zero_lt_of_lt hk))
    rw [ataWaitDrq]
    dsimp only [statusIn]
    rw [if_pos (mt (status_drq _).mp fun h ↦ by omega)]
    exact ih (s := { s with drive := s.drive.look }) hrequest
      ((IdeDrive.look_busy _).trans (by omega)) (Nat.lt_of_succ_lt_succ hk)

theorem ataWaitDrq_returns (hrequest : s.drive.requests = true) :
    Returns (fun k ↦ ataWaitDrq k s) s.settled :=
  .intro (s.drive.busy + 1) fun _ hk ↦ ataWaitDrq_eq hrequest hk

-- Without a request the loop goes on for ever.
theorem ataWaitDrq_never (hrequest : s.drive.requests = false) (k : Nat) : ataWaitDrq k s = none := by
  induction k generalizing s with
  | zero => rfl
  | succ k ih =>
    rw [ataWaitDrq]
    dsimp only [statusIn]
    rw [if_pos (mt (status_drq _).mp fun h ↦ by rw [hrequest] at h; exact Bool.false_ne_true h.2)]
    exact ih (s := { s with drive := s.drive.look }) hrequest

theorem ataCheckError_settled (hfailed : s.drive.failed = false) :
    s.settled.ataCheckError = (false, s.settled) := by
  obtain ⟨herr, hdf⟩ := status_error (d := s.settled.drive) rfl hfailed
  rw [ataCheckError]
  dsimp only [statusIn]
  rw [if_neg (not_not.mpr herr), if_neg (not_not.mpr hdf)]
  rfl

/-! ## The registers -/

/-- The drive with the registers that `command` sets. -/
def selected (d : IdeDrive) (lba : u32) : IdeDrive :=
  { d with
    head := ATA_DRIVE_MASTER ||| (0x40 : u8) ||| ((lba >>> 24) &&& 0x0F).setWidth 8
    count := 1
    lbaLow := (lba &&& 0xFF).setWidth 8
    lbaMid := ((lba >>> 8) &&& 0xFF).setWidth 8
    lbaHigh := ((lba >>> 16) &&& 0xFF).setWidth 8 }

theorem command_eq (hfree : s.drive.busy = 0) (lba : u32) (cmd : u8) :
    s.command lba cmd = { s with drive := (selected s.drive lba).command cmd } := by
  simp only [command, portByteOut, IdeDrive.writeReg_head, IdeDrive.writeReg_count,
    IdeDrive.writeReg_lbaLow, IdeDrive.writeReg_lbaMid, IdeDrive.writeReg_lbaHigh,
    IdeDrive.writeReg_command, hfree, selected]

theorem head_bits (x : u8) (h : x &&& 0xF0 = 0) :
    (ATA_DRIVE_MASTER ||| 0x40 ||| x) &&& 0x50 = 0x40 ∧
      (ATA_DRIVE_MASTER ||| 0x40 ||| x) &&& 0x0F = x := by
  revert x
  decide +kernel

theorem setWidth8_toNat {x : u32} (h : x.toNat < 2 ^ 8) : (x.setWidth 8).toNat = x.toNat := by
  rw [BitVec.toNat_setWidth, Nat.mod_eq_of_lt h]

theorem lowByte_lt (x : u32) : (x &&& 0xFF).toNat < 2 ^ 8 := by
  rw [toNat_and_lowMask x (k := 8) rfl]
  exact Nat.mod_lt _ (by decide)

theorem nibble_lt (x : u32) : (x &&& 0x0F).toNat < 2 ^ 4 := by
  rw [toNat_and_lowMask x (k := 4) rfl]
  exact Nat.mod_lt _ (by decide)

theorem nibble_bits (x : u8) (h : x.toNat < 2 ^ 4) : x &&& 0xF0 = 0 := by
  revert x
  decide +kernel

theorem lba_head (lba : u32) : (((lba >>> 24) &&& 0x0F).setWidth 8 : u8) &&& 0xF0 = 0 := by
  have hlt := nibble_lt (lba >>> 24)
  refine nibble_bits _ ?_
  rw [setWidth8_toNat (by omega)]
  exact hlt

theorem selected_addressed (d : IdeDrive) (lba : u32) : (selected d lba).Addressed :=
  ⟨rfl, (head_bits _ (lba_head lba)).1⟩

theorem selected_lba (d : IdeDrive) (lba : u32) : (selected d lba).lba = lba28 lba := by
  have hhead := (head_bits _ (lba_head lba)).2
  have hlt := nibble_lt (lba >>> 24)
  have hnibble := setWidth8_toNat (x := (lba >>> 24) &&& 0x0F) (by omega)
  have hlow := setWidth8_toNat (lowByte_lt lba)
  have hmid := setWidth8_toNat (lowByte_lt (lba >>> 8))
  have hhigh := setWidth8_toNat (lowByte_lt (lba >>> 16))
  rw [IdeDrive.lba, lba28]
  dsimp only [selected]
  rw [hhead, hnibble, hlow, hmid, hhigh]
  rfl

/-! ## The words of a sector -/

theorem ioWait_eq (s : AtaBus) :
    s.ioWait = { s with drive := { s.drive with busy := s.drive.busy - 4 } } := by
  simp only [ioWait, statusIn, IdeDrive.look, Nat.sub_sub, Nat.reduceAdd]

-- A word more makes two bytes more of the copy.
theorem copyCells_word (m b : Bytes) (d s i : Nat) :
    write16 (copyCells m d b s (2 * i)) (d + 2 * i) (read16 b (s + 2 * i)) =
      copyCells m d b s (2 * (i + 1)) := by
  rw [IdeDrive.write16_read16]
  rfl

theorem wordsIn {n : Nat} (h : s.drive.Reads n 0) (buffer : Bytes) (off : Nat) :
    forLoop (wordIn off) 256 0 (s, buffer) =
      ({ s with drive := { s.drive with transfer := .none } },
        copyCells buffer off (s.drive.contents n) 0 512) := by
  let inv (i : Nat) (r : AtaBus × Bytes) : Prop :=
    r = ({ s with drive := { s.drive with transfer := if i < 256 then .toHost n i else .none } },
      copyCells buffer off (s.drive.contents n) 0 (2 * i))
  have hstart : inv 0 (s, buffer) := by
    change _ = _
    rw [if_pos (by decide), ← h.transfer]
    rfl
  refine forLoop_inv inv hstart fun i r _ hi hr ↦ ?_
  have hlt : i < 256 := by omega
  change r = _ at hr
  rw [if_pos hlt] at hr
  have hnext := IdeDrive.Reads.next (d := { s.drive with transfer := .toHost n i }) ⟨h.free, rfl⟩
  subst hr
  change wordIn off i _ = _
  rw [wordIn, dataIn, hnext, ← copyCells_word, Nat.zero_add]

theorem wordsOut {n : Nat} {block : Bytes} (h : s.drive.Writes n 0 block) (buffer : Bytes) (off : Nat) :
    forLoop (wordOut buffer off) 256 0 s =
      { s with
        drive :=
          { s.drive.start with
            contents := Function.update s.drive.contents n (copyCells block 0 buffer off 512)
            transfer := .none } } := by
  let inv (i : Nat) (r : AtaBus) : Prop :=
    r = { s with drive := { s.drive with transfer := .toDrive n i (copyCells block 0 buffer off (2 * i)) } }
  have hstart : inv 0 s := by
    change _ = _
    rw [show copyCells block 0 buffer off (2 * 0) = block from rfl, ← h.transfer]
  have hturn (i : Nat) : wordOut buffer off i
      { s with drive := { s.drive with transfer := .toDrive n i (copyCells block 0 buffer off (2 * i)) } } =
      if i + 1 < 256 then
        { s with
          drive :=
            { s.drive with transfer := .toDrive n (i + 1) (copyCells block 0 buffer off (2 * (i + 1))) } }
      else
        { s with
          drive :=
            { s.drive.start with
              contents := Function.update s.drive.contents n (copyCells block 0 buffer off (2 * (i + 1)))
              transfer := .none } } := by
    have hnext := IdeDrive.Writes.next
      (d := { s.drive with transfer := .toDrive n i (copyCells block 0 buffer off (2 * i)) })
      ⟨h.free, rfl⟩ (read16 buffer (off + 2 * i))
    have hword := copyCells_word block buffer 0 off i
    rw [Nat.zero_add] at hword
    rw [wordOut, dataOut, hnext, hword]
    split <;> rfl
  have hmost : inv (0 + 255) (forLoop (wordOut buffer off) 255 0 s) := by
    refine forLoop_inv inv hstart fun i r _ hi hr ↦ ?_
    rw [hr]
    exact (hturn i).trans (if_pos (by omega))
  rw [forLoop_succ_last, hmost]
  exact (hturn 255).trans (if_neg (by decide))

/-! ## One sector -/

/-- The drive waits for a command, and its sectors are those of the disk. -/
structure Serves (s : AtaBus) (disk : Disk) : Prop where
  idle : s.drive.transfer = .none
  contents : s.drive.contents = disk.sector

/-- What calls never change: the drive's size and its delays, and the log. -/
structure Keeps (s t : AtaBus) : Prop where
  sectors : t.drive.sectors = s.drive.sectors
  pace : t.drive.pace = s.drive.pace
  messages : t.messages = s.messages

theorem Keeps.refl (s : AtaBus) : s.Keeps s := ⟨rfl, rfl, rfl⟩

theorem Keeps.trans {t u : AtaBus} (h : s.Keeps t) (h' : t.Keeps u) : s.Keeps u :=
  ⟨h'.sectors.trans h.sectors, h'.pace.trans h.pace, h'.messages.trans h.messages⟩

theorem command_eq_flush {d : IdeDrive} (h : d.transfer = .none) :
    d.command ATA_CMD_CACHE_FLUSH = { d.start with stable := d.contents, failed := false } := by
  rw [IdeDrive.command, h]
  rfl

theorem command_eq_read {d : IdeDrive} (h : d.transfer = .none) (haddressed : d.Addressed) :
    d.command ATA_CMD_READ_PIO =
      if d.lba < d.sectors then { d.start with transfer := .toHost d.lba 0, failed := false }
      else { d.start with failed := true } := by
  rw [IdeDrive.command, h]
  dsimp only
  rw [if_neg (by decide), if_pos ⟨haddressed, rfl⟩]

theorem command_eq_write {d : IdeDrive} (h : d.transfer = .none) (haddressed : d.Addressed) :
    d.command ATA_CMD_WRITE_PIO =
      if d.lba < d.sectors then
        { d.start with transfer := .toDrive d.lba 0 (d.contents d.lba), failed := false }
      else { d.start with failed := true } := by
  rw [IdeDrive.command, h]
  dsimp only
  rw [if_neg (by decide), if_neg (fun hcmd ↦ absurd hcmd.2 (by decide)), if_pos ⟨haddressed, rfl⟩]

/-- The drive when it has taken the command to read sector `n`, and when it is ready to give it. -/
def reading (d : IdeDrive) (lba : u32) (busy : Nat) : IdeDrive :=
  { selected d lba with
    busy
    tasks := d.tasks + 1
    transfer := .toHost (lba28 lba) 0
    failed := false }

def writing (d : IdeDrive) (lba : u32) (busy : Nat) : IdeDrive :=
  { selected d lba with
    busy
    tasks := d.tasks + 1
    transfer := .toDrive (lba28 lba) 0 (d.contents (lba28 lba))
    failed := false }

variable {disk : Disk} {lba : u32}

theorem selected_sectors (hlba : lba28 lba < s.drive.sectors) :
    lba28 lba < (selected s.settled.drive lba).sectors := hlba

theorem command_read (h : s.Serves disk) (hlba : lba28 lba < s.drive.sectors) :
    s.settled.command lba ATA_CMD_READ_PIO =
      { s with drive := reading s.drive lba (s.drive.pace s.drive.tasks) } := by
  have hcommand := command_eq_read (d := selected s.settled.drive lba) h.idle (selected_addressed _ _)
  rw [command_eq rfl, hcommand, selected_lba, if_pos (selected_sectors hlba)]
  rfl

theorem command_write (h : s.Serves disk) (hlba : lba28 lba < s.drive.sectors) :
    s.settled.command lba ATA_CMD_WRITE_PIO =
      { s with drive := writing s.drive lba (s.drive.pace s.drive.tasks) } := by
  have hcommand := command_eq_write (d := selected s.settled.drive lba) h.idle (selected_addressed _ _)
  rw [command_eq rfl, hcommand, selected_lba, if_pos (selected_sectors hlba)]
  rfl

/-- `ata_read_sector` returns, with the sector in the buffer. -/
theorem ataReadSector_returns (h : s.Serves disk) (hlba : lba28 lba < s.drive.sectors) (buffer : Bytes)
    (off : Nat) : ∃ t, Returns (fun k ↦ s.ataReadSector k lba buffer off)
        (t, Drivers.ataReadSector disk lba buffer off) ∧
      t.Serves disk ∧ s.Keeps t ∧ t.drive.stable = s.drive.stable := by
  let r : AtaBus := { s with drive := reading s.drive lba 0 }
  have hwords := wordsIn (s := r) (n := lba28 lba) ⟨rfl, rfl⟩ buffer off
  have hdrq := ataWaitDrq_returns (s := s.settled.command lba ATA_CMD_READ_PIO)
    (by rw [command_read h hlba]; rfl)
  rw [show (s.settled.command lba ATA_CMD_READ_PIO).settled = r by rw [command_read h hlba]; rfl] at hdrq
  refine ⟨ioWait { r with drive := { r.drive with transfer := .none } },
    (ataWaitBsy_returns s).bind (hdrq.bind ?_), ?_, ?_, ?_⟩
  · have hcheck : r.ataCheckError = (false, r) := ataCheckError_settled (s := r) rfl
    have hcontents : r.drive.contents (lba28 lba) = disk.sector (lba28 lba) := by rw [← h.contents]; rfl
    refine (Returns.pure _).congr fun k ↦ ?_
    dsimp only
    rw [hcheck]
    dsimp only
    rw [if_neg Bool.false_ne_true, hwords, Drivers.ataReadSector, hcontents]
  · rw [ioWait_eq]
    exact ⟨rfl, h.contents⟩
  · rw [ioWait_eq]
    exact ⟨rfl, rfl, rfl⟩
  · rw [ioWait_eq]
    rfl

/-- `ata_write_sector` returns, with the sector in the cache.  The command to flush it comes while the
drive still is at the words, unless these take it no longer than the four looks of `io_wait`. -/
theorem ataWriteSector_returns (h : s.Serves disk) (hlba : lba28 lba < s.drive.sectors) (buffer : Bytes)
    (off : Nat) : ∃ t, Returns (fun k ↦ s.ataWriteSector k lba buffer off) t ∧
      t.Serves (Drivers.ataWriteSector disk lba buffer off) ∧ s.Keeps t ∧
      t.drive.stable =
        if s.drive.pace (s.drive.tasks + 1) ≤ 4 then t.drive.contents else s.drive.stable := by
  let r : AtaBus := { s with drive := writing s.drive lba 0 }
  let contents := Function.update s.drive.contents (lba28 lba)
    (copyCells (s.drive.contents (lba28 lba)) 0 buffer off 512)
  let u : AtaBus :=
    { r with
      drive :=
        { r.drive with
          contents
          transfer := .none
          busy := s.drive.pace (s.drive.tasks + 1) - 4
          tasks := s.drive.tasks + 2 } }
  have hwords : (forLoop (wordOut buffer off) 256 0 r).ioWait = u := by
    rw [wordsOut (s := r) (n := lba28 lba) ⟨rfl, rfl⟩ buffer off, ioWait_eq]
    rfl
  have hdrq := ataWaitDrq_returns (s := s.settled.command lba ATA_CMD_WRITE_PIO)
    (by rw [command_write h hlba]; rfl)
  rw [show (s.settled.command lba ATA_CMD_WRITE_PIO).settled = r by rw [command_write h hlba]; rfl] at hdrq
  have hcontents : contents = (Drivers.ataWriteSector disk lba buffer off).sector := by
    rw [Drivers.ataWriteSector, ← h.contents]
  -- the rest of the call, from the command to flush on
  have hrest (v : AtaBus) (hv : v.drive.failed = false) :
      Returns (fun k ↦ (ataWaitBsy k v).bind fun s ↦
        if s.ataCheckError.1 = true then some (s.ataCheckError.2.prErr (.errorWriting lba))
        else some s.ataCheckError.2) v.settled := by
    refine (ataWaitBsy_returns v).bind ((Returns.pure v.settled).congr fun k ↦ ?_)
    rw [ataCheckError_settled hv, if_neg Bool.false_ne_true]
  have hcall (v : AtaBus) (hflush : u.portByteOut ATA_REG_COMMAND ATA_CMD_CACHE_FLUSH = v)
      (hv : v.drive.failed = false) :
      Returns (fun k ↦ s.ataWriteSector k lba buffer off) v.settled := by
    refine (ataWaitBsy_returns s).bind (hdrq.bind ((hrest v hv).congr fun k ↦ ?_))
    dsimp only
    rw [hwords, hflush]
    rfl
  by_cases hpace : s.drive.pace (s.drive.tasks + 1) ≤ 4
  · have hfree : u.drive.busy = 0 := Nat.sub_eq_zero_of_le hpace
    have hflush : u.portByteOut ATA_REG_COMMAND ATA_CMD_CACHE_FLUSH =
        { u with drive := { u.drive.start with stable := contents, failed := false } } := by
      rw [portByteOut, IdeDrive.writeReg_command hfree, command_eq_flush rfl]
    refine ⟨_, hcall _ hflush rfl, ⟨rfl, hcontents⟩, ⟨rfl, rfl, rfl⟩, ?_⟩
    rw [if_pos hpace]
    rfl
  · have hbusy : u.drive.busy ≠ 0 := Nat.sub_ne_zero_of_lt (Nat.lt_of_not_le hpace)
    have hflush : u.portByteOut ATA_REG_COMMAND ATA_CMD_CACHE_FLUSH = u := by
      rw [portByteOut, IdeDrive.writeReg_busy hbusy]
    refine ⟨_, hcall _ hflush rfl, ⟨rfl, hcontents⟩, ⟨rfl, rfl, rfl⟩, ?_⟩
    rw [if_neg hpace]
    rfl

/-! ## Sectors that do not exist -/

theorem command_refused {cmd : u8} (h : s.Serves disk) (hlba : ¬ lba28 lba < s.drive.sectors)
    (hcmd : cmd = ATA_CMD_READ_PIO ∨ cmd = ATA_CMD_WRITE_PIO) :
    (s.settled.command lba cmd).drive.requests = false := by
  have hlba' : ¬ lba28 lba < (selected s.settled.drive lba).sectors := hlba
  have hidle : (selected s.settled.drive lba).requests = false := by
    rw [IdeDrive.requests, show (selected s.settled.drive lba).transfer = .none from h.idle]
  rw [command_eq rfl]
  rcases hcmd with rfl | rfl
  · rw [command_eq_read (d := selected s.settled.drive lba) h.idle (selected_addressed _ _),
      selected_lba, if_neg hlba']
    exact hidle
  · rw [command_eq_write (d := selected s.settled.drive lba) h.idle (selected_addressed _ _),
      selected_lba, if_neg hlba']
    exact hidle

-- The drive asks for no words, and the driver waits for it to ask.
theorem waits_never {cmd : u8} (h : s.Serves disk) (hlba : ¬ lba28 lba < s.drive.sectors)
    (hcmd : cmd = ATA_CMD_READ_PIO ∨ cmd = ATA_CMD_WRITE_PIO) {α : Type} (k : Nat)
    (f : AtaBus → Option α) :
    ((ataWaitBsy k s).bind fun s ↦ (ataWaitDrq k (s.command lba cmd)).bind f) = none := by
  rcases Nat.lt_or_ge s.drive.busy k with hk | hk
  · rw [ataWaitBsy_eq hk, Option.bind_some, ataWaitDrq_never (command_refused h hlba hcmd) k]
    rfl
  · rw [ataWaitBsy_early hk]
    rfl

theorem ataReadSector_never (h : s.Serves disk) (hlba : ¬ lba28 lba < s.drive.sectors) (buffer : Bytes)
    (off k : Nat) : s.ataReadSector k lba buffer off = none :=
  waits_never h hlba (Or.inl rfl) k _

theorem ataWriteSector_never (h : s.Serves disk) (hlba : ¬ lba28 lba < s.drive.sectors)
    (buffer : Bytes) (off k : Nat) : s.ataWriteSector k lba buffer off = none :=
  waits_never h hlba (Or.inr rfl) k _

/-! ## Runs of calls -/

/-- Calls on buffers in the kernel's memory. -/
inductive AtaRequest
  | read (lba : u32) (count : u8) (p : Nat)
  | write (lba : u32) (count : u8) (p : Nat)

/-- All the sectors exist. -/
def AtaRequest.InRange (sectors : Nat) : AtaRequest → Prop
  | .read lba count _ | .write lba count _ =>
      ∀ i < count.toNat, lba28 (lba + BitVec.ofNat 32 i) < sectors

/-- The driver on a request, with the kernel's memory. -/
def request (k : Nat) (r : AtaBus × Bytes) : AtaRequest → Option (AtaBus × Bytes)
  | .read lba count p => r.1.ataReadSectors k lba count r.2 p
  | .write lba count p => (r.1.ataWriteSectors k lba count r.2 p).bind fun s ↦ some (s, r.2)

/-- The same on a disk. -/
def onDisk (r : Disk × Bytes) : AtaRequest → Disk × Bytes
  | .read lba count p =>
      (r.1, forLoop (fun i mem ↦
        Drivers.ataReadSector r.1 (lba + BitVec.ofNat 32 i) mem (p + i * 512)) count.toNat 0 r.2)
  | .write lba count p =>
      (forLoop (fun i disk ↦
        Drivers.ataWriteSector disk (lba + BitVec.ofNat 32 i) r.2 (p + i * 512)) count.toNat 0 r.1, r.2)

-- A turn of the loop of `ata_read_sectors` or `ata_write_sectors`.
theorem readTurn_returns {r : AtaBus × Bytes} (h : r.1.Serves disk)
    (hlba : lba28 lba < r.1.drive.sectors) (off : Nat) :
    ∃ r', Returns (fun k ↦ r.1.ataReadSector k lba r.2 off) r' ∧ r'.1.Serves disk ∧
      r.1.Keeps r'.1 ∧ r'.2 = Drivers.ataReadSector disk lba r.2 off := by
  obtain ⟨t, hreturns, hserves, hkeeps, -⟩ := ataReadSector_returns h hlba r.2 off
  exact ⟨_, hreturns, hserves, hkeeps, rfl⟩

theorem ataReadSectors_returns (h : s.Serves disk) (mem : Bytes) {count : u8} (p : Nat)
    (hin : ∀ i < count.toNat, lba28 (lba + BitVec.ofNat 32 i) < s.drive.sectors) :
    ∃ r, Returns (fun k ↦ s.ataReadSectors k lba count mem p) r ∧ r.1.Serves disk ∧ s.Keeps r.1 ∧
      r.2 = forLoop (fun i mem ↦
        Drivers.ataReadSector disk (lba + BitVec.ofNat 32 i) mem (p + i * 512)) count.toNat 0 mem := by
  let inv (i : Nat) (r : AtaBus × Bytes) : Prop := r.1.Serves disk ∧ s.Keeps r.1 ∧
    r.2 = forLoop (fun i mem ↦
      Drivers.ataReadSector disk (lba + BitVec.ofNat 32 i) mem (p + i * 512)) i 0 mem
  obtain ⟨r, hreturns, hserves, hkeeps, hmem⟩ := Returns.forAbort
    (fun k i r ↦ r.1.ataReadSector k (lba + BitVec.ofNat 32 i) r.2 (p + i * 512)) inv
    count.toNat 0 (show inv 0 (s, mem) from ⟨h, .refl s, rfl⟩) fun i r _ hi hr ↦ by
      obtain ⟨hserves, hkeeps, hmem⟩ := hr
      obtain ⟨r', hreturns, hserves', hkeeps', hmem'⟩ := readTurn_returns hserves
        (hkeeps.sectors ▸ hin i (by omega)) (p + i * 512)
      refine ⟨r', hreturns, hserves', hkeeps.trans hkeeps', ?_⟩
      rw [hmem', hmem, forLoop_succ_last, Nat.zero_add]
  rw [Nat.zero_add] at hmem
  exact ⟨r, hreturns, hserves, hkeeps, hmem⟩

theorem ataWriteSectors_returns (h : s.Serves disk) (buffer : Bytes) {count : u8} (p : Nat)
    (hin : ∀ i < count.toNat, lba28 (lba + BitVec.ofNat 32 i) < s.drive.sectors) :
    ∃ t, Returns (fun k ↦ s.ataWriteSectors k lba count buffer p) t ∧ s.Keeps t ∧
      t.Serves (forLoop (fun i disk ↦
        Drivers.ataWriteSector disk (lba + BitVec.ofNat 32 i) buffer (p + i * 512)) count.toNat 0 disk) := by
  let inv (i : Nat) (t : AtaBus) : Prop := s.Keeps t ∧
    t.Serves (forLoop (fun i disk ↦
      Drivers.ataWriteSector disk (lba + BitVec.ofNat 32 i) buffer (p + i * 512)) i 0 disk)
  obtain ⟨t, hreturns, hkeeps, hserves⟩ := Returns.forAbort
    (fun k i s ↦ s.ataWriteSector k (lba + BitVec.ofNat 32 i) buffer (p + i * 512)) inv
    count.toNat 0 (show inv 0 s from ⟨.refl s, h⟩) fun i t _ hi ht ↦ by
      obtain ⟨hkeeps, hserves⟩ := ht
      obtain ⟨t', hreturns, hserves', hkeeps', -⟩ := ataWriteSector_returns hserves
        (hkeeps.sectors ▸ hin i (by omega)) buffer (p + i * 512)
      refine ⟨t', hreturns, hkeeps.trans hkeeps', ?_⟩
      rw [forLoop_succ_last, Nat.zero_add]
      exact hserves'
  rw [Nat.zero_add] at hserves
  exact ⟨t, hreturns, hkeeps, hserves⟩

theorem request_returns (h : s.Serves disk) (mem : Bytes) {q : AtaRequest}
    (hq : q.InRange s.drive.sectors) : ∃ t, Returns (fun k ↦ request k (s, mem) q)
        (t, (onDisk (disk, mem) q).2) ∧ t.Serves (onDisk (disk, mem) q).1 ∧ s.Keeps t := by
  cases q with
  | read lba count p =>
    obtain ⟨⟨t, mem'⟩, hreturns, hserves, hkeeps, hmem⟩ := ataReadSectors_returns h mem p hq
    obtain rfl : mem' = _ := hmem
    exact ⟨t, hreturns, hserves, hkeeps⟩
  | write lba count p =>
    obtain ⟨t, hreturns, hkeeps, hserves⟩ := ataWriteSectors_returns h mem p hq
    exact ⟨t, hreturns.bind (.pure _), hserves, hkeeps⟩

theorem ataReadSectors_never (h : s.Serves disk) (mem : Bytes) {count : u8} (p : Nat)
    (hout : ∃ i < count.toNat, ¬ lba28 (lba + BitVec.ofNat 32 i) < s.drive.sectors) :
    Never fun k ↦ s.ataReadSectors k lba count mem p := by
  obtain ⟨i, hi, hbad⟩ := hout
  refine Never.forAbort (fun k i (r : AtaBus × Bytes) ↦
      r.1.ataReadSector k (lba + BitVec.ofNat 32 i) r.2 (p + i * 512))
    (fun _ r ↦ r.1.Serves disk ∧ s.Keeps r.1)
    (fun i ↦ lba28 (lba + BitVec.ofNat 32 i) < s.drive.sectors) ⟨h, .refl s⟩ ?_ ?_
    ⟨i, Nat.zero_le i, by omega, hbad⟩
  · rintro i r ⟨hserves, hkeeps⟩ hok
    obtain ⟨r', hreturns, hserves', hkeeps', -⟩ :=
      readTurn_returns hserves (hkeeps.sectors ▸ hok) (p + i * 512)
    exact ⟨r', hreturns, hserves', hkeeps.trans hkeeps'⟩
  · rintro i r ⟨hserves, hkeeps⟩ hnot
    exact .of_none (ataReadSector_never hserves (hkeeps.sectors ▸ hnot) r.2 (p + i * 512))

theorem ataWriteSectors_never (h : s.Serves disk) (buffer : Bytes) {count : u8} (p : Nat)
    (hout : ∃ i < count.toNat, ¬ lba28 (lba + BitVec.ofNat 32 i) < s.drive.sectors) :
    Never fun k ↦ s.ataWriteSectors k lba count buffer p := by
  obtain ⟨i, hi, hbad⟩ := hout
  refine Never.forAbort (fun k i (s : AtaBus) ↦
      s.ataWriteSector k (lba + BitVec.ofNat 32 i) buffer (p + i * 512))
    (fun _ t ↦ (∃ disk, t.Serves disk) ∧ s.Keeps t)
    (fun i ↦ lba28 (lba + BitVec.ofNat 32 i) < s.drive.sectors) ⟨⟨disk, h⟩, .refl s⟩ ?_ ?_
    ⟨i, Nat.zero_le i, by omega, hbad⟩
  · rintro i t ⟨⟨disk, hserves⟩, hkeeps⟩ hok
    obtain ⟨t', hreturns, hserves', hkeeps', -⟩ :=
      ataWriteSector_returns hserves (hkeeps.sectors ▸ hok) buffer (p + i * 512)
    exact ⟨t', hreturns, ⟨_, hserves'⟩, hkeeps.trans hkeeps'⟩
  · rintro i t ⟨⟨disk, hserves⟩, hkeeps⟩ hnot
    exact .of_none (ataWriteSector_never hserves (hkeeps.sectors ▸ hnot) buffer (p + i * 512))

theorem request_never (h : s.Serves disk) (mem : Bytes) {q : AtaRequest}
    (hq : ¬ q.InRange s.drive.sectors) : Never fun k ↦ request k (s, mem) q := by
  cases q with
  | read lba count p =>
    exact ataReadSectors_never h mem p (by simpa [AtaRequest.InRange] using hq)
  | write lba count p =>
    exact .bind (ataWriteSectors_never h mem p (by simpa [AtaRequest.InRange] using hq))

/-- The driver on one request after the other. -/
def requests (k : Nat) : AtaBus × Bytes → List AtaRequest → Option (AtaBus × Bytes)
  | r, [] => some r
  | r, q :: qs => (request k r q).bind fun r ↦ requests k r qs

theorem requests_return (h : s.Serves disk) (mem : Bytes) {qs : List AtaRequest}
    (hqs : ∀ q ∈ qs, q.InRange s.drive.sectors) :
    ∃ t, Returns (fun k ↦ requests k (s, mem) qs) (t, (qs.foldl onDisk (disk, mem)).2) ∧
      t.Serves (qs.foldl onDisk (disk, mem)).1 ∧ s.Keeps t := by
  induction qs generalizing s disk mem with
  | nil => exact ⟨s, .pure _, h, .refl s⟩
  | cons q qs ih =>
    obtain ⟨t, hreturns, hserves, hkeeps⟩ := request_returns h mem (hqs q List.mem_cons_self)
    obtain ⟨u, hrest, hserves', hkeeps'⟩ := ih hserves (onDisk (disk, mem) q).2 fun q' hq' ↦
      hkeeps.sectors ▸ hqs q' (List.mem_cons_of_mem q hq')
    exact ⟨u, hreturns.bind hrest, hserves', hkeeps.trans hkeeps'⟩

theorem requests_never (h : s.Serves disk) (mem : Bytes) {qs : List AtaRequest} {q : AtaRequest}
    (hmem : q ∈ qs) (hq : ¬ q.InRange s.drive.sectors) : Never fun k ↦ requests k (s, mem) qs := by
  induction qs generalizing s disk mem with
  | nil => exact absurd hmem List.not_mem_nil
  | cons q' qs ih =>
    by_cases hq' : q'.InRange s.drive.sectors
    · obtain ⟨t, hreturns, hserves, hkeeps⟩ := request_returns h mem hq'
      have hlater : q ∈ qs := (List.mem_cons.mp hmem).resolve_left fun heq ↦ hq (heq ▸ hq')
      exact .of_returns hreturns (ih hserves _ hlater (hkeeps.sectors ▸ hq))
    · exact .bind (request_never h mem hq')

/-- However long the drive takes over each task, a run of calls returns exactly when all its sectors
exist; then it does to memory and sectors what it does on a `Disk`, and logs nothing. -/
theorem requests_refine (h : s.Serves disk) (mem : Bytes) (qs : List AtaRequest) :
    ((∃ r, Returns (fun k ↦ requests k (s, mem) qs) r) ↔ ∀ q ∈ qs, q.InRange s.drive.sectors) ∧
      ∀ r, Returns (fun k ↦ requests k (s, mem) qs) r →
        r.2 = (qs.foldl onDisk (disk, mem)).2 ∧
          r.1.drive.contents = (qs.foldl onDisk (disk, mem)).1.sector ∧ r.1.messages = s.messages := by
  have hiff : (∃ r, Returns (fun k ↦ requests k (s, mem) qs) r) ↔
      ∀ q ∈ qs, q.InRange s.drive.sectors := by
    constructor
    · intro hreturns q hmem
      by_contra hq
      exact (requests_never h mem hmem hq).not_returns hreturns
    · intro hqs
      obtain ⟨t, hreturns, -⟩ := requests_return h mem hqs
      exact ⟨_, hreturns⟩
  refine ⟨hiff, fun r hr ↦ ?_⟩
  obtain ⟨t, hreturns, hserves, hkeeps⟩ := requests_return h mem (hiff.mp ⟨r, hr⟩)
  obtain rfl := hr.unique hreturns
  exact ⟨rfl, hserves.contents, hkeeps.messages⟩

/-- Every task but the first takes longer than the one before. -/
def slowDrive : IdeDrive where
  sectors := 4194304
  contents := fun _ _ ↦ 0
  stable := fun _ _ ↦ 0
  count := 0
  lbaLow := 0
  lbaMid := 0
  lbaHigh := 0
  head := 0
  transfer := .none
  failed := false
  busy := 7
  pace := fun k ↦ 100 * k
  tasks := 0

theorem requests_refine_slowDrive : ∃ r,
    Returns (fun k ↦ requests k (⟨slowDrive, []⟩, fun i ↦ BitVec.ofNat 8 i)
      [.write 112 2 0, .read 112 2 4096]) r ∧ r.1.messages = [] := by
  obtain ⟨hiff, hresult⟩ := requests_refine
    (show AtaBus.Serves ⟨slowDrive, []⟩ ⟨fun _ _ ↦ 0⟩ from ⟨rfl, rfl⟩)
    (fun i ↦ BitVec.ofNat 8 i) [.write 112 2 0, .read 112 2 4096]
  have hin (q : AtaRequest) (hq : q ∈ [AtaRequest.write 112 2 0, .read 112 2 4096]) :
      q.InRange slowDrive.sectors := by
    simp only [List.mem_cons, List.not_mem_nil, or_false] at hq
    rcases hq with rfl | rfl <;> (intro i hi; revert i; decide)
  obtain ⟨r, hr⟩ := hiff.mpr hin
  exact ⟨r, hr, (hresult r hr).2.2⟩

/-! ## Round trips -/

end AtaBus

end TenOs.Drivers
