import TenOs.Drivers.Ata

/-!
# `drivers/ata.c`: polling

One sector read or written by a drive that answers any values: the accesses to its ports, in order,
and the polls of its status register.  A result `none` is a call that has not returned after so many
polls in one of its loops.
-/

namespace TenOs.Drivers

open TenOs.Base TenOs.Lib

abbrev ATA_SR_BSY : u8 := 0x80
abbrev ATA_SR_DF : u8 := 0x20
abbrev ATA_SR_DRQ : u8 := 0x08
abbrev ATA_SR_ERR : u8 := 0x01

abbrev ATA_CMD_READ_PIO : u8 := 0x20
abbrev ATA_CMD_WRITE_PIO : u8 := 0x30
abbrev ATA_CMD_CACHE_FLUSH : u8 := 0xE7

abbrev ATA_REG_SECCOUNT : Nat := 2
abbrev ATA_REG_LBA_LOW : Nat := 3
abbrev ATA_REG_LBA_MID : Nat := 4
abbrev ATA_REG_LBA_HIGH : Nat := 5
abbrev ATA_REG_DRIVE_HEAD : Nat := 6
abbrev ATA_REG_COMMAND : Nat := 7

abbrev ATA_DRIVE_MASTER : u8 := 0xE0

/-- What a drive answers: the status register at each of its reads, the error register after so many
of them, and the words of the data register. -/
structure AtaDrive where
  status : Nat → u8
  error : Nat → u8
  data : Nat → u16

/-- The lines that the driver logs. -/
inductive AtaMessage where
  | ataError (error : u8)
  | driveFault
  | errorReading (lba : u32)
  | errorWriting (lba : u32)
  deriving DecidableEq

inductive AtaEvent where
  | statusIn
  | errorIn
  | controlIn
  | byteOut (reg : Nat) (value : u8)
  | wordIn
  | wordOut (value : u16)
  | prErr (message : AtaMessage)
  deriving DecidableEq

/-- A call so far: how often it has read the status register, and all that it has done. -/
structure AtaCall where
  polls : Nat
  events : List AtaEvent

namespace AtaCall

def log (s : AtaCall) (events : List AtaEvent) : AtaCall := { s with events := s.events ++ events }

/-- `do { status = …; } while (again(status))` -/
def poll (drive : AtaDrive) (again : u8 → Bool) (k : Nat) (s : AtaCall) : Option AtaCall :=
  (firstFrom (fun t ↦ if again (drive.status t) then none else some (t + 1)) k s.polls).map
    fun t ↦ ⟨t, s.events ++ List.replicate (t - s.polls) .statusIn⟩

def ataWaitBsy (drive : AtaDrive) : (k : Nat) → AtaCall → Option AtaCall :=
  poll drive fun status ↦ status &&& ATA_SR_BSY ≠ 0

def ataWaitDrq (drive : AtaDrive) : (k : Nat) → AtaCall → Option AtaCall :=
  poll drive fun status ↦ status &&& ATA_SR_DRQ = 0

def ataCheckError (drive : AtaDrive) (s : AtaCall) : Bool × AtaCall :=
  let status := drive.status s.polls
  let s := { polls := s.polls + 1, events := s.events ++ [.statusIn] }
  if status &&& ATA_SR_ERR ≠ 0 then
    (true, log s [.errorIn, .prErr (.ataError (drive.error s.polls))])
  else if status &&& ATA_SR_DF ≠ 0 then (true, log s [.prErr .driveFault])
  else (false, s)

/-- `io_wait` -/
def ioWait (s : AtaCall) : AtaCall := s.log (List.replicate 4 .controlIn)

/-- The registers that select the sector, and the command. -/
def command (lba : u32) (cmd : u8) (s : AtaCall) : AtaCall :=
  s.log
    [.byteOut ATA_REG_DRIVE_HEAD
        (ATA_DRIVE_MASTER ||| 0x40 ||| ((lba >>> 24) &&& 0x0F).setWidth 8),
      .byteOut ATA_REG_SECCOUNT 1,
      .byteOut ATA_REG_LBA_LOW ((lba &&& 0xFF).setWidth 8),
      .byteOut ATA_REG_LBA_MID (((lba >>> 8) &&& 0xFF).setWidth 8),
      .byteOut ATA_REG_LBA_HIGH (((lba >>> 16) &&& 0xFF).setWidth 8),
      .byteOut ATA_REG_COMMAND cmd]

end AtaCall

/-- `buf16[i] = word` -/
def storeWord (buffer : Bytes) (i : Nat) (word : u16) : Bytes :=
  Function.update (Function.update buffer (2 * i) (word.setWidth 8)) (2 * i + 1)
    ((word >>> 8).setWidth 8)

/-- `buf16[i]` -/
def loadWord (buffer : Bytes) (i : Nat) : u16 :=
  (buffer (2 * i)).setWidth 16 ||| ((buffer (2 * i + 1)).setWidth 16 <<< 8)

namespace AtaDrive

open AtaCall

/-- The 256 words of the data register, stored in the buffer. -/
def receiveWords (drive : AtaDrive) (buffer : Bytes) : Bytes :=
  forLoop (fun i buffer ↦ storeWord buffer i (drive.data i)) 256 0 buffer

/-- `ata_read_sector`, with the buffer that it leaves. -/
def ataReadSector (drive : AtaDrive) (k : Nat) (lba : u32) (buffer : Bytes) :
    Option (AtaCall × Bytes) := do
  let s ← ataWaitBsy drive k ⟨0, []⟩
  let s ← ataWaitDrq drive k (command lba ATA_CMD_READ_PIO s)
  let (failed, s) := ataCheckError drive s
  if failed then some (s.log [.prErr (.errorReading lba)], buffer)
  else some (ioWait (s.log (List.replicate 256 .wordIn)), drive.receiveWords buffer)

/-- The words of a sector go out, and the drive is told to flush its cache. -/
def sendWords (buffer : Bytes) (s : AtaCall) : AtaCall :=
  (ioWait (s.log ((List.range 256).map fun i ↦ .wordOut (loadWord buffer i)))).log
    [.byteOut ATA_REG_COMMAND ATA_CMD_CACHE_FLUSH]

/-- `ata_write_sector`: the words go out before the only look at the error bits. -/
def ataWriteSector (drive : AtaDrive) (k : Nat) (lba : u32) (buffer : Bytes) : Option AtaCall := do
  let s ← ataWaitBsy drive k ⟨0, []⟩
  let s ← ataWaitDrq drive k (command lba ATA_CMD_WRITE_PIO s)
  let s ← ataWaitBsy drive k (sendWords buffer s)
  let (failed, s) := ataCheckError drive s
  if failed then some (s.log [.prErr (.errorWriting lba)]) else some s

end AtaDrive

/-! ## Failing drives -/

/-- The drive is not busy at the poll `t`. -/
def AtaDrive.Free (drive : AtaDrive) (t : Nat) : Prop := drive.status t &&& ATA_SR_BSY = 0

/-- The drive asks for the words at the poll `t`. -/
def AtaDrive.Requests (drive : AtaDrive) (t : Nat) : Prop := drive.status t &&& ATA_SR_DRQ ≠ 0

/-- From the poll `t` on the drive has failed the command. -/
def AtaDrive.FailsFrom (drive : AtaDrive) (t : Nat) : Prop :=
  ∀ u, t ≤ u → drive.Free u ∧
    (drive.status u &&& ATA_SR_ERR ≠ 0 ∨ drive.status u &&& ATA_SR_DF ≠ 0)

def AtaEvent.isWord : AtaEvent → Bool
  | .wordIn | .wordOut _ => true
  | _ => false

def AtaCall.NoWords (s : AtaCall) : Prop := ∀ e ∈ s.events, e.isWord = false

/-- The call has gone through its error branch, and no word was transferred. -/
structure AtaCall.Reports (s : AtaCall) (message : AtaMessage) : Prop where
  error : .prErr message ∈ s.events
  noWords : s.NoWords

/-! ## One loop -/

namespace AtaCall

variable {drive : AtaDrive} {again : u8 → Bool} {k : Nat} {s s' : AtaCall}

-- A loop ends at the first value that it does not wait for.
theorem poll_spec (h : poll drive again k s = some s') :
    ∃ i, s.polls ≤ i ∧ again (drive.status i) = false ∧
      (∀ j, s.polls ≤ j → j < i → again (drive.status j) = true) ∧
      s' = ⟨i + 1, s.events ++ List.replicate (i + 1 - s.polls) .statusIn⟩ := by
  obtain ⟨u, hu, rfl⟩ := Option.map_eq_some_iff.mp h
  obtain ⟨i, hi, -, hstop, hgo⟩ := (firstFrom_eq_some_iff _ _ _ _).mp hu
  by_cases hagain : again (drive.status i) = true
  · rw [if_pos hagain] at hstop
    cases hstop
  · rw [if_neg hagain, Option.some.injEq] at hstop
    refine ⟨i, hi, Bool.eq_false_of_not_eq_true hagain, fun j hj hlt ↦ ?_, by rw [hstop]⟩
    by_contra hstays
    have hnone := hgo j hj hlt
    rw [if_neg hstays] at hnone
    cases hnone

-- It has ended by any such value.
theorem poll_ends {i : Nat} (hi : s.polls ≤ i) (hstop : again (drive.status i) = false)
    (hk : i < k) : ∃ s', poll drive again k s = some s' ∧ s'.polls ≤ i + 1 := by
  cases hpoll : poll drive again k s with
  | none =>
    have hall := (firstFrom_eq_none_iff _ _ _).mp (Option.map_eq_none_iff.mp hpoll) i hi (by omega)
    rw [hstop] at hall
    cases hall
  | some s' =>
    obtain ⟨u, -, -, hgo, rfl⟩ := poll_spec hpoll
    refine ⟨_, rfl, ?_⟩
    by_contra hlate
    have hstays := hgo i hi (by change ¬ u + 1 ≤ i + 1 at hlate; omega)
    rw [hstop] at hstays
    cases hstays

theorem ataWaitBsy_ends {i : Nat} (hi : s.polls ≤ i) (hfree : drive.Free i) (hk : i < k) :
    ∃ s', ataWaitBsy drive k s = some s' ∧ s'.polls ≤ i + 1 :=
  poll_ends hi (decide_eq_false_iff_not.mpr (not_not.mpr hfree)) hk

theorem ataWaitDrq_ends {i : Nat} (hi : s.polls ≤ i) (hdrq : drive.Requests i) (hk : i < k) :
    ∃ s', ataWaitDrq drive k s = some s' ∧ s'.polls ≤ i + 1 :=
  poll_ends hi (decide_eq_false_iff_not.mpr hdrq) hk

theorem NoWords.log {events : List AtaEvent} (h : s.NoWords)
    (hevents : ∀ e ∈ events, e.isWord = false) : (s.log events).NoWords := by
  intro e he
  rcases List.mem_append.mp he with he | he
  · exact h e he
  · exact hevents e he

theorem NoWords.poll (h : s.NoWords) (hpoll : poll drive again k s = some s') : s'.NoWords := by
  obtain ⟨i, -, -, -, rfl⟩ := poll_spec hpoll
  refine NoWords.log (s := ⟨i + 1, s.events⟩) h fun e he ↦ ?_
  rw [List.eq_of_mem_replicate he]
  rfl

theorem NoWords.command (h : s.NoWords) (lba : u32) (cmd : u8) : (command lba cmd s).NoWords := by
  refine h.log fun e he ↦ ?_
  simp only [List.mem_cons, List.not_mem_nil, or_false] at he
  rcases he with rfl | rfl | rfl | rfl | rfl | rfl <;> rfl

theorem NoWords.ataCheckError (h : s.NoWords) : (ataCheckError drive s).2.NoWords := by
  have hstatus : NoWords ⟨s.polls + 1, s.events ++ [.statusIn]⟩ :=
    NoWords.log (s := ⟨s.polls + 1, s.events⟩) h fun e he ↦ by rw [List.mem_singleton.mp he]; rfl
  unfold AtaCall.ataCheckError
  dsimp only
  split
  · refine hstatus.log fun e he ↦ ?_
    simp only [List.mem_cons, List.not_mem_nil, or_false] at he
    rcases he with rfl | rfl <;> rfl
  · split
    · refine hstatus.log fun e he ↦ ?_
      rw [List.mem_singleton.mp he]
      rfl
    · exact hstatus

theorem ataCheckError_polls (drive : AtaDrive) (s : AtaCall) :
    (ataCheckError drive s).2.polls = s.polls + 1 := by
  unfold ataCheckError
  dsimp only
  split
  · rfl
  · split <;> rfl

theorem ataCheckError_of_fails {t : Nat} (h : drive.FailsFrom t) (ht : t ≤ s.polls) :
    (ataCheckError drive s).1 = true := by
  unfold ataCheckError
  dsimp only
  split
  · rfl
  · next herr =>
    rw [if_pos ((h s.polls ht).2.resolve_left herr)]

theorem mem_poll {e : AtaEvent} (he : e ∈ s.events) (h : poll drive again k s = some s') :
    e ∈ s'.events := by
  obtain ⟨i, -, -, -, rfl⟩ := poll_spec h
  exact List.mem_append_left _ he

theorem mem_ataCheckError (drive : AtaDrive) {e : AtaEvent} (he : e ∈ s.events) :
    e ∈ (ataCheckError drive s).2.events := by
  have hstatus : e ∈ s.events ++ [.statusIn] := List.mem_append_left _ he
  unfold ataCheckError
  dsimp only
  split
  · exact List.mem_append_left _ hstatus
  · split
    · exact List.mem_append_left _ hstatus
    · exact hstatus

end AtaCall

/-! ## Reading and writing a sector -/

namespace AtaDrive

open AtaCall

variable {drive : AtaDrive} {T k : Nat} {lba : u32} {buffer : Bytes}

/-- What the driver waits for before the words: a poll that is not busy, and a later one that asks
for them. -/
theorem waits_spec {cmd : u8} {s₁ s₂ : AtaCall} (h₁ : ataWaitBsy drive k ⟨0, []⟩ = some s₁)
    (h₂ : ataWaitDrq drive k (command lba cmd s₁) = some s₂) :
    ∃ i j, i < j ∧ drive.Free i ∧ drive.Requests j ∧ s₂.polls = j + 1 ∧ s₂.NoWords := by
  have hnone : NoWords ⟨0, []⟩ := fun e he ↦ absurd he List.not_mem_nil
  have hwords : s₂.NoWords := ((hnone.poll h₁).command lba cmd).poll h₂
  obtain ⟨i, -, hfree, -, rfl⟩ := poll_spec h₁
  obtain ⟨j, hij, hdrq, -, rfl⟩ := poll_spec h₂
  exact ⟨i, j, hij, not_not.mp (decide_eq_false_iff_not.mp hfree),
    decide_eq_false_iff_not.mp hdrq, rfl, hwords⟩

theorem waits_end {i j : Nat} (hij : i < j) (hfree : drive.Free i) (hdrq : drive.Requests j)
    (hk : j < k) (lba : u32) (cmd : u8) :
    ∃ s₁ s₂, ataWaitBsy drive k ⟨0, []⟩ = some s₁ ∧
      ataWaitDrq drive k (command lba cmd s₁) = some s₂ ∧ s₂.polls ≤ j + 1 := by
  obtain ⟨s₁, h₁, hle₁⟩ := ataWaitBsy_ends (s := ⟨0, []⟩) (Nat.zero_le i) hfree (hij.trans hk)
  obtain ⟨s₂, h₂, hle₂⟩ := ataWaitDrq_ends (s := command lba cmd s₁) (hle₁.trans hij) hdrq hk
  exact ⟨s₁, s₂, h₁, h₂, hle₂⟩

/-- `ata_read_sector` returns, and reports a failure that it has seen. -/
def ReadReported (drive : AtaDrive) (T : Nat) (lba : u32) (buffer : Bytes) : Prop :=
  ∃ k r, ataReadSector drive k lba buffer = some r ∧
    (T < r.1.polls → r.1.Reports (.errorReading lba))

/-- `ata_write_sector` returns, and reports a failure that it has seen, also one that shows only
behind the words. -/
def WriteReported (drive : AtaDrive) (T : Nat) (lba : u32) (buffer : Bytes) : Prop :=
  ∃ k s, ataWriteSector drive k lba buffer = some s ∧ (T < s.polls → s.Reports (.errorWriting lba))

theorem ataReadSector_eq_some_iff {r : AtaCall × Bytes} :
    ataReadSector drive k lba buffer = some r ↔ ∃ s₁ s₂, ataWaitBsy drive k ⟨0, []⟩ = some s₁ ∧
      ataWaitDrq drive k (command lba ATA_CMD_READ_PIO s₁) = some s₂ ∧
      r = if (ataCheckError drive s₂).1 then
        ((ataCheckError drive s₂).2.log [.prErr (.errorReading lba)], buffer)
      else (ioWait ((ataCheckError drive s₂).2.log (List.replicate 256 .wordIn)),
        drive.receiveWords buffer) := by
  unfold ataReadSector
  simp only [Option.bind_eq_bind, Option.bind_eq_some_iff]
  constructor
  · rintro ⟨s₁, h₁, s₂, h₂, h⟩
    refine ⟨s₁, s₂, h₁, h₂, ?_⟩
    split at h
    · next hfailed => rw [if_pos hfailed, Option.some.inj h]
    · next hfailed => rw [if_neg hfailed, Option.some.inj h]
  · rintro ⟨s₁, s₂, h₁, h₂, rfl⟩
    refine ⟨s₁, h₁, s₂, h₂, ?_⟩
    split <;> rfl

theorem ataReadSector_returns {r : AtaCall × Bytes}
    (h : ataReadSector drive k lba buffer = some r) :
    ∃ i j, i < j ∧ drive.Free i ∧ drive.Requests j := by
  obtain ⟨s₁, s₂, h₁, h₂, -⟩ := ataReadSector_eq_some_iff.mp h
  obtain ⟨i, j, hij, hfree, hdrq, -⟩ := waits_spec h₁ h₂
  exact ⟨i, j, hij, hfree, hdrq⟩

/-- `ata_read_sector` handles a failing drive exactly when it returns at all. -/
theorem readReported_iff (hfail : drive.FailsFrom T) (lba : u32) (buffer : Bytes) :
    drive.ReadReported T lba buffer ↔ ∃ i j, i < j ∧ drive.Free i ∧ drive.Requests j := by
  constructor
  · rintro ⟨k, r, hr, -⟩
    exact ataReadSector_returns hr
  · rintro ⟨i, j, hij, hfree, hdrq⟩
    obtain ⟨s₁, s₂, h₁, h₂, -⟩ :=
      waits_end hij hfree hdrq (Nat.lt_succ_self j) lba ATA_CMD_READ_PIO
    obtain ⟨-, -, -, -, -, -, hwords⟩ := waits_spec h₁ h₂
    have hpolls := ataCheckError_polls drive s₂
    refine ⟨j + 1, _, ataReadSector_eq_some_iff.mpr ⟨s₁, s₂, h₁, h₂, rfl⟩, fun hseen ↦ ?_⟩
    by_cases hfailed : (ataCheckError drive s₂).1 = true
    · rw [if_pos hfailed]
      refine ⟨?_, hwords.ataCheckError.log fun e he ↦ ?_⟩
      · exact List.mem_append_right _ (List.mem_singleton.mpr rfl)
      · rw [List.mem_singleton.mp he]
        rfl
    · rw [if_neg hfailed] at hseen
      refine absurd (ataCheckError_of_fails hfail ?_) hfailed
      change T < (ataCheckError drive s₂).2.polls at hseen
      omega

theorem ataWriteSector_eq_some_iff {s : AtaCall} :
    ataWriteSector drive k lba buffer = some s ↔ ∃ s₁ s₂ s₃, ataWaitBsy drive k ⟨0, []⟩ = some s₁ ∧
      ataWaitDrq drive k (command lba ATA_CMD_WRITE_PIO s₁) = some s₂ ∧
      ataWaitBsy drive k (sendWords buffer s₂) = some s₃ ∧
      s = if (ataCheckError drive s₃).1 then
        (ataCheckError drive s₃).2.log [.prErr (.errorWriting lba)]
      else (ataCheckError drive s₃).2 := by
  unfold ataWriteSector
  simp only [Option.bind_eq_bind, Option.bind_eq_some_iff]
  constructor
  · rintro ⟨s₁, h₁, s₂, h₂, s₃, h₃, h⟩
    refine ⟨s₁, s₂, s₃, h₁, h₂, h₃, ?_⟩
    split at h
    · next hfailed => rw [if_pos hfailed, Option.some.inj h]
    · next hfailed => rw [if_neg hfailed, Option.some.inj h]
  · rintro ⟨s₁, s₂, s₃, h₁, h₂, h₃, rfl⟩
    refine ⟨s₁, h₁, s₂, h₂, s₃, h₃, ?_⟩
    split <;> rfl

/-- The words have gone out by the time of the only look at the error bits, so a failure must not
show in the call at all. -/
theorem writeReported_iff (hfail : drive.FailsFrom T) (lba : u32) (buffer : Bytes) :
    drive.WriteReported T lba buffer ↔ ∃ i j l, i < j ∧ j < l ∧ l + 1 < T ∧
      drive.Free i ∧ drive.Requests j ∧ drive.Free l := by
  constructor
  · rintro ⟨k, s, hs, hreports⟩
    obtain ⟨s₁, s₂, s₃, h₁, h₂, h₃, rfl⟩ := ataWriteSector_eq_some_iff.mp hs
    obtain ⟨i, j, hij, hfree, hdrq, hpolls₂, -⟩ := waits_spec h₁ h₂
    have hword : .wordOut (loadWord buffer 0) ∈ (sendWords buffer s₂).events := by
      refine List.mem_append_left _ (List.mem_append_left _ (List.mem_append_right _ ?_))
      exact List.mem_map.mpr ⟨0, List.mem_range.mpr (by decide), rfl⟩
    have hchecked := mem_ataCheckError drive (mem_poll hword h₃)
    have hpolls := ataCheckError_polls drive s₃
    obtain ⟨l, hjl, hfree', -, hs₃⟩ := poll_spec h₃
    have hlast : s₃.polls = l + 1 := congrArg AtaCall.polls hs₃
    change s₂.polls ≤ l at hjl
    refine ⟨i, j, l, hij, by omega, ?_, hfree, hdrq,
      not_not.mp (decide_eq_false_iff_not.mp hfree')⟩
    by_contra hseen
    have hfailed := ataCheckError_of_fails (s := s₃) hfail (by omega)
    rw [if_pos hfailed] at hreports
    have hreported := hreports (by change T < (ataCheckError drive s₃).2.polls; omega)
    have hnot := hreported.noWords _ (List.mem_append_left _ hchecked)
    cases hnot
  · rintro ⟨i, j, l, hij, hjl, hlate, hfree, hdrq, hfree'⟩
    obtain ⟨s₁, s₂, h₁, h₂, hle₂⟩ :=
      waits_end hij hfree hdrq (hjl.trans (Nat.lt_succ_self l)) lba ATA_CMD_WRITE_PIO
    obtain ⟨s₃, h₃, hle₃⟩ := ataWaitBsy_ends (s := sendWords buffer s₂) (hle₂.trans hjl) hfree'
      (Nat.lt_succ_self l)
    have hpolls := ataCheckError_polls drive s₃
    refine ⟨l + 1, _, ataWriteSector_eq_some_iff.mpr ⟨s₁, s₂, s₃, h₁, h₂, h₃, rfl⟩, fun hseen ↦ ?_⟩
    have hpolls' : (if (ataCheckError drive s₃).1 then
        (ataCheckError drive s₃).2.log [.prErr (.errorWriting lba)]
      else (ataCheckError drive s₃).2).polls = s₃.polls + 1 := by
      split <;> exact hpolls
    omega

/-- A drive that fails from the poll `T` on is handled by `ata_read_sector` when it asks for the
words nevertheless, and by `ata_write_sector` when the failure shows only behind the call. -/
theorem failureReported_iff (hfail : drive.FailsFrom T) (lba : u32) (buffer : Bytes) :
    (drive.ReadReported T lba buffer ↔ ∃ i j, i < j ∧ drive.Free i ∧ drive.Requests j) ∧
      (drive.WriteReported T lba buffer ↔ ∃ i j l, i < j ∧ j < l ∧ l + 1 < T ∧
        drive.Free i ∧ drive.Requests j ∧ drive.Free l) :=
  ⟨readReported_iff hfail lba buffer, writeReported_iff hfail lba buffer⟩

/-- Fails from the fifth poll on, and asks for words before. -/
def lateDrive : AtaDrive where
  status t := if t < 4 then 0x48 else 0x41
  error _ := 0x04
  data _ := 0

theorem failureReported_lateDrive : lateDrive.FailsFrom 4 ∧
    lateDrive.ReadReported 4 0 (fun _ ↦ 0) ∧ lateDrive.WriteReported 4 0 (fun _ ↦ 0) := by
  have hfail : lateDrive.FailsFrom 4 := by
    intro u hu
    have hstatus : lateDrive.status u = 0x41 := if_neg (by omega)
    rw [Free, hstatus]
    decide
  have hfree (t : Nat) (ht : t < 4) : lateDrive.Free t := by
    have hstatus : lateDrive.status t = 0x48 := if_pos ht
    rw [Free, hstatus]
    decide
  have hdrq : lateDrive.Requests 1 := by
    change (0x48 : u8) &&& ATA_SR_DRQ ≠ 0
    decide
  obtain ⟨hread, hwrite⟩ := failureReported_iff hfail 0 (fun _ ↦ 0)
  exact ⟨hfail, hread.mpr ⟨0, 1, by decide, hfree 0 (by decide), hdrq⟩,
    hwrite.mpr ⟨0, 1, 2, by decide, by decide, by decide, hfree 0 (by decide), hdrq,
      hfree 2 (by decide)⟩⟩

/-- A drive that has failed the command and never asks for the words. -/
def failedDrive : AtaDrive where
  status _ := 0x41
  error _ := 0x04
  data _ := 0

-- `ata_wait_drq` goes on for ever.
theorem not_failureReported_failedDrive : ¬ ∀ (drive : AtaDrive) T lba buffer, drive.FailsFrom T →
    drive.ReadReported T lba buffer ∧ drive.WriteReported T lba buffer := by
  intro h
  have hfail : failedDrive.FailsFrom 0 := by
    intro u _
    have hstatus : failedDrive.status u = 0x41 := rfl
    rw [Free, hstatus]
    decide
  obtain ⟨⟨k, r, hr, -⟩, -⟩ := h failedDrive 0 0 (fun _ ↦ 0) hfail
  obtain ⟨i, j, -, -, hdrq⟩ := ataReadSector_returns hr
  exact hdrq (by decide : (0x41 : u8) &&& ATA_SR_DRQ = 0)

/-! ## A drive without failures -/

theorem storeWord_loadWord (buffer sector : Bytes) (i : Nat) :
    storeWord buffer i (loadWord sector i) =
      Function.update (Function.update buffer (2 * i) (sector (2 * i))) (2 * i + 1)
        (sector (2 * i + 1)) := by
  have hlow : (loadWord sector i).setWidth 8 = sector (2 * i) := by
    unfold loadWord
    ext j hj
    simp
  have hhigh : (loadWord sector i >>> 8).setWidth 8 = sector (2 * i + 1) := by
    unfold loadWord
    ext j hj
    simp [hj, show 8 + j < 16 by omega]
  rw [storeWord, hlow, hhigh]

/-- The words of a sector, stored one after the other, are its bytes. -/
theorem receiveWords_eq {sector : Bytes} (hdata : ∀ i < 256, drive.data i = loadWord sector i) :
    drive.receiveWords buffer = copyCells buffer 0 sector 0 512 := by
  let inv (i : Nat) (b : Bytes) : Prop := b = copyCells buffer 0 sector 0 (2 * i)
  have hstart : inv 0 buffer := rfl
  refine forLoop_inv inv hstart fun i b _ hi hb ↦ ?_
  change storeWord b i (drive.data i) = copyCells buffer 0 sector 0 (2 * (i + 1))
  rw [hdata i (by omega), storeWord_loadWord, hb, Nat.mul_succ, copyCells, copyCells]
  simp only [Nat.zero_add]

/-- Reading from a drive that serves the sector and shows no error is the read of the disk. -/
theorem ataReadSector_eq_disk {disk : Disk} {r : AtaCall × Bytes}
    (hdata : ∀ i < 256, drive.data i = loadWord (disk.sector (lba28 lba)) i)
    (hr : ataReadSector drive k lba buffer = some r)
    (hok : .prErr (.errorReading lba) ∉ r.1.events) :
    r.2 = Drivers.ataReadSector disk lba buffer 0 := by
  obtain ⟨s₁, s₂, -, -, rfl⟩ := ataReadSector_eq_some_iff.mp hr
  by_cases hfailed : (ataCheckError drive s₂).1 = true
  · rw [if_pos hfailed] at hok
    exact absurd (List.mem_append_right _ (List.mem_singleton.mpr rfl)) hok
  · rw [if_neg hfailed]
    dsimp only
    rw [receiveWords_eq hdata, Drivers.ataReadSector]

end AtaDrive

end TenOs.Drivers
