import Mathlib.Data.List.FinRange

/-!
# A pair of 8259A interrupt controllers

Edge triggered, fully nested, the slave on line 2 of the master.  A request stays in its register until
the CPU acknowledges it, so there are no spurious ones.
-/

namespace TenOs.X86

/-! ## One controller -/

/-- The initialisation word that the data port expects. -/
inductive InitPhase
  | ready | icw2 | icw3 | icw4
  deriving DecidableEq

/-- The request, in-service and mask registers, and what initialisation has set. -/
structure Pic where
  irr : BitVec 8
  isr : BitVec 8
  imr : BitVec 8
  base : BitVec 8
  cascade : BitVec 8
  autoEoi : Bool
  single : Bool
  needIcw4 : Bool
  phase : InitPhase

/-- The first line with its bit set. -/
def lowest (x : BitVec 8) : Option (Fin 8) := (List.finRange 8).find? fun i ↦ x.getLsbD i

def lineBit (i : Fin 8) : BitVec 8 := 1#8 <<< i.val

namespace Pic

variable (p : Pic)

/-- A write with A0 low: the first initialisation word, or an end of interrupt.  Rotation and the third
operation word are not modelled. -/
def writeCommand (b : BitVec 8) : Pic :=
  if b.getLsbD 4 then
    { p with
      irr := 0
      isr := 0
      imr := 0
      autoEoi := false
      single := b.getLsbD 1
      needIcw4 := b.getLsbD 0
      phase := .icw2 }
  else if b.getLsbD 3 then p
  else if b.extractLsb' 5 3 = 1 then { p with isr := p.isr &&& (p.isr - 1) }
  else if b.extractLsb' 5 3 = 3 then { p with isr := p.isr &&& ~~~(1#8 <<< (b.toNat % 8)) }
  else p

/-- A write with A0 high. -/
def writeData (b : BitVec 8) : Pic :=
  let last : InitPhase := if p.needIcw4 then .icw4 else .ready
  match p.phase with
  | .icw2 => { p with base := b &&& 0xF8, phase := if p.single then last else .icw3 }
  | .icw3 => { p with cascade := b, phase := last }
  | .icw4 => { p with autoEoi := b.getLsbD 1, phase := .ready }
  | .ready => { p with imr := b }

/-- A rising edge on line `i`. -/
def raise (i : Fin 8) : Pic := { p with irr := p.irr ||| lineBit i }

/-- The line to be served next, when `extra` are the lines that another controller drives. -/
def request (extra : BitVec 8) : Option (Fin 8) :=
  if p.phase = .ready then
    (lowest ((p.irr ||| extra) &&& ~~~p.imr)).filter fun i ↦
      (lowest p.isr).all fun j ↦ decide (i < j)
  else none

/-- The controller's part of an acknowledgement of line `i`. -/
def serve (i : Fin 8) : Pic :=
  { p with
    irr := p.irr &&& ~~~lineBit i
    isr := if p.autoEoi then p.isr else p.isr ||| lineBit i }

def vector (i : Fin 8) : Nat := p.base.toNat + i

end Pic

/-! ## The pair -/

structure Pics where
  master : Pic
  slave : Pic

namespace Pics

variable (p : Pics)

/-- Line 2 of the master is the slave's output. -/
def slaveLine : BitVec 8 := if (p.slave.request 0).isSome then lineBit 2 else 0

/-- The CPU's acknowledgement: the pair, and the vector; nothing when the output is low or the two do
not agree about the cascade. -/
def acknowledge : Option (Pics × Nat) :=
  (p.master.request p.slaveLine).bind fun i ↦
    if p.master.cascade.getLsbD i then
      (p.slave.request 0).bind fun j ↦
        if p.slave.cascade = BitVec.ofNat 8 i then
          some (⟨p.master.serve i, p.slave.serve j⟩, p.slave.vector j)
        else none
    else some ({ p with master := p.master.serve i }, p.master.vector i)

/-- A rising edge on line `n` of the pair. -/
def raise (n : Fin 16) : Pics :=
  if h : n.val < 8 then { p with master := p.master.raise ⟨n, h⟩ }
  else { p with slave := p.slave.raise ⟨n - 8, by omega⟩ }

/-- A request on line `n` waits for its acknowledgement. -/
def pending (n : Fin 16) : Bool :=
  if n.val < 8 then p.master.irr.getLsbD n else p.slave.irr.getLsbD (n - 8)

/-- The vector of line `n`. -/
def vector (n : Fin 16) : Nat :=
  if h : n.val < 8 then p.master.vector ⟨n, h⟩ else p.slave.vector ⟨n - 8, by omega⟩

/-- The registers when line `n` has been acknowledged. -/
def serve (n : Fin 16) : Pics :=
  if h : n.val < 8 then { p with master := p.master.serve ⟨n, h⟩ }
  else { master := p.master.serve 2, slave := p.slave.serve ⟨n - 8, by omega⟩ }

/-- The end of an interrupt on line `n`, for both controllers where both have served it. -/
def endOfInterrupt (n : Fin 16) : Pics :=
  { master := p.master.writeCommand 0x20
    slave := if n.val < 8 then p.slave else p.slave.writeCommand 0x20 }

/-- A byte for one of the ports of the pair. -/
def out (port : BitVec 16) (b : BitVec 8) : Pics :=
  if port = 0x20 then { p with master := p.master.writeCommand b }
  else if port = 0x21 then { p with master := p.master.writeData b }
  else if port = 0xA0 then { p with slave := p.slave.writeCommand b }
  else if port = 0xA1 then { p with slave := p.slave.writeData b }
  else p

/-- Lines of a smaller rank are served first. -/
def rank (n : Fin 16) : Nat := if n.val < 8 then 8 * n else 16 + (n - 8)

end Pics

/-! ## Channel 0 of the 8253 -/

/-- The mode and the count, and whether the next byte is the high one. -/
structure Pit where
  mode : BitVec 3
  count : BitVec 16
  high : Bool

namespace Pit

variable (p : Pit)

/-- A control word for both bytes of channel 0; others are not modelled. -/
def writeControl (b : BitVec 8) : Pit :=
  if b.extractLsb' 4 4 = 3 then { p with mode := b.extractLsb' 1 3, high := false } else p

def writeCount (b : BitVec 8) : Pit :=
  if p.high then { p with count := b ++ p.count.extractLsb' 0 8, high := false }
  else { p with count := p.count.extractLsb' 8 8 ++ b, high := true }

/-- A control word for mode 3 and a count, the low byte first. -/
theorem programme (p : Pit) (low high : BitVec 8) :
    ((p.writeControl 0x36).writeCount low).writeCount high = ⟨3, high ++ low, false⟩ := by
  have hcontrol : p.writeControl 0x36 = { p with mode := 3, high := false } := rfl
  have hlow : (p.count.extractLsb' 8 8 ++ low).extractLsb' 0 8 = low := BitVec.extractLsb'_append_eq_right
  rw [hcontrol]
  exact congrArg (fun b ↦ Pit.mk 3 (high ++ b) false) hlow

end Pit

/-! ## The registers as sets of lines -/

theorem getLsbD_lineBit (i : Fin 8) (j : Nat) : (lineBit i).getLsbD j = decide (j = i) := by
  have hi := i.isLt
  rw [lineBit, BitVec.getLsbD_shiftLeft, BitVec.getLsbD_one]
  by_cases h : j = i
  · subst h
    simp
  · simp only [h, decide_false]
    simp
    omega

theorem lowest_eq_none_iff (x : BitVec 8) : lowest x = none ↔ x = 0 := by
  revert x
  decide +kernel

theorem lowest_mem {x : BitVec 8} {i : Fin 8} (h : lowest x = some i) : x.getLsbD i = true := by
  revert x i
  decide +kernel

theorem lowest_le {x : BitVec 8} {i j : Fin 8} (h : lowest x = some i) (hj : x.getLsbD j) : i ≤ j := by
  revert x i j
  decide +kernel

-- An end of interrupt for the only line in service.
theorem lineBit_cleared (i : Fin 8) : lineBit i &&& (lineBit i - 1) = 0 := by
  revert i
  decide

theorem getLsbD_or_lineBit (x : BitVec 8) (i j : Fin 8) :
    (x ||| lineBit i).getLsbD j = (x.getLsbD j || decide (j = i)) := by
  rw [BitVec.getLsbD_or, getLsbD_lineBit]
  simp only [Fin.ext_iff]

theorem getLsbD_clear_lineBit (x : BitVec 8) (i j : Fin 8) :
    (x &&& ~~~lineBit i).getLsbD j = (x.getLsbD j && decide (j ≠ i)) := by
  rw [BitVec.getLsbD_and, BitVec.getLsbD_not, getLsbD_lineBit]
  simp [Fin.ext_iff, j.isLt]

/-! ## A controller with nothing in service -/

/-- Initialised, nothing in service and nothing masked. -/
structure Pic.Idle (p : Pic) : Prop where
  phase : p.phase = .ready
  isr : p.isr = 0
  imr : p.imr = 0
  autoEoi : p.autoEoi = false

namespace Pic

variable {p : Pic}

theorem Idle.request (h : p.Idle) (extra : BitVec 8) : p.request extra = lowest (p.irr ||| extra) := by
  rw [Pic.request, if_pos h.phase, h.isr, h.imr]
  have hfree : lowest 0 = none := (lowest_eq_none_iff 0).mpr rfl
  simp only [hfree, Option.all_none]
  rw [show ~~~(0 : BitVec 8) = BitVec.allOnes 8 by decide, BitVec.and_allOnes]
  cases lowest (p.irr ||| extra) <;> rfl

theorem Idle.raise (h : p.Idle) (i : Fin 8) : (p.raise i).Idle := ⟨h.phase, h.isr, h.imr, h.autoEoi⟩

theorem writeCommand_eoi (p : Pic) : p.writeCommand 0x20 = { p with isr := p.isr &&& (p.isr - 1) } := rfl

/-- The state that the initialisation words of a controller in a pair leave, with an empty mask. -/
def initialised (base cascade : BitVec 8) : Pic where
  irr := 0
  isr := 0
  imr := 0
  base := base &&& 0xF8
  cascade
  autoEoi := false
  single := false
  needIcw4 := true
  phase := .ready

theorem initialise (p : Pic) (base cascade : BitVec 8) :
    ((((p.writeCommand 0x11).writeData base).writeData cascade).writeData 0x01).writeData 0x00 =
      initialised base cascade := by
  have hcommand : p.writeCommand 0x11 =
      { p with
        irr := 0
        isr := 0
        imr := 0
        autoEoi := false
        single := false
        needIcw4 := true
        phase := .icw2 } := rfl
  rw [hcommand]
  rfl

theorem idle_initialised (base cascade : BitVec 8) : (initialised base cascade).Idle :=
  ⟨rfl, rfl, rfl, rfl⟩

-- The one line in service is the one that the end of interrupt is for.
theorem Idle.served (h : p.Idle) (i : Fin 8) : ((p.serve i).writeCommand 0x20).Idle := by
  refine ⟨h.phase, ?_, h.imr, h.autoEoi⟩
  rw [writeCommand_eoi]
  simp only [serve, h.autoEoi, h.isr, Bool.false_eq_true, if_false]
  rw [show (0 : BitVec 8) ||| lineBit i = lineBit i from BitVec.zero_or]
  exact lineBit_cleared i

end Pic

/-! ## The pair between two interrupts -/

namespace Pics

variable {p : Pics}

theorem out_masterCommand (p : Pics) (b : BitVec 8) :
    p.out 0x20 b = { p with master := p.master.writeCommand b } := rfl

theorem out_masterData (p : Pics) (b : BitVec 8) :
    p.out 0x21 b = { p with master := p.master.writeData b } := rfl

theorem out_slaveCommand (p : Pics) (b : BitVec 8) :
    p.out 0xA0 b = { p with slave := p.slave.writeCommand b } := rfl

theorem out_slaveData (p : Pics) (b : BitVec 8) :
    p.out 0xA1 b = { p with slave := p.slave.writeData b } := rfl

/-- Both controllers are idle, the slave hangs on line 2, and no device drives that line. -/
structure Idle (p : Pics) : Prop where
  master : p.master.Idle
  slave : p.slave.Idle
  cascade : p.master.cascade = lineBit 2
  identity : p.slave.cascade = 2
  undriven : p.master.irr.getLsbD 2 = false

theorem pending_of_lt (p : Pics) {n : Fin 16} (h : n.val < 8) :
    p.pending n = p.master.irr.getLsbD n := if_pos h

theorem pending_of_ge (p : Pics) {n : Fin 16} (h : ¬ n.val < 8) :
    p.pending n = p.slave.irr.getLsbD (n - 8) := if_neg h

theorem pending_raise (p : Pics) (n m : Fin 16) :
    (p.raise n).pending m = (p.pending m || decide (m = n)) := by
  rw [Pics.raise]
  by_cases hn : n.val < 8 <;> by_cases hm : m.val < 8
  · rw [dif_pos hn, pending_of_lt _ hm, pending_of_lt _ hm]
    exact (getLsbD_or_lineBit p.master.irr ⟨n, hn⟩ ⟨m, hm⟩).trans (by simp [Fin.ext_iff])
  · rw [dif_pos hn, pending_of_ge _ hm, pending_of_ge _ hm]
    simp [show m ≠ n by rintro rfl; exact hm hn]
  · rw [dif_neg hn, pending_of_lt _ hm, pending_of_lt _ hm]
    simp [show m ≠ n by rintro rfl; exact hn hm]
  · rw [dif_neg hn, pending_of_ge _ hm, pending_of_ge _ hm]
    refine (getLsbD_or_lineBit p.slave.irr ⟨n - 8, by omega⟩ ⟨m - 8, by omega⟩).trans ?_
    simp only [Fin.ext_iff, show m.val - 8 = n.val - 8 ↔ m.val = n.val by omega]

theorem Idle.raise (h : p.Idle) {n : Fin 16} (hn : n ≠ 2) : (p.raise n).Idle := by
  rw [Pics.raise]
  by_cases hlow : n.val < 8
  · rw [dif_pos hlow]
    refine ⟨h.master.raise _, h.slave, h.cascade, h.identity, ?_⟩
    refine (getLsbD_or_lineBit p.master.irr ⟨n, hlow⟩ 2).trans ?_
    rw [show p.master.irr.getLsbD (2 : Fin 8).val = false from h.undriven]
    simpa [Fin.ext_iff, eq_comm] using hn
  · rw [dif_neg hlow]
    exact ⟨h.master, h.slave.raise _, h.cascade, h.identity, h.undriven⟩

theorem pending_serve (h : p.Idle) {n : Fin 16} (hn : n ≠ 2) (m : Fin 16) :
    (p.serve n).pending m = (p.pending m && decide (m ≠ n)) := by
  rw [serve]
  by_cases hlow : n.val < 8 <;> by_cases hm : m.val < 8
  · rw [dif_pos hlow, pending_of_lt _ hm, pending_of_lt _ hm]
    exact (getLsbD_clear_lineBit p.master.irr ⟨n, hlow⟩ ⟨m, hm⟩).trans (by simp [Fin.ext_iff])
  · rw [dif_pos hlow, pending_of_ge _ hm, pending_of_ge _ hm]
    simp [show m ≠ n by rintro rfl; exact hm hlow]
  · -- the request of the cascade is not one of a device
    rw [dif_neg hlow, pending_of_lt _ hm, pending_of_lt _ hm]
    refine (getLsbD_clear_lineBit p.master.irr 2 ⟨m, hm⟩).trans ?_
    by_cases hcascade : m = 2
    · subst hcascade
      rw [show p.master.irr.getLsbD (2 : Fin 16).val = false from h.undriven]
      exact Bool.false_and _ |>.trans (Bool.false_and _).symm
    · have hne : m ≠ n := by rintro rfl; exact hlow hm
      simpa [Fin.ext_iff, hne] using fun _ ↦ (Fin.val_ne_iff.mpr hcascade)
  · rw [dif_neg hlow, pending_of_ge _ hm, pending_of_ge _ hm]
    refine (getLsbD_clear_lineBit p.slave.irr ⟨n - 8, by omega⟩ ⟨m - 8, by omega⟩).trans ?_
    simp only [ne_eq, Fin.ext_iff, show m.val - 8 = n.val - 8 ↔ m.val = n.val by omega]

theorem pending_endOfInterrupt (p : Pics) (n m : Fin 16) :
    (p.endOfInterrupt n).pending m = p.pending m := by
  have hslave : (p.endOfInterrupt n).slave.irr = p.slave.irr := by
    rw [endOfInterrupt]
    dsimp only
    split <;> rfl
  rw [pending, pending, hslave]
  rfl

theorem Idle.endOfInterrupt (h : p.Idle) (n : Fin 16) :
    ((p.serve n).endOfInterrupt n).Idle := by
  rw [serve]
  by_cases hlow : n.val < 8
  · rw [dif_pos hlow, Pics.endOfInterrupt, if_pos hlow]
    refine ⟨h.master.served _, h.slave, h.cascade, h.identity, ?_⟩
    refine (getLsbD_clear_lineBit p.master.irr ⟨n, hlow⟩ 2).trans ?_
    rw [show p.master.irr.getLsbD (2 : Fin 8).val = false from h.undriven, Bool.false_and]
  · rw [dif_neg hlow, Pics.endOfInterrupt, if_neg hlow]
    refine ⟨h.master.served _, h.slave.served _, h.cascade, h.identity, ?_⟩
    refine (getLsbD_clear_lineBit p.master.irr 2 2).trans ?_
    rw [show p.master.irr.getLsbD (2 : Fin 8).val = false from h.undriven, Bool.false_and]

theorem Idle.slaveRequest (h : p.Idle) : p.slave.request 0 = lowest p.slave.irr :=
  (h.slave.request 0).trans (congrArg lowest BitVec.or_zero)

theorem Idle.slaveLine (h : p.Idle) :
    p.slaveLine = if p.slave.irr = 0 then 0 else lineBit 2 := by
  rw [Pics.slaveLine, h.slaveRequest]
  by_cases hzero : p.slave.irr = 0
  · rw [if_pos hzero, (lowest_eq_none_iff _).mpr hzero]
    rfl
  · rw [if_neg hzero, if_pos]
    exact Option.isSome_iff_ne_none.mpr (mt (lowest_eq_none_iff _).mp hzero)

-- The bit of the cascade is the slave's, the other bits of the request are devices of the master.
theorem Idle.getLsbD_requests (h : p.Idle) (i : Fin 8) :
    (p.master.irr ||| p.slaveLine).getLsbD i =
      if i = 2 then decide (p.slave.irr ≠ 0) else p.master.irr.getLsbD i := by
  rw [BitVec.getLsbD_or, h.slaveLine]
  by_cases hi : i = 2
  · subst hi
    rw [if_pos rfl, show p.master.irr.getLsbD (2 : Fin 8).val = false from h.undriven, Bool.false_or]
    by_cases hzero : p.slave.irr = 0
    · simp [hzero]
    · simp only [hzero, if_false, ne_eq, not_false_eq_true, decide_true]
      exact (getLsbD_lineBit 2 2).trans rfl
  · rw [if_neg hi]
    split
    · simp
    · rw [getLsbD_lineBit, decide_eq_false (Fin.val_ne_iff.mpr hi), Bool.or_false]

theorem Idle.slave_ne_zero {n : Fin 16} (hn : ¬ n.val < 8) (hpending : p.pending n) :
    p.slave.irr ≠ 0 := by
  intro hzero
  rw [pending_of_ge _ hn, hzero] at hpending
  simp at hpending

-- A pending line of either controller shows at the master.
theorem Idle.request_of_lt (h : p.Idle) {n : Fin 16} (hn : n.val < 8) (hpending : p.pending n) :
    n.val ≠ 2 ∧ (p.master.irr ||| p.slaveLine).getLsbD n := by
  rw [pending_of_lt _ hn] at hpending
  have hne : n.val ≠ 2 := by
    intro heq
    rw [heq, h.undriven] at hpending
    exact Bool.false_ne_true hpending
  refine ⟨hne, (h.getLsbD_requests ⟨n, hn⟩).trans ?_⟩
  rw [if_neg (mt Fin.ext_iff.mp hne)]
  exact hpending

theorem Idle.request_of_ge (h : p.Idle) {n : Fin 16} (hn : ¬ n.val < 8) (hpending : p.pending n) :
    (p.master.irr ||| p.slaveLine).getLsbD (2 : Fin 8) := by
  rw [h.getLsbD_requests, if_pos rfl]
  exact decide_eq_true (Idle.slave_ne_zero hn hpending)

/-- Line `n` of a device is pending, and none of a smaller rank. -/
structure Next (p : Pics) (n : Fin 16) : Prop where
  ne : n ≠ 2
  pending : p.pending n
  le : ∀ m, p.pending m → rank n ≤ rank m

theorem Idle.acknowledge_slave (h : p.Idle)
    (hline : lowest (p.master.irr ||| p.slaveLine) = some 2) :
    ∃ n, p.Next n ∧ p.acknowledge = some (p.serve n, p.vector n) := by
  have hbit := (h.getLsbD_requests 2).symm.trans (lowest_mem hline)
  rw [if_pos rfl, decide_eq_true_eq] at hbit
  obtain ⟨j, hj⟩ := Option.ne_none_iff_exists'.mp (mt (lowest_eq_none_iff _).mp hbit)
  have hge : ¬ (8 + j.val) < 8 := by omega
  refine ⟨⟨8 + j, by omega⟩, ⟨?_, ?_, fun m hpending ↦ ?_⟩, ?_⟩
  · rw [Ne, Fin.ext_iff]
    change 8 + j.val ≠ 2
    omega
  · rw [pending_of_ge _ hge]
    exact (congrArg p.slave.irr.getLsbD (show 8 + j.val - 8 = j by omega)).trans (lowest_mem hj)
  · rw [rank, rank, if_neg hge]
    by_cases hm : m.val < 8
    · obtain ⟨hne, hrequest⟩ := h.request_of_lt hm hpending
      have hle : 2 ≤ m.val := lowest_le (j := ⟨m, hm⟩) hline hrequest
      rw [if_pos hm]
      dsimp only
      omega
    · rw [pending_of_ge _ hm] at hpending
      have hle : j.val ≤ m.val - 8 := lowest_le (j := ⟨m - 8, by omega⟩) hj hpending
      rw [if_neg hm]
      dsimp only
      omega
  · rw [acknowledge, h.master.request, hline, Option.bind_some, h.cascade, getLsbD_lineBit,
      if_pos (decide_eq_true rfl), h.slaveRequest, hj, Option.bind_some]
    rw [if_pos (h.identity.trans (by decide)), serve, dif_neg hge, vector, dif_neg hge]
    simp only [Nat.add_sub_cancel_left]

theorem Idle.acknowledge_master (h : p.Idle) {i : Fin 8} (hi : i ≠ 2)
    (hline : lowest (p.master.irr ||| p.slaveLine) = some i) :
    ∃ n, p.Next n ∧ p.acknowledge = some (p.serve n, p.vector n) := by
  have hbit := (h.getLsbD_requests i).symm.trans (lowest_mem hline)
  rw [if_neg hi] at hbit
  have hlt : i.val < 8 := i.isLt
  have hne : i.val ≠ 2 := fun heq ↦ hi (Fin.ext heq)
  refine ⟨⟨i, by omega⟩, ⟨?_, ?_, fun m hpending ↦ ?_⟩, ?_⟩
  · rw [Ne, Fin.ext_iff]
    exact hne
  · rw [pending_of_lt _ hlt]
    exact hbit
  · rw [rank, rank, if_pos hlt]
    by_cases hm : m.val < 8
    · have hle : i.val ≤ m.val := lowest_le (j := ⟨m, hm⟩) hline (h.request_of_lt hm hpending).2
      rw [if_pos hm]
      dsimp only
      omega
    · have hle : i.val ≤ 2 := lowest_le hline (h.request_of_ge hm hpending)
      rw [if_neg hm]
      dsimp only
      omega
  · rw [acknowledge, h.master.request, hline, Option.bind_some, h.cascade, getLsbD_lineBit, if_neg,
      serve, dif_pos hlt, vector, dif_pos hlt]
    rw [decide_eq_true_eq]
    exact hne

/-- Nothing is acknowledged when nothing is pending; otherwise it is the pending line of the smallest
rank. -/
theorem Idle.acknowledge_cases (h : p.Idle) :
    (p.acknowledge = none ∧ ∀ n, p.pending n = false) ∨
      ∃ n, p.Next n ∧ p.acknowledge = some (p.serve n, p.vector n) := by
  cases hline : lowest (p.master.irr ||| p.slaveLine) with
  | none =>
    refine Or.inl ⟨?_, fun n ↦ Bool.eq_false_iff.mpr fun hpending ↦ ?_⟩
    · rw [acknowledge, h.master.request, hline]
      rfl
    · rw [lowest_eq_none_iff] at hline
      by_cases hn : n.val < 8
      · have hbit := (h.request_of_lt hn hpending).2
        rw [hline] at hbit
        simp at hbit
      · have hbit := h.request_of_ge hn hpending
        rw [hline] at hbit
        simp at hbit
  | some i =>
    refine Or.inr ?_
    by_cases hi : i = 2
    · subst hi
      exact h.acknowledge_slave hline
    · exact h.acknowledge_master hi hline

end Pics

end TenOs.X86
