import Mathlib.Data.Fintype.Card
import TenOs.Base.Word
import TenOs.Drivers.LineQueue
import TenOs.X86.Pic

/-!
# `cpu/isr.c` and `cpu/timer.c`

What `main` sets up between its `cli` and its `sti`, and the hardware interrupts from there on, for any
order of requests, interrupts and reads of the keyboard.  Every key pressed reaches the driver once
and in order, every other request is served once, and `tick` counts those of the timer.
-/

namespace TenOs.Cpu

open TenOs.Base TenOs.Lib TenOs.X86 TenOs.Drivers

/-- The functions that are registered. -/
inductive Isr
  | timerCallback
  | keyboardCallback

def IRQ0 : u8 := 32
def IRQ1 : u8 := 33

/-- The variables of `isr.c`, `timer.c` and `keyboard.c`, and the devices.  The keyboard controller
offers the first of `scancodes`, or again the last one it gave. -/
structure Board where
  interruptHandlers : Nat → Option Isr
  tick : u32
  keyboard : Keyboard
  pics : Pics
  pit : Pit
  scancodes : List u8
  lastScancode : u8

namespace Board

variable (s : Board)

/-! ## Devices -/

/-- A rising edge on line `n`. -/
def edge (n : Fin 16) : Board := { s with pics := s.pics.raise n }

/-- A byte from the keyboard; the controller requests an interrupt when its buffer was empty. -/
def key (data : u8) : Board :=
  let t := { s with scancodes := s.scancodes ++ [data] }
  if s.scancodes = [] then t.edge 1 else t

/-- The ports that the kernel writes here. -/
def portByteOut (port : u16) (data : u8) : Board :=
  if port = 0x43 then { s with pit := s.pit.writeControl data }
  else if port = 0x40 then { s with pit := s.pit.writeCount data }
  else { s with pics := s.pics.out port data }

/-- A read of port `0x60`; the controller requests another interrupt for the next byte. -/
def portByteIn60 : Board × u8 :=
  match s.scancodes with
  | [] => (s, s.lastScancode)
  | data :: rest =>
      let t := { s with scancodes := rest, lastScancode := data }
      (if rest = [] then t else t.edge 1, data)

/-! ## The code -/

def registerInterruptHandler (n : u8) (handler : Isr) : Board :=
  { s with interruptHandlers := Function.update s.interruptHandlers n.toNat (some handler) }

/-- The part of `isr_install` between the gates of the exceptions and those of the interrupts. -/
def remapPic : Board :=
  let s := s.portByteOut 0x20 0x11
  let s := s.portByteOut 0xA0 0x11
  let s := s.portByteOut 0x21 0x20
  let s := s.portByteOut 0xA1 0x28
  let s := s.portByteOut 0x21 0x04
  let s := s.portByteOut 0xA1 0x02
  let s := s.portByteOut 0x21 0x01
  let s := s.portByteOut 0xA1 0x01
  let s := s.portByteOut 0x21 0x00
  s.portByteOut 0xA1 0x00

def initTimer (freq : Int) : Board :=
  let s := s.registerInterruptHandler IRQ0 .timerCallback
  let divisor := BitVec.ofInt 32 (Int.tdiv 1193180 freq)
  let low := (divisor &&& 0xFF).setWidth 8
  let high := ((divisor >>> 8) &&& 0xFF).setWidth 8
  let s := s.portByteOut 0x43 0x36
  let s := s.portByteOut 0x40 low
  s.portByteOut 0x40 high

def initKeyboard : Board := s.registerInterruptHandler IRQ1 .keyboardCallback

/-- The calls of `main` for the interrupts. -/
def setUp : Board := ((s.remapPic).initTimer 50).initKeyboard

def call : Isr → Board
  | .timerCallback => { s with tick := s.tick + 1 }
  | .keyboardCallback =>
      let r := s.portByteIn60
      { r.1 with keyboard := r.1.keyboard.keyboardCallback r.2 }

def irqHandler (intNo : Nat) : Board :=
  let s := if intNo ≥ 40 then s.portByteOut 0xA0 0x20 else s
  let s := s.portByteOut 0x20 0x20
  match s.interruptHandlers intNo with
  | some handler => s.call handler
  | none => s

end Board

/-! ## Runs -/

/-- The board with the bytes that came from the keyboard, the requests of other devices that found
their line free, the interrupts handled, and the bytes that `keyboard_read` returned. -/
structure Watch where
  board : Board
  keys : List u8
  requests : List (Fin 16)
  served : List Nat
  returned : List u8

/-- A request of another device than the keyboard, a byte from the keyboard, an interrupt when the CPU
takes one, and a call of `keyboard_read` past its wait. -/
inductive BoardEvent
  | edge (n : Fin 16)
  | key (data : u8)
  | interrupt
  | read (userBuf : Bytes) (count : u32)

namespace Watch

def step (s : Watch) : BoardEvent → Watch
  | .edge n =>
      { s with
        board := s.board.edge n
        requests := if s.board.pics.pending n then s.requests else s.requests ++ [n] }
  | .key data => { s with board := s.board.key data, keys := s.keys ++ [data] }
  | .interrupt =>
      match s.board.pics.acknowledge with
      | none => s
      | some (pics, intNo) =>
          { s with
            board := { s.board with pics }.irqHandler intNo
            served := s.served ++ [intNo] }
  | .read userBuf count =>
      let r := s.board.keyboard.keyboardRead userBuf count
      { s with board := { s.board with keyboard := r.1 }, returned := s.returned ++ returnedBytes r }

/-- Line 1 is the keyboard's, and line 2 the slave's. -/
def ok (_ : Watch) : BoardEvent → Prop
  | .edge n => n ≠ 1 ∧ n ≠ 2
  | _ => True

/-- The board of a machine on which no byte waits in the keyboard controller, when `main` has set up the
interrupts. -/
def start (pics : Pics) (pit : Pit) (lastScancode : u8) : Watch where
  board := Board.setUp
    { interruptHandlers := fun _ ↦ none
      tick := 0
      keyboard := .boot
      pics
      pit
      scancodes := []
      lastScancode }
  keys := []
  requests := []
  served := []
  returned := []

end Watch

/-! ## What the code does to the board -/

namespace Board

/-- The handlers of `setUp`. -/
def registered : Nat → Option Isr :=
  Function.update (Function.update (fun _ ↦ none) 32 (some .timerCallback)) 33
    (some .keyboardCallback)

/-- Both controllers wait for requests, their lines have the vectors from 32 on, and the handlers are
registered. -/
structure Ready (s : Board) : Prop where
  idle : s.pics.Idle
  master : s.pics.master.base = 0x20
  slave : s.pics.slave.base = 0x28
  handlers : s.interruptHandlers = registered

theorem portByteOut_pic (s : Board) {port : u16} (h : port ≠ 0x43) (h' : port ≠ 0x40) (data : u8) :
    s.portByteOut port data = { s with pics := s.pics.out port data } := by
  rw [portByteOut, if_neg h, if_neg h']

theorem remapPic_eq (s : Board) :
    s.remapPic = { s with pics := ⟨Pic.initialised 0x20 4, Pic.initialised 0x28 2⟩ } := by
  simp only [remapPic, portByteOut_pic _ (show (0x20 : u16) ≠ 0x43 by decide) (by decide),
    portByteOut_pic _ (show (0x21 : u16) ≠ 0x43 by decide) (by decide),
    portByteOut_pic _ (show (0xA0 : u16) ≠ 0x43 by decide) (by decide),
    portByteOut_pic _ (show (0xA1 : u16) ≠ 0x43 by decide) (by decide),
    Pics.out_masterCommand, Pics.out_masterData, Pics.out_slaveCommand, Pics.out_slaveData,
    Pic.initialise]

/-- The count of the timer is the low half of the divisor. -/
theorem initTimer_eq (s : Board) (freq : Int) :
    s.initTimer freq =
      { s with
        interruptHandlers := Function.update s.interruptHandlers 32 (some .timerCallback)
        pit := ⟨3, (BitVec.ofInt 32 (Int.tdiv 1193180 freq)).setWidth 16, false⟩ } := by
  have hsplit (d : u32) :
      (((d >>> 8) &&& 0xFF).setWidth 8 : u8) ++ ((d &&& 0xFF).setWidth 8 : u8) = d.setWidth 16 := by
    apply BitVec.eq_of_toNat_eq
    rw [toNat_append_eq, BitVec.toNat_setWidth, BitVec.toNat_setWidth, BitVec.toNat_setWidth,
      toNat_and_lowMask _ (k := 8) rfl, toNat_and_lowMask _ (k := 8) rfl, toNat_ushiftRight_eq]
    omega
  rw [← hsplit, ← s.pit.programme]
  rfl

theorem setUp_eq (s : Board) :
    s.setUp =
      { s with
        interruptHandlers := Function.update (Function.update s.interruptHandlers 32
          (some .timerCallback)) 33 (some .keyboardCallback)
        pics := ⟨Pic.initialised 0x20 4, Pic.initialised 0x28 2⟩
        pit := ⟨3, 23863, false⟩ } := by
  rw [setUp, remapPic_eq, initTimer_eq]
  rfl

theorem ready_setUp {s : Board} (h : s.interruptHandlers = fun _ ↦ none) : s.setUp.Ready := by
  rw [setUp_eq]
  refine ⟨⟨Pic.idle_initialised _ _, Pic.idle_initialised _ _, ?_, rfl, BitVec.getLsbD_zero⟩,
    rfl, rfl, ?_⟩
  · exact (by decide : (4 : u8) = lineBit 2)
  · rw [h]
    rfl

theorem Ready.vector {s : Board} (h : s.Ready) (n : Fin 16) : s.pics.vector n = 32 + n := by
  rw [Pics.vector]
  by_cases hn : n.val < 8
  · rw [dif_pos hn, Pic.vector, h.master]
    rfl
  · rw [dif_neg hn, Pic.vector, h.slave]
    change 40 + (n.val - 8) = 32 + n
    omega

-- The bytes for the controllers, with both of them told about the lines of the slave.
theorem endOfInterrupt_eq (s : Board) (n : Fin 16) :
    (if 32 + n.val ≥ 40 then s.portByteOut 0xA0 0x20 else s).portByteOut 0x20 0x20 =
      { s with pics := s.pics.endOfInterrupt n } := by
  rw [Pics.endOfInterrupt]
  by_cases hn : n.val < 8
  · rw [if_neg (by omega), if_pos hn]
    rfl
  · rw [if_pos (by omega), if_neg hn]
    rfl

theorem irqHandler_some {s : Board} {n : Fin 16} {handler : Isr}
    (h : s.interruptHandlers (32 + n) = some handler) :
    s.irqHandler (32 + n) = { s with pics := s.pics.endOfInterrupt n }.call handler := by
  rw [irqHandler, endOfInterrupt_eq]
  dsimp only
  rw [h]

theorem irqHandler_none {s : Board} {n : Fin 16} (h : s.interruptHandlers (32 + n) = none) :
    s.irqHandler (32 + n) = { s with pics := s.pics.endOfInterrupt n } := by
  rw [irqHandler, endOfInterrupt_eq]
  dsimp only
  rw [h]

theorem registered_none {n : Fin 16} (htimer : n ≠ 0) (hkeyboard : n ≠ 1) :
    registered (32 + n) = none := by
  revert n
  decide

/-- What comes of an interrupt of line `n`. -/
structure Handled (s t : Board) (n : Fin 16) : Prop where
  ready : t.Ready
  pending : ∀ m, m ≠ 1 → t.pics.pending m = (s.pics.pending m && decide (m ≠ n))
  keyLine : t.pics.pending 1 = decide (t.scancodes ≠ [])
  tick : t.tick = if n = 0 then s.tick + 1 else s.tick
  keys : n = 1 → ∃ data, s.scancodes = data :: t.scancodes ∧
    t.keyboard = s.keyboard.keyboardCallback data
  others : n ≠ 1 → t.scancodes = s.scancodes ∧ t.keyboard = s.keyboard

theorem Ready.served {s : Board} (h : s.Ready) (n : Fin 16) :
    Ready { s with pics := (s.pics.serve n).endOfInterrupt n } := by
  refine ⟨h.idle.endOfInterrupt n, ?_, ?_, h.handlers⟩
  · refine Eq.trans ?_ h.master
    rw [Pics.serve]
    split <;> rfl
  · refine Eq.trans ?_ h.slave
    rw [Pics.serve, Pics.endOfInterrupt]
    by_cases hn : n.val < 8
    · rw [dif_pos hn, if_pos hn]
    · rw [dif_neg hn, if_neg hn]
      rfl

theorem Ready.edge {s : Board} (h : s.Ready) {n : Fin 16} (hn : n ≠ 2) : (s.edge n).Ready := by
  refine ⟨h.idle.raise hn, ?_, ?_, h.handlers⟩
  · refine Eq.trans ?_ h.master
    rw [Board.edge, Pics.raise]
    split <;> rfl
  · refine Eq.trans ?_ h.slave
    rw [Board.edge, Pics.raise]
    split <;> rfl

theorem pending_served {s : Board} (h : s.Ready) {n : Fin 16} (hn : n ≠ 2) (m : Fin 16) :
    ((s.pics.serve n).endOfInterrupt n).pending m = (s.pics.pending m && decide (m ≠ n)) :=
  (Pics.pending_endOfInterrupt _ _ _).trans (Pics.pending_serve h.idle hn m)

theorem portByteIn60_cons {s : Board} {data : u8} {rest : List u8} (h : s.scancodes = data :: rest) :
    s.portByteIn60 =
      (if rest = [] then { s with scancodes := rest, lastScancode := data }
        else { s with scancodes := rest, lastScancode := data }.edge 1, data) := by
  rw [portByteIn60, h]

-- When a byte still waits, the controller requests the next interrupt.
theorem Ready.handled_keyboard {s : Board} (h : s.Ready) {data : u8} {rest : List u8}
    (hdata : s.scancodes = data :: rest) :
    Handled s ({ s with pics := s.pics.serve 1 }.irqHandler (32 + (1 : Fin 16))) 1 := by
  have hready := h.served 1
  have hpending := pending_served h (n := 1) (by decide)
  have hregistered : s.interruptHandlers (32 + (1 : Fin 16)) = some .keyboardCallback := by
    rw [h.handlers]
    rfl
  rw [irqHandler_some (s := { s with pics := s.pics.serve 1 }) hregistered, call,
    portByteIn60_cons (s := { s with pics := (s.pics.serve 1).endOfInterrupt 1 }) hdata]
  by_cases hrest : rest = []
  · subst hrest
    rw [if_pos rfl]
    refine ⟨⟨hready.idle, hready.master, hready.slave, hready.handlers⟩, fun m _ ↦ hpending m, ?_, rfl,
      fun _ ↦ ⟨data, hdata, rfl⟩, fun h ↦ absurd rfl h⟩
    exact (hpending 1).trans (Bool.and_false _)
  · rw [if_neg hrest]
    have hedge := hready.edge (n := 1) (by decide)
    refine ⟨⟨hedge.idle, hedge.master, hedge.slave, hedge.handlers⟩, fun m hm ↦ ?_, ?_, rfl,
      fun _ ↦ ⟨data, hdata, rfl⟩, fun h ↦ absurd rfl h⟩
    · refine (Pics.pending_raise _ 1 m).trans ?_
      rw [decide_eq_false hm, Bool.or_false]
      exact hpending m
    · refine (Pics.pending_raise _ 1 1).trans ?_
      rw [decide_eq_true rfl, Bool.or_true]
      exact (decide_eq_true hrest).symm

-- The handler runs after the end of interrupt.
theorem Ready.handled {s : Board} (h : s.Ready)
    (hkeys : s.pics.pending 1 = decide (s.scancodes ≠ [])) {n : Fin 16} (hnext : s.pics.Next n) :
    Handled s ({ s with pics := s.pics.serve n }.irqHandler (32 + n)) n := by
  by_cases hkeyboard : n = 1
  · subst hkeyboard
    have hwaits : s.scancodes ≠ [] := of_decide_eq_true (hkeys.symm.trans hnext.pending)
    obtain ⟨data, rest, hdata⟩ := List.exists_cons_of_ne_nil hwaits
    exact h.handled_keyboard hdata
  have hready := h.served n
  have hpending := pending_served h hnext.ne
  have hkeyLine : ((s.pics.serve n).endOfInterrupt n).pending 1 = decide (s.scancodes ≠ []) := by
    rw [hpending, hkeys, decide_eq_true (Ne.symm hkeyboard), Bool.and_true]
  by_cases htimer : n = 0
  · subst htimer
    have hregistered : s.interruptHandlers (32 + (0 : Fin 16)) = some .timerCallback := by
      rw [h.handlers]
      rfl
    rw [irqHandler_some (s := { s with pics := s.pics.serve 0 }) hregistered, call]
    exact ⟨⟨hready.idle, hready.master, hready.slave, hready.handlers⟩, fun m _ ↦ hpending m, hkeyLine,
      rfl, fun h ↦ absurd h hkeyboard, fun _ ↦ ⟨rfl, rfl⟩⟩
  · have hregistered : s.interruptHandlers (32 + n) = none := by
      rw [h.handlers, registered_none htimer hkeyboard]
    rw [irqHandler_none (s := { s with pics := s.pics.serve n }) hregistered]
    exact ⟨hready, fun m _ ↦ hpending m, hkeyLine, (if_neg htimer).symm, fun h ↦ absurd h hkeyboard,
      fun _ ↦ ⟨rfl, rfl⟩⟩

end Board

/-! ## Whole runs -/

/-- The driver has come to `kbd` by taking the bytes `taken` in their order, with reads in between that
returned `returned`. -/
inductive Driven : (kbd : Keyboard) → (returned taken : List u8) → Prop
  | boot : Driven .boot [] []
  | key {kbd returned taken} (data : u8) (h : Driven kbd returned taken) :
      Driven (kbd.keyboardCallback data) returned (taken ++ [data])
  | read {kbd returned taken} (userBuf : Bytes) (count : u32) (h : Driven kbd returned taken) :
      Driven (kbd.keyboardRead userBuf count).1
        (returned ++ returnedBytes (kbd.keyboardRead userBuf count)) taken

/-- Everything requested has been served or still waits for it. -/
structure Watch.Tracks (s : Watch) : Prop where
  vectors : ∀ intNo ∈ s.served, ∃ n : Fin 16, n ≠ 2 ∧ intNo = 32 + n
  requests : ∀ n : Fin 16, n ≠ 1 → n ≠ 2 →
    s.served.count (32 + n.val) + (s.board.pics.pending n).toNat = s.requests.count n
  tick : s.board.tick = BitVec.ofNat 32 (s.served.count 32)
  keyLine : s.board.pics.pending 1 = decide (s.board.scancodes ≠ [])
  keyboard : ∃ taken, Driven s.board.keyboard s.returned taken ∧
    s.keys = taken ++ s.board.scancodes ∧ taken.length = s.served.count 33

namespace Watch

variable {s : Watch}

theorem pending_start (pics : Pics) (pit : Pit) (lastScancode : u8) (n : Fin 16) :
    (start pics pit lastScancode).board.pics.pending n = false := by
  rw [start, Board.setUp_eq]
  have hnone (k : Nat) : (0 : u8).getLsbD k = false := BitVec.getLsbD_zero
  by_cases hn : n.val < 8
  · exact (Pics.pending_of_lt _ hn).trans (hnone _)
  · exact (Pics.pending_of_ge _ hn).trans (hnone _)

theorem tracks_start (pics : Pics) (pit : Pit) (lastScancode : u8) :
    (start pics pit lastScancode).Tracks := by
  refine ⟨fun _ h ↦ absurd h List.not_mem_nil, fun n _ _ ↦ ?_, ?_, ?_, [], ?_, ?_, rfl⟩
  · rw [pending_start]
    rfl
  · rw [start, Board.setUp_eq]
    rfl
  · rw [pending_start, start, Board.setUp_eq]
    rfl
  · rw [start, Board.setUp_eq]
    exact .boot
  · rw [start, Board.setUp_eq]
    rfl

theorem Tracks.edge (h : s.Tracks) {n : Fin 16} (hkey : n ≠ 1) : (s.step (.edge n)).Tracks := by
  have hpending (m : Fin 16) : (s.step (.edge n)).board.pics.pending m =
      (s.board.pics.pending m || decide (m = n)) := Pics.pending_raise _ n m
  refine ⟨h.vectors, fun m hm hcascade ↦ ?_, h.tick, ?_, h.keyboard⟩
  · have hcount := h.requests m hm hcascade
    rw [hpending]
    change s.served.count (32 + m.val) + _ =
      List.count m (if s.board.pics.pending n then s.requests else s.requests ++ [n])
    by_cases hmn : m = n
    · subst hmn
      rw [decide_eq_true rfl, Bool.or_true]
      split
      · rename_i hwaits
        rwa [hwaits] at hcount
      · rename_i hfree
        rw [Bool.not_eq_true] at hfree
        rw [hfree] at hcount
        rw [List.count_append, List.count_singleton_self, ← hcount]
        rfl
    · rw [decide_eq_false hmn, Bool.or_false]
      split
      · exact hcount
      · rw [List.count_append, List.count_singleton, beq_eq_false_iff_ne.mpr (Ne.symm hmn)]
        exact hcount
  · rw [hpending, decide_eq_false (Ne.symm hkey), Bool.or_false]
    exact h.keyLine

theorem Tracks.key (h : s.Tracks) (data : u8) : (s.step (.key data)).Tracks := by
  have hfields : (s.step (.key data)).board.tick = s.board.tick ∧
      (s.step (.key data)).board.keyboard = s.board.keyboard ∧
      (s.step (.key data)).board.scancodes = s.board.scancodes ++ [data] := by
    rw [step, Board.key]
    dsimp only
    split <;> exact ⟨rfl, rfl, rfl⟩
  obtain ⟨htick, hkeyboard, hscancodes⟩ := hfields
  -- a byte that comes while others wait finds the line requested
  have hpending (m : Fin 16) : (s.step (.key data)).board.pics.pending m =
      (s.board.pics.pending m || decide (m = 1)) := by
    rw [step, Board.key]
    dsimp only
    split
    · exact Pics.pending_raise _ 1 m
    · rename_i hwaits
      by_cases hm : m = 1
      · subst hm
        rw [decide_eq_true rfl, Bool.or_true]
        exact h.keyLine.trans (decide_eq_true hwaits)
      · rw [decide_eq_false hm, Bool.or_false]
  obtain ⟨taken, hdriven, hkeys, hcount⟩ := h.keyboard
  refine ⟨h.vectors, fun m hm hcascade ↦ ?_, htick.trans h.tick, ?_, taken, ?_, ?_, hcount⟩
  · rw [hpending, decide_eq_false hm, Bool.or_false]
    exact h.requests m hm hcascade
  · rw [hpending, decide_eq_true rfl, Bool.or_true, hscancodes]
    exact (decide_eq_true (List.append_ne_nil_of_right_ne_nil _ (List.cons_ne_nil _ _))).symm
  · rw [hkeyboard]
    exact hdriven
  · rw [hscancodes, ← List.append_assoc, ← hkeys]
    rfl

theorem Tracks.read (h : s.Tracks) (userBuf : Bytes) (count : u32) :
    (s.step (.read userBuf count)).Tracks := by
  obtain ⟨taken, hdriven, hkeys, hcount⟩ := h.keyboard
  exact ⟨h.vectors, h.requests, h.tick, h.keyLine, taken, .read userBuf count hdriven, hkeys, hcount⟩

theorem Tracks.served {t : Watch} (h : s.Tracks) {n : Fin 16} (hnext : s.board.pics.Next n)
    (hhandled : s.board.Handled t.board n) (hserved : t.served = s.served ++ [32 + n.val])
    (hkeys : t.keys = s.keys) (hrequests : t.requests = s.requests)
    (hreturned : t.returned = s.returned) : t.Tracks := by
  have hcount (k : Nat) : t.served.count k = s.served.count k + if 32 + n.val = k then 1 else 0 := by
    rw [hserved, List.count_append, List.count_singleton]
    simp
  refine ⟨fun intNo hmem ↦ ?_, fun m hm hcascade ↦ ?_, ?_, hhandled.keyLine, ?_⟩
  · rw [hserved, List.mem_append, List.mem_singleton] at hmem
    rcases hmem with hold | rfl
    · exact h.vectors intNo hold
    · exact ⟨n, hnext.ne, rfl⟩
  · rw [hrequests, hcount, hhandled.pending m hm, ← h.requests m hm hcascade]
    by_cases hmn : m = n
    · subst hmn
      rw [if_pos rfl, hnext.pending, decide_eq_false (not_not.mpr rfl), Bool.and_false]
      rfl
    · rw [if_neg (fun heq ↦ hmn (Fin.ext (by omega))), decide_eq_true hmn, Bool.and_true, Nat.add_zero]
  · rw [hhandled.tick, hcount, h.tick]
    by_cases hn : n = 0
    · subst hn
      rw [if_pos rfl, if_pos (show 32 + (0 : Fin 16).val = 32 from rfl), BitVec.ofNat_add]
      rfl
    · rw [if_neg hn, if_neg (fun heq ↦ hn (Fin.ext (by omega))), Nat.add_zero]
  · obtain ⟨taken, hdriven, hbytes, hlength⟩ := h.keyboard
    rw [hcount, hkeys, hreturned]
    by_cases hn : n = 1
    · obtain ⟨data, hdata, hkeyboard⟩ := hhandled.keys hn
      refine ⟨taken ++ [data], ?_, ?_, ?_⟩
      · rw [hkeyboard]
        exact .key data hdriven
      · rw [hbytes, hdata, List.append_assoc]
        rfl
      · rw [List.length_append, hlength, hn]
        rfl
    · obtain ⟨hscancodes, hkeyboard⟩ := hhandled.others hn
      rw [hscancodes, hkeyboard, if_neg (fun heq ↦ hn (Fin.ext (by omega)))]
      exact ⟨taken, hdriven, hbytes, hlength⟩

theorem step_interrupt_none (h : s.board.pics.acknowledge = none) : s.step .interrupt = s := by
  rw [step, h]

theorem step_interrupt_some (hready : s.board.Ready) {n : Fin 16}
    (h : s.board.pics.acknowledge = some (s.board.pics.serve n, s.board.pics.vector n)) :
    s.step .interrupt =
      { s with
        board := { s.board with pics := s.board.pics.serve n }.irqHandler (32 + n)
        served := s.served ++ [32 + n.val] } := by
  rw [step, h, hready.vector]

/-- What holds between two events. -/
structure Inv (s : Watch) : Prop where
  ready : s.board.Ready
  tracks : s.Tracks

theorem Inv.interrupt (h : s.Inv) {n : Fin 16} (hnext : s.board.pics.Next n)
    (hack : s.board.pics.acknowledge = some (s.board.pics.serve n, s.board.pics.vector n)) :
    (s.step .interrupt).Inv := by
  have hhandled := h.ready.handled h.tracks.keyLine hnext
  rw [step_interrupt_some h.ready hack]
  exact ⟨hhandled.ready, h.tracks.served hnext hhandled rfl rfl rfl rfl⟩

theorem Inv.step (h : s.Inv) {event : BoardEvent} (hok : s.ok event) : (s.step event).Inv := by
  cases event with
  | edge n => exact ⟨h.ready.edge hok.2, h.tracks.edge hok.1⟩
  | key data =>
    refine ⟨?_, h.tracks.key data⟩
    rw [Watch.step, Board.key]
    dsimp only
    split
    · have hedge := h.ready.edge (n := 1) (by decide)
      exact ⟨hedge.idle, hedge.master, hedge.slave, hedge.handlers⟩
    · exact ⟨h.ready.idle, h.ready.master, h.ready.slave, h.ready.handlers⟩
  | interrupt =>
    rcases h.ready.idle.acknowledge_cases with ⟨hnone, -⟩ | ⟨n, hnext, hack⟩
    · rw [step_interrupt_none hnone]
      exact h
    · exact h.interrupt hnext hack
  | read userBuf count =>
    exact ⟨⟨h.ready.idle, h.ready.master, h.ready.slave, h.ready.handlers⟩, h.tracks.read userBuf count⟩

theorem inv_of_run {pics : Pics} {pit : Pit} {lastScancode : u8}
    (hrun : Run step ok (start pics pit lastScancode) s) : s.Inv :=
  hrun.inv Inv ⟨Board.ready_setUp rfl, tracks_start pics pit lastScancode⟩ fun _ _ h hok ↦ h.step hok

/-- In every run no request is lost and none is served twice, nothing stays in service, and whatever is
pending is served next by its rank. -/
theorem served_of_run {pics : Pics} {pit : Pit} {lastScancode : u8}
    (hrun : Run step ok (start pics pit lastScancode) s) :
    s.Tracks ∧ s.board.pics.master.isr = 0 ∧ s.board.pics.slave.isr = 0 ∧
      (s.board.pics.acknowledge = none ∧ (∀ n, s.board.pics.pending n = false) ∨
        ∃ n, s.board.pics.Next n ∧
          s.board.pics.acknowledge = some (s.board.pics.serve n, 32 + n.val)) := by
  have h := inv_of_run hrun
  refine ⟨h.tracks, h.ready.idle.master.isr, h.ready.idle.slave.isr, ?_⟩
  rcases h.ready.idle.acknowledge_cases with hnone | ⟨n, hnext, hack⟩
  · exact Or.inl hnone
  · exact Or.inr ⟨n, hnext, by rw [hack, h.ready.vector]⟩

/-- The controllers before anything has been written to them. -/
def powerOn : Pic where
  irr := 0
  isr := 0
  imr := 0
  base := 0
  cascade := 0
  autoEoi := false
  single := false
  needIcw4 := false
  phase := .ready

/-- The letter `a` is pressed and released before the CPU takes an interrupt, and then the disk asks
for one. -/
def letterPressed : Watch :=
  (((start ⟨powerOn, powerOn⟩ ⟨0, 0, false⟩ 0).step (.key 0x1E)).step (.key 0x9E)).step (.edge 14)

theorem run_letterPressed : Run step ok (start ⟨powerOn, powerOn⟩ ⟨0, 0, false⟩ 0) letterPressed :=
  .step (.step (.step .start trivial) trivial) ⟨by decide, by decide⟩

theorem served_letterPressed : (letterPressed.step .interrupt).Tracks ∧
    ∃ n, (letterPressed.step .interrupt).board.pics.Next n := by
  have hok : letterPressed.ok .interrupt := trivial
  have h := served_of_run (.step run_letterPressed hok)
  refine ⟨h.1, ?_⟩
  rcases h.2.2.2 with ⟨-, hnone⟩ | ⟨n, hnext, -⟩
  · exact absurd (hnone 14) (by decide +kernel)
  · exact ⟨n, hnext⟩

/-! ## Interrupts settle -/

/-- The bytes that wait in the controller and the requests of other devices. -/
def waiting (s : Watch) : Nat :=
  s.board.scancodes.length +
    (Finset.univ.filter fun n : Fin 16 ↦ n ≠ 1 ∧ s.board.pics.pending n).card

theorem Inv.waiting_interrupt (h : s.Inv) {n : Fin 16} (hnext : s.board.pics.Next n)
    (hack : s.board.pics.acknowledge = some (s.board.pics.serve n, s.board.pics.vector n)) :
    (s.step .interrupt).waiting + 1 = s.waiting := by
  have hhandled := h.ready.handled h.tracks.keyLine hnext
  rw [step_interrupt_some h.ready hack, waiting, waiting]
  dsimp only
  by_cases hn : n = 1
  · obtain ⟨data, hdata, -⟩ := hhandled.keys hn
    have hsame : (Finset.univ.filter fun m : Fin 16 ↦ m ≠ 1 ∧
        ({ s.board with pics := s.board.pics.serve n }.irqHandler (32 + n)).pics.pending m) =
        Finset.univ.filter fun m : Fin 16 ↦ m ≠ 1 ∧ s.board.pics.pending m := by
      refine Finset.filter_congr fun m _ ↦ and_congr_right fun hm ↦ ?_
      rw [hhandled.pending m hm, hn, decide_eq_true hm, Bool.and_true]
    have hlength := congrArg List.length hdata
    rw [List.length_cons] at hlength
    rw [hsame, hlength]
    omega
  · have herase : (Finset.univ.filter fun m : Fin 16 ↦ m ≠ 1 ∧
        ({ s.board with pics := s.board.pics.serve n }.irqHandler (32 + n)).pics.pending m) =
        (Finset.univ.filter fun m : Fin 16 ↦ m ≠ 1 ∧ s.board.pics.pending m).erase n := by
      ext m
      simp only [Finset.mem_erase, Finset.mem_filter, Finset.mem_univ, true_and]
      by_cases hm : m = 1
      · simp [hm]
      · simp [hhandled.pending m hm, hm, and_comm]
    have hmem : n ∈ Finset.univ.filter fun m : Fin 16 ↦ m ≠ 1 ∧ s.board.pics.pending m := by
      simp [hn, hnext.pending]
    rw [herase, (hhandled.others hn).1, Nat.add_assoc, Finset.card_erase_add_one hmem]

theorem Inv.waiting_eq_zero (h : s.Inv) (hnone : ∀ n, s.board.pics.pending n = false) :
    s.waiting = 0 := by
  have hempty : s.board.scancodes = [] := by
    have hkey := h.tracks.keyLine
    rw [hnone] at hkey
    exact not_not.mp (of_decide_eq_false hkey.symm)
  rw [waiting, hempty]
  simp [hnone]

theorem step_interrupt_frame (hready : s.board.Ready) {n : Fin 16}
    (hack : s.board.pics.acknowledge = some (s.board.pics.serve n, s.board.pics.vector n)) :
    (s.step .interrupt).keys = s.keys ∧ (s.step .interrupt).requests = s.requests ∧
      (s.step .interrupt).returned = s.returned ∧
      (s.step .interrupt).served.length = s.served.length + 1 := by
  rw [step_interrupt_some hready hack]
  exact ⟨rfl, rfl, rfl, List.length_append⟩

/-- The state after `k` interrupts. -/
def interrupts (s : Watch) (k : Nat) : Watch := (List.replicate k BoardEvent.interrupt).foldl step s

/-- Every request has been served. -/
structure Settled (s t : Watch) : Prop where
  inv : t.Inv
  quiet : t.board.pics.acknowledge = none
  idle : ∀ n, t.board.pics.pending n = false
  keys : t.keys = s.keys
  requests : t.requests = s.requests
  returned : t.returned = s.returned
  taken : t.served.length = s.served.length + s.waiting

-- Induction on what is waiting, which every interrupt makes one less.
theorem Inv.settled {k : Nat} (h : s.Inv) (hk : s.waiting = k) : Settled s (s.interrupts k) := by
  induction k generalizing s with
  | zero =>
    rcases h.ready.idle.acknowledge_cases with ⟨hnone, hidle⟩ | ⟨n, hnext, hack⟩
    · exact ⟨h, hnone, hidle, rfl, rfl, rfl, by rw [hk]; rfl⟩
    · have hless := h.waiting_interrupt hnext hack
      omega
  | succ k ih =>
    rcases h.ready.idle.acknowledge_cases with ⟨-, hidle⟩ | ⟨n, hnext, hack⟩
    · have hzero := h.waiting_eq_zero hidle
      omega
    · have hless := h.waiting_interrupt hnext hack
      obtain ⟨hkeys, hrequests, hreturned, htaken⟩ := step_interrupt_frame h.ready hack
      have hrest := ih (h.interrupt hnext hack) (by omega)
      have hstep : s.interrupts (k + 1) = (s.step .interrupt).interrupts k := rfl
      rw [hstep]
      refine ⟨hrest.inv, hrest.quiet, hrest.idle, hrest.keys.trans hkeys, hrest.requests.trans hrequests,
        hrest.returned.trans hreturned, ?_⟩
      rw [hrest.taken, htaken]
      omega

/-- From every state reached, as many interrupts as there are bytes and requests waiting bring the
pair to rest: the keyboard driver has then taken every byte, and every request has been served. -/
theorem settled_of_run {pics : Pics} {pit : Pit} {lastScancode : u8}
    (hrun : Run step ok (start pics pit lastScancode) s) :
    (s.interrupts s.waiting).board.pics.acknowledge = none ∧
      (s.interrupts s.waiting).served.length = s.served.length + s.waiting ∧
      Driven (s.interrupts s.waiting).board.keyboard s.returned s.keys ∧
      (s.interrupts s.waiting).board.tick = BitVec.ofNat 32 (s.requests.count 0) ∧
      ∀ n : Fin 16, n ≠ 1 → n ≠ 2 →
        (s.interrupts s.waiting).served.count (32 + n.val) = s.requests.count n := by
  have h := (inv_of_run hrun).settled rfl
  have htracks := h.inv.tracks
  have hcount (n : Fin 16) (hn : n ≠ 1) (hcascade : n ≠ 2) :
      (s.interrupts s.waiting).served.count (32 + n.val) = s.requests.count n := by
    have hrequests := htracks.requests n hn hcascade
    rw [h.idle, h.requests] at hrequests
    exact hrequests
  refine ⟨h.quiet, h.taken, ?_, ?_, hcount⟩
  · obtain ⟨taken, hdriven, hkeys, -⟩ := htracks.keyboard
    have hempty : (s.interrupts s.waiting).board.scancodes = [] := by
      have hkey := htracks.keyLine
      rw [h.idle] at hkey
      exact not_not.mp (of_decide_eq_false hkey.symm)
    rw [hempty, List.append_nil, h.keys] at hkeys
    rw [hkeys, ← h.returned]
    exact hdriven
  · rw [htracks.tick]
    exact congrArg (BitVec.ofNat 32) (hcount 0 (by decide) (by decide))

theorem settled_letterPressed : letterPressed.waiting = 3 ∧
    (letterPressed.interrupts 3).board.pics.acknowledge = none ∧
    Driven (letterPressed.interrupts 3).board.keyboard [] [0x1E, 0x9E] := by
  have hwaiting : letterPressed.waiting = 3 := by decide +kernel
  obtain ⟨hquiet, -, hdriven, -⟩ := settled_of_run run_letterPressed
  rw [hwaiting] at hquiet hdriven
  exact ⟨hwaiting, hquiet, hdriven⟩

end Watch

end TenOs.Cpu
