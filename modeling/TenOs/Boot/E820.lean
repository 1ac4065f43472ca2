import TenOs.Kernel.MemoryMap
import TenOs.Lib.Ascii
import TenOs.X86.Machine

/-!
# `boot/memory.asm`: the BIOS memory map

`BiosGetMemoryMap`, label by label, as `stage2_main` calls it, with the answers of the BIOS one
after the other.  All segments are 0.  The entries go to `0x7E00`; `stage2_main` has its stack below
`0x9000`, and a call of the BIOS has 40 bytes on it: the return address, what `pushad` has stored,
and the three words of the interrupt.
-/

namespace TenOs.Boot

open TenOs.Base TenOs.Lib TenOs.Kernel

/-! ## The code -/

/-- `'PAMS'` -/
abbrev SMAP : u32 := 0x534D4150

/-- What the BIOS returns: the registers, and the bytes that it has stored at `es:di`. -/
structure E820Response where
  carry : Bool
  eax : u32
  ebx : u32
  ecx : u32
  edx : u32
  data : List u8

structure E820Call where
  eax : u32
  ebx : u32
  ecx : u32
  edx : u32
  di : u16

/-- `mmapLength` is the double word at `mmap_length`, and `calls` what the BIOS was asked. -/
structure BootState where
  eax : u32
  ebx : u32
  ecx : u32
  edx : u32
  di : u16
  bp : u16
  mem : Bytes
  mmapLength : u32
  calls : List E820Call

namespace BootState

def int15 (r : E820Response) (s : BootState) : BootState :=
  { s with
    eax := r.eax, ebx := r.ebx, ecx := r.ecx, edx := r.edx
    mem := storeAt s.mem s.di.toNat r.data
    calls := s.calls ++ [⟨s.eax, s.ebx, s.ecx, s.edx, s.di⟩] }

def goodEntry (s : BootState) : BootState := { s with bp := s.bp + 1, di := s.di + 24 }

/-- `.start`, up to `.skip_entry`: `jcxz` skips an answer without bytes, and the length of the entry
goes through `ecx`. -/
def start (s : BootState) : BootState :=
  if s.ecx.setWidth 16 = 0#16 then s
  else
    let s := { s with ecx := read32 s.mem (s.di + 8).toNat }
    if s.ecx ≠ 0 then s.goodEntry
    else
      let s := { s with ecx := read32 s.mem (s.di + 12).toNat }
      if s.ecx = 0 then s else s.goodEntry

/-- The registers of every later call; `ebx` is what the last one has left. -/
def request (s : BootState) : BootState := { s with edx := SMAP, ecx := 24, eax := 0xE820 }

/-- `.next_entry`, and the end of the loop at `.skip_entry`; `none` when the answers are used up. -/
def nextEntry : List E820Response → BootState → Option BootState
  | [], _ => none
  | r :: rs, s =>
      let s := (s.request.int15 r).start
      if s.ebx ≠ 0 then nextEntry rs s else some s

/-- `.done`: the lower half of `mmap_length` is `bp * 24`; `popad` undoes what `mul` has changed. -/
def done (s : BootState) : BootState :=
  { s with mmapLength := X86.setLow16 s.mmapLength (s.bp * 24) }

/-- `popad` after the code that has led from `s` to `t`. -/
def popad (s t : BootState) : BootState :=
  { t with eax := s.eax, ebx := s.ebx, ecx := s.ecx, edx := s.edx, di := s.di, bp := s.bp }

/-- `BiosGetMemoryMap`; the first answer has checks of its own, and only there is the carry flag
read. -/
def biosGetMemoryMap (rs : List E820Response) (s : BootState) : Option BootState :=
  match rs with
  | [] => none
  | r :: rs =>
      let t : BootState := (request { s with ebx := 0, bp := 0 }).int15 r
      if r.carry ∨ t.eax ≠ SMAP ∨ t.ebx = 0 then some (popad s t.done)
      else
        let t := t.start
        if t.ebx ≠ 0 then (nextEntry rs t).map fun t ↦ popad s t.done
        else some (popad s t.done)

end BootState

structure BootInfo where
  mmapLength : u32
  mmapAddr : u32

/-- The lines of `stage2_main` about the map; `mmap_length` and `boot_info` are zero in the
image. -/
def stage2MemoryMap (rs : List E820Response) (s : BootState) : Option (BootState × BootInfo) :=
  (BootState.biosGetMemoryMap rs
      { s with eax := 0, di := 0x7E00, mmapLength := 0, calls := [] }).map
    fun t ↦ (t, ⟨t.mmapLength, X86.setLow16 0 t.di⟩)

/-- `struct memory_region` at `a`; the kernel does not read the last of its six fields. -/
def regionAt (mem : Bytes) (a : Nat) : MemoryRegion :=
  ⟨read32 mem a, read32 mem (a + 4), read32 mem (a + 8), read32 mem (a + 12), read32 mem (a + 16)⟩

/-- The array that `main` takes from `boot_info`. -/
def BootInfo.regions (info : BootInfo) (mem : Bytes) : List MemoryRegion :=
  (List.range (info.mmapLength / 24).toNat).map fun i ↦ regionAt mem (info.mmapAddr.toNat + 24 * i)

/-! ## What is to be recorded -/

namespace E820Response

def bytes (r : E820Response) : Bytes := fun j ↦ r.data.getD j 0

def length (r : E820Response) : BitVec 64 := read32 r.bytes 12 ++ read32 r.bytes 8

/-- The entry as the kernel has it. -/
def region (r : E820Response) : MemoryRegion := regionAt r.bytes 0

/-- What is documented of a call that succeeds: the signature, and the number of bytes, of which
there are at least 20 if any and no more than were asked for. -/
structure Documented (r : E820Response) : Prop where
  eax : r.eax = SMAP
  ecx : r.ecx.toNat = r.data.length
  least : r.data ≠ [] → 20 ≤ r.data.length
  most : r.data.length ≤ 24

def IsLast (r : E820Response) : Prop := r.ebx = 0 ∨ r.carry = true

end E820Response

/-- The list ends with its last answer and not before. -/
def Ends : List E820Response → Prop
  | [] => False
  | [r] => r.IsLast
  | r :: r' :: rs => ¬ r.IsLast ∧ Ends (r' :: rs)

structure Answers (rs : List E820Response) : Prop where
  documented : ∀ r ∈ rs, r.carry = false → r.Documented
  ends : Ends rs

/-- The entries that were returned with a length other than 0. -/
def entries (rs : List E820Response) : List E820Response :=
  rs.filter fun r ↦ !r.carry && decide (r.length ≠ 0)

/-- `l` is in the buffer, and the buffer ends where the stack begins. -/
structure Recorded (l : List E820Response) (r : BootState × BootInfo) : Prop where
  length : r.2.mmapLength.toNat = 24 * l.length
  addr : r.2.mmapAddr = 0x7E00
  entry : ∀ i e, l[i]? = some e → ∀ j < e.data.length,
    r.1.mem (0x7E00 + 24 * i + j) = e.bytes j
  inside : ∀ call ∈ r.1.calls, call.di.toNat + 24 ≤ 0x9000 - 40

/-! ## One answer -/

namespace E820Response

variable {r : E820Response}

theorem length_eq_zero_iff : r.length = 0 ↔ read32 r.bytes 8 = 0 ∧ read32 r.bytes 12 = 0 := by
  have hsplit : r.length.toNat = (read32 r.bytes 12).toNat * 2 ^ 32 + (read32 r.bytes 8).toNat :=
    toNat_append_eq _ _
  have hzero {w : Nat} (v : BitVec w) : v = 0 ↔ v.toNat = 0 := BitVec.toNat_inj.symm
  rw [hzero, hzero, hzero, hsplit]
  omega

-- An answer without bytes has length 0.
theorem twenty_le_of_length (h : r.Documented) (hlength : r.length ≠ 0) : 20 ≤ r.data.length := by
  refine h.least fun hdata ↦ hlength (length_eq_zero_iff.mpr ?_)
  have hbytes : r.bytes = fun _ ↦ 0 := by
    funext j
    rw [bytes, hdata]
    rfl
  rw [hbytes]
  exact ⟨rfl, rfl⟩

end E820Response

namespace BootState

variable {s : BootState} {r : E820Response} {l : List E820Response}

/-- The code between `.start` and `.skip_entry` counts the entry. -/
def Counts (s : BootState) : Prop :=
  s.ecx.setWidth 16 ≠ 0#16 ∧
    ¬ (read32 s.mem (s.di + 8).toNat = 0 ∧ read32 s.mem (s.di + 12).toNat = 0)

theorem start_of_counts (h : s.Counts) :
    ∃ ecx, s.start = { s with ecx, bp := s.bp + 1, di := s.di + 24 } := by
  unfold start
  rw [if_neg h.1]
  by_cases hlow : read32 s.mem (s.di + 8).toNat = 0
  · have hhigh : read32 s.mem (s.di + 12).toNat ≠ 0 := fun heq ↦ h.2 ⟨hlow, heq⟩
    exact ⟨_, (if_neg (not_not.mpr hlow)).trans (if_neg hhigh)⟩
  · exact ⟨_, if_pos hlow⟩

theorem start_of_not_counts (h : ¬ s.Counts) : ∃ ecx, s.start = { s with ecx } := by
  unfold start
  by_cases hcx : s.ecx.setWidth 16 = 0#16
  · exact ⟨s.ecx, if_pos hcx⟩
  · obtain ⟨hlow, hhigh⟩ := not_not.mp fun hne ↦ h ⟨hcx, hne⟩
    rw [if_neg hcx]
    exact ⟨_, (if_neg (not_not.mpr hlow)).trans (if_pos hhigh)⟩

theorem start_ebx (s : BootState) : s.start.ebx = s.ebx := by
  by_cases h : s.Counts
  · obtain ⟨ecx, hstart⟩ := start_of_counts h
    rw [hstart]
  · obtain ⟨ecx, hstart⟩ := start_of_not_counts h
    rw [hstart]

/-- `l` is in the buffer, and all that the BIOS was called for so far is. -/
structure Loaded (l : List E820Response) (s : BootState) : Prop where
  di : s.di.toNat = 0x7E00 + 24 * l.length
  bp : s.bp.toNat = l.length
  size : ∀ e ∈ l, e.data.length ≤ 24
  entry : ∀ i e, l[i]? = some e → ∀ j < e.data.length, s.mem (0x7E00 + 24 * i + j) = e.bytes j
  inside : ∀ call ∈ s.calls, call.di.toNat + 24 ≤ 0x9000 - 40

abbrev Room (n : Nat) : Prop := 0x7E00 + 24 * (n + 1) ≤ 0x9000 - 40

theorem entries_singleton (r : E820Response) :
    entries [r] = if r.carry = false ∧ r.length ≠ 0 then [r] else [] := by
  unfold entries
  rw [List.filter_singleton]
  simp

-- The bytes of the answer are at `di`.
theorem int15_mem (hdi : s.di.toNat = 0x7E00 + 24 * l.length) {j : Nat} (hj : j < r.data.length) :
    (s.request.int15 r).mem (0x7E00 + 24 * l.length + j) = r.bytes j := by
  change storeAt s.mem s.di.toNat r.data (0x7E00 + 24 * l.length + j) = r.data.getD j 0
  rw [storeAt, hdi, if_pos (Nat.le_add_right _ _), Nat.add_sub_cancel_left,
    List.getElem?_eq_getElem hj, Option.getD_some, List.getD_eq_getElem _ _ hj]

-- The entry is counted when its length is not 0.
theorem counts_iff (h : Loaded l s) (hdoc : r.Documented) (hroom : Room l.length) :
    (s.request.int15 r).Counts ↔ r.length ≠ 0 := by
  have hsize := hdoc.ecx
  have hdi := h.di
  rw [ne_eq, E820Response.length_eq_zero_iff]
  by_cases hdata : r.data = []
  · have hcx : r.ecx.setWidth 16 = 0#16 := by
      have hzero : r.ecx = 0 := BitVec.eq_of_toNat_eq (by rw [hsize, hdata]; rfl)
      rw [hzero]
      rfl
    have hbytes : r.bytes = fun _ ↦ 0 := by
      funext j
      rw [E820Response.bytes, hdata]
      rfl
    rw [hbytes]
    exact iff_of_false (fun hcounts ↦ hcounts.1 hcx) (not_not.mpr ⟨rfl, rfl⟩)
  · have hleast := hdoc.least hdata
    have hmost := hdoc.most
    have hcx : r.ecx.setWidth 16 ≠ 0#16 := by
      rw [ne_eq, ← BitVec.toNat_inj, BitVec.toNat_setWidth]
      change ¬ r.ecx.toNat % 2 ^ 16 = 0
      omega
    have hread {k : u16} (hk : k.toNat = 8 ∨ k.toNat = 12) :
        read32 (s.request.int15 r).mem ((s.request.int15 r).di + k).toNat =
          read32 r.bytes k.toNat := by
      have haddr : (s.di + k).toNat = 0x7E00 + 24 * l.length + k.toNat := by
        rw [BitVec.toNat_add, hdi]
        omega
      change read32 _ (s.di + k).toNat = _
      rw [haddr]
      refine read32_shift fun j hj ↦ ?_
      rw [Nat.add_assoc]
      exact int15_mem hdi (by omega)
    unfold Counts
    rw [hread (Or.inl rfl), hread (Or.inr rfl)]
    exact and_iff_right hcx

-- The answer comes behind the entries, whatever it is.
theorem Loaded.int15 (h : Loaded l s) (r : E820Response) (hroom : Room l.length) :
    Loaded l (s.request.int15 r) := by
  have hdi := h.di
  refine ⟨hdi, h.bp, h.size, fun i e he j hj ↦ ?_, fun call hcall ↦ ?_⟩
  · have hi := (List.getElem?_eq_some_iff.mp he).1
    have hsize := h.size e (List.mem_of_getElem? he)
    rw [← h.entry i e he j hj]
    exact if_neg (by change ¬ s.di.toNat ≤ _; omega)
  · rcases List.mem_append.mp hcall with hold | hnew
    · exact h.inside call hold
    · rw [List.mem_singleton.mp hnew]
      change s.di.toNat + 24 ≤ 0x9000 - 40
      omega

/-- An answer without the carry flag is added to the buffer when its length is not 0. -/
theorem Loaded.turn (h : Loaded l s) (hdoc : r.Documented) (hok : r.carry = false)
    (hroom : Room l.length) :
    let t := (s.request.int15 r).start
    Loaded (l ++ entries [r]) t ∧ t.ebx = r.ebx ∧ t.mmapLength = s.mmapLength := by
  have hdi := h.di
  have ht := h.int15 r hroom
  have hcounts := counts_iff h hdoc hroom
  rw [entries_singleton]
  by_cases hlength : r.length = 0
  · obtain ⟨ecx, hstart⟩ := start_of_not_counts fun hc ↦ hcounts.mp hc hlength
    rw [if_neg fun hc ↦ hc.2 hlength, List.append_nil, hstart]
    exact ⟨⟨ht.di, ht.bp, ht.size, ht.entry, ht.inside⟩, rfl, rfl⟩
  · obtain ⟨ecx, hstart⟩ := start_of_counts (hcounts.mpr hlength)
    rw [if_pos ⟨hok, hlength⟩, hstart]
    refine ⟨⟨?_, ?_, fun e he ↦ ?_, fun i e he j hj ↦ ?_, ht.inside⟩, rfl, rfl⟩
    · change (s.di + 24).toNat = _
      rw [BitVec.toNat_add, hdi, List.length_append, List.length_singleton]
      change (_ + 24) % 2 ^ 16 = _
      omega
    · change (s.bp + 1).toNat = _
      rw [BitVec.toNat_add, h.bp, List.length_append, List.length_singleton]
      change (_ + 1) % 2 ^ 16 = _
      omega
    · rcases List.mem_append.mp he with hold | hnew
      · exact h.size e hold
      · rw [List.mem_singleton.mp hnew]
        exact hdoc.most
    · by_cases hi : i < l.length
      · rw [List.getElem?_append_left hi] at he
        exact ht.entry i e he j hj
      · -- the new entry
        rw [List.getElem?_append_right (by omega), List.getElem?_singleton] at he
        by_cases hzero : i - l.length = 0
        · rw [if_pos hzero, Option.some.injEq] at he
          rw [← he] at hj ⊢
          rw [show i = l.length by omega]
          exact int15_mem hdi hj
        · rw [if_neg hzero] at he
          cases he

/-! ## All answers -/

theorem entries_cons (r : E820Response) (rs : List E820Response) :
    entries (r :: rs) = entries [r] ++ entries rs :=
  List.filter_append [r] rs

theorem entries_length_le (rs : List E820Response) :
    (entries rs).length ≤ (entries rs.dropLast).length + 1 := by
  rcases List.eq_nil_or_concat rs with rfl | ⟨front, r, rfl⟩
  · exact Nat.zero_le _
  · have hone : (entries [r]).length ≤ 1 := List.length_filter_le _ _
    rw [List.concat_eq_append, List.dropLast_concat, entries, List.filter_append,
      List.length_append]
    exact Nat.add_le_add_left hone _

-- The later calls: induction on the answers, of which only the last has a continuation of 0.
theorem Loaded.nextEntry {rs : List E820Response} (h : Loaded l s)
    (hdoc : ∀ r ∈ rs, r.carry = false → r.Documented) (hok : ∀ r ∈ rs, r.carry = false)
    (hends : Ends rs) (hroom : Room (l.length + (entries rs.dropLast).length)) :
    ∃ t, nextEntry rs s = some t ∧ Loaded (l ++ entries rs) t ∧ t.mmapLength = s.mmapLength := by
  induction rs generalizing l s with
  | nil => exact hends.elim
  | cons r rs ih =>
    have hcarry := hok r List.mem_cons_self
    have hfree : Room l.length := by
      unfold Room at hroom ⊢
      omega
    obtain ⟨hturn, hebx, hlength⟩ := h.turn (hdoc r List.mem_cons_self hcarry) hcarry hfree
    unfold BootState.nextEntry
    dsimp only
    rw [hebx]
    cases rs with
    | nil =>
      have hzero : r.ebx = 0 := hends.resolve_right (by rw [hcarry]; exact Bool.false_ne_true)
      exact ⟨_, if_neg (not_not.mpr hzero), hturn, hlength⟩
    | cons r' rs =>
      have hsplit := entries_cons r (r' :: rs).dropLast
      have hrest : Room ((l ++ entries [r]).length + (entries (r' :: rs).dropLast).length) := by
        rw [List.dropLast_cons_cons, hsplit, List.length_append] at hroom
        rw [List.length_append]
        unfold Room at hroom ⊢
        omega
      obtain ⟨t, hrun, hloaded, hkept⟩ := ih hturn (fun e he ↦ hdoc e (List.mem_cons_of_mem r he))
        (fun e he ↦ hok e (List.mem_cons_of_mem r he)) hends.2 hrest
      rw [if_pos fun hzero ↦ hends.1 (Or.inl hzero)]
      refine ⟨t, hrun, ?_, hkept.trans hlength⟩
      rw [entries_cons, ← List.append_assoc]
      exact hloaded

-- Without a continuation of 0 the loop goes on, also when a call has failed.
theorem nextEntry_eq_none {rs : List E820Response} (h : ∀ r ∈ rs, r.ebx ≠ 0) (s : BootState) :
    nextEntry rs s = none := by
  induction rs generalizing s with
  | nil => rfl
  | cons r rs ih =>
    have hebx : (s.request.int15 r).start.ebx ≠ 0 := by
      rw [start_ebx]
      exact h r List.mem_cons_self
    exact (if_pos hebx).trans (ih (fun e he ↦ h e (List.mem_cons_of_mem r he)) _)

-- A first answer that does not end the list leads into the loop.
theorem biosGetMemoryMap_cons (hdoc : r.Documented) (hmore : ¬ r.IsLast) (rs : List E820Response)
    (s : BootState) :
    biosGetMemoryMap (r :: rs) s =
      (nextEntry rs ((request { s with ebx := 0, bp := 0 }).int15 r).start).map
        fun t ↦ popad s t.done := by
  have hebx : r.ebx ≠ 0 := fun h ↦ hmore (Or.inl h)
  have hgo : ¬ (r.carry = true ∨ r.eax ≠ SMAP ∨ r.ebx = 0) := by
    rintro (hfail | hsignature | hsingle)
    · exact hmore (Or.inr hfail)
    · exact hsignature hdoc.eax
    · exact hebx hsingle
  have hturn : ((request { s with ebx := 0, bp := 0 }).int15 r).start.ebx ≠ 0 := by
    rw [start_ebx]
    exact hebx
  exact (if_neg hgo).trans (if_pos hturn)

-- What `.done` and `stage2_main` make of a loaded buffer.
theorem Loaded.recorded {t : BootState} (h : Loaded l t) (hlength : t.mmapLength = 0)
    (hsmall : l.length ≤ 190) (hdi : s.di = 0x7E00) :
    Recorded l
      (popad s t.done, ⟨(popad s t.done).mmapLength, X86.setLow16 0 (popad s t.done).di⟩) := by
  have hlow (v : u16) : X86.setLow16 0 v = v.setWidth 32 := by
    simp [X86.setLow16]
  refine ⟨?_, ?_, h.entry, h.inside⟩
  · change (X86.setLow16 t.mmapLength (t.bp * 24)).toNat = _
    rw [hlength, hlow, BitVec.toNat_setWidth, BitVec.toNat_mul, h.bp]
    change l.length * 24 % 2 ^ 16 % 2 ^ 32 = _
    rw [Nat.mod_eq_of_lt (show l.length * 24 < 2 ^ 16 by omega), Nat.mod_eq_of_lt (by omega),
      Nat.mul_comm]
  · change X86.setLow16 0 s.di = _
    rw [hlow, hdi]
    rfl

end BootState

/-! ## Every list of answers -/

/-- What the code means to record: a list of one entry is an error to it. -/
def recordable : List E820Response → List E820Response
  | [_] => []
  | rs => entries rs

open BootState

/-- A call that fails later is not seen: without a continuation of 0 the map is never finished. -/
theorem stage2MemoryMap_eq_none {r : E820Response} {rs : List E820Response} (s : BootState)
    (hdoc : r.Documented) (hmore : ¬ r.IsLast) (hrest : ∀ e ∈ rs, e.ebx ≠ 0) :
    stage2MemoryMap (r :: rs) s = none := by
  have hrun (call : BootState) : biosGetMemoryMap (r :: rs) call = none := by
    rw [biosGetMemoryMap_cons hdoc hmore, nextEntry_eq_none hrest]
    rfl
  exact congrArg _ (hrun _)

theorem answers_append {front : List E820Response} {last : E820Response}
    (hfront : ∀ r ∈ front, r.Documented ∧ ¬ r.IsLast) (hlast : last.carry = false → last.Documented)
    (hend : last.IsLast) : Answers (front ++ [last]) := by
  refine ⟨fun r hr hcarry ↦ ?_, ?_⟩
  · rcases List.mem_append.mp hr with hold | hnew
    · exact (hfront r hold).1
    · rw [List.mem_singleton.mp hnew] at hcarry ⊢
      exact hlast hcarry
  · induction front with
    | nil => exact hend
    | cons r front ih =>
      have hmore := (hfront r List.mem_cons_self).2
      have hrest := ih fun e he ↦ hfront e (List.mem_cons_of_mem r he)
      cases front with
      | nil => exact ⟨hmore, hrest⟩
      | cons r' front => exact ⟨hmore, hrest⟩

def sample (length : u8) (ebx : u32) : E820Response :=
  ⟨false, SMAP, ebx, 24, SMAP, List.replicate 8 0 ++ [length] ++ List.replicate 15 0⟩

/-- A call that fails and leaves the continuation as it was. -/
def failed : E820Response := ⟨true, 0x8600, 1, 24, SMAP, []⟩

def blank : BootState := ⟨0, 0, 0, 0, 0, 0, fun _ ↦ 0, 0, []⟩

theorem sample_documented (length : u8) (ebx : u32) : (sample length ebx).Documented :=
  ⟨rfl, rfl, fun _ ↦ Nat.le_add_left 20 4, Nat.le_refl 24⟩

theorem not_isLast_sample (length : u8) : ¬ (sample length 1).IsLast :=
  not_or.mpr ⟨(by decide : (1 : u32) ≠ 0), Bool.false_ne_true⟩

theorem answers_sample {front : List E820Response} (h : ∀ r ∈ front, ∃ n, r = sample n 1) (n : u8) :
    Answers (front ++ [sample n 0]) := by
  refine answers_append (fun r hr ↦ ?_) (fun _ ↦ sample_documented n 0) (Or.inl rfl)
  obtain ⟨m, rfl⟩ := h r hr
  exact ⟨sample_documented m 1, not_isLast_sample m⟩

/-- When no call but the first fails and the buffer holds the entries, the map is recorded. -/
theorem stage2MemoryMap_records {rs : List E820Response} (s : BootState) (h : Answers rs)
    (hok : ∀ r ∈ rs.tail, r.carry = false) (hroom : Room (entries rs.dropLast).length) :
    ∃ r, stage2MemoryMap rs s = some r ∧ Recorded (recordable rs) r := by
  have hdoc := h.documented
  have hends := h.ends
  let call : BootState := { s with eax := 0, di := 0x7E00, mmapLength := 0, calls := [] }
  let first : BootState := { call with ebx := 0, bp := 0 }
  have hfirst : Loaded [] first :=
    ⟨rfl, rfl, fun e he ↦ absurd he List.not_mem_nil, fun i e he ↦ (by cases he),
      fun c hc ↦ absurd hc List.not_mem_nil⟩
  have hstart : Room 0 := by
    unfold Room
    decide
  cases rs with
  | nil => exact hends.elim
  | cons r rs =>
    cases rs with
    | nil =>
      -- the call fails, or it returns the only entry
      have hexit : r.carry = true ∨ r.eax ≠ SMAP ∨ r.ebx = 0 :=
        hends.elim (fun hzero ↦ Or.inr (Or.inr hzero)) Or.inl
      have hrun : biosGetMemoryMap [r] call = some (popad call (first.request.int15 r).done) :=
        if_pos hexit
      exact ⟨_, congrArg _ hrun, (hfirst.int15 r hstart).recorded rfl (Nat.zero_le _) rfl⟩
    | cons r' rs =>
      have hcarry : r.carry = false := Bool.eq_false_of_not_eq_true fun h ↦ hends.1 (Or.inr h)
      have hone := hdoc r List.mem_cons_self hcarry
      have hlast := entries_length_le (r :: r' :: rs)
      have hsplit := entries_cons r (r' :: rs).dropLast
      rw [List.dropLast_cons_cons, hsplit, List.length_append] at hroom hlast
      obtain ⟨hturn, -, hlength⟩ := hfirst.turn hone hcarry hstart
      obtain ⟨t, hnext, hloaded, hlength'⟩ := hturn.nextEntry
        (fun e he ↦ hdoc e (List.mem_cons_of_mem r he)) hok hends.2 hroom
      have hrun : biosGetMemoryMap (r :: r' :: rs) call = some (popad call t.done) := by
        rw [biosGetMemoryMap_cons hone hends.1, hnext]
        rfl
      rw [List.nil_append, ← entries_cons] at hloaded
      refine ⟨_, congrArg _ hrun, hloaded.recorded (hlength'.trans hlength) ?_ rfl⟩
      unfold Room at hroom
      omega

-- three answers, the second of which has length 0
theorem stage2MemoryMap_records_three :
    Answers [sample 5 1, sample 0 1, sample 7 0] ∧
      ∃ r, stage2MemoryMap [sample 5 1, sample 0 1, sample 7 0] blank = some r ∧
        Recorded (recordable [sample 5 1, sample 0 1, sample 7 0]) r := by
  have h : Answers ([sample 5 1, sample 0 1] ++ [sample 7 0]) := by
    refine answers_sample ?_ 7
    rw [List.forall_mem_cons, List.forall_mem_singleton]
    exact ⟨⟨5, rfl⟩, ⟨0, rfl⟩⟩
  refine ⟨h, stage2MemoryMap_records blank h ?_ ?_⟩
  · rw [List.tail_cons, List.forall_mem_cons, List.forall_mem_singleton]
    exact ⟨rfl, rfl⟩
  · unfold Room
    decide +kernel

-- A single entry, a call that fails behind an entry, and more entries than there is room for.  The last
-- of these is refused only by `Recorded.inside`: the buffer has the entries, but a slot reaches the stack.
theorem stage2MemoryMap_not_entries :
    (Answers [sample 1 0] ∧
      ¬ ∃ r, stage2MemoryMap [sample 1 0] blank = some r ∧ Recorded (entries [sample 1 0]) r) ∧
    (Answers [sample 1 1, failed] ∧ stage2MemoryMap [sample 1 1, failed] blank = none) ∧
    (Answers (List.replicate 190 (sample 1 1) ++ [sample 1 0]) ∧
      ¬ ∃ r, stage2MemoryMap (List.replicate 190 (sample 1 1) ++ [sample 1 0]) blank = some r ∧
        Recorded (entries (List.replicate 190 (sample 1 1) ++ [sample 1 0])) r) := by
  have hfailed : Answers ([sample 1 1] ++ [failed]) := by
    refine answers_append ?_ (fun h ↦ (by cases h)) (Or.inr rfl)
    rw [List.forall_mem_singleton]
    exact ⟨sample_documented 1 1, not_isLast_sample 1⟩
  refine ⟨⟨answers_sample (fun r hr ↦ absurd hr List.not_mem_nil) 1, ?_⟩, ⟨hfailed, ?_⟩,
    answers_sample (fun r hr ↦ ⟨1, List.eq_of_mem_replicate hr⟩) 1, ?_⟩
  · rintro ⟨r, hrun, hrecorded⟩
    have hlength : (stage2MemoryMap [sample 1 0] blank).all (fun r ↦ r.2.mmapLength = 0) := by
      decide +kernel
    rw [hrun, Option.all_some, decide_eq_true_eq] at hlength
    have hone : r.2.mmapLength.toNat = 24 := hrecorded.length
    rw [hlength] at hone
    cases hone
  · exact stage2MemoryMap_eq_none blank (sample_documented 1 1) (not_isLast_sample 1) (by
      rw [List.forall_mem_singleton]
      decide)
  · rintro ⟨r, hrun, hrecorded⟩
    have hcalls : (stage2MemoryMap (List.replicate 190 (sample 1 1) ++ [sample 1 0]) blank).all
        (fun r ↦ r.1.calls.any fun call ↦ 0x9000 - 40 < call.di.toNat + 24) := by
      decide +kernel
    rw [hrun, Option.all_some, List.any_eq_true] at hcalls
    obtain ⟨call, hcall, hbeyond⟩ := hcalls
    have hinside := hrecorded.inside call hcall
    rw [decide_eq_true_eq] at hbeyond
    exact absurd hinside (Nat.not_le_of_lt hbeyond)

/-! ## The map in the kernel -/

theorem regionAt_shift {m m' : Bytes} {a b : Nat} (h : ∀ j < 20, m (a + j) = m' (b + j)) :
    regionAt m a = regionAt m' b := by
  have hread (k : Nat) (hk : k ≤ 16) : read32 m (a + k) = read32 m' (b + k) := by
    refine read32_shift fun j hj ↦ ?_
    have hbyte := h (k + j) (by omega)
    rwa [← Nat.add_assoc, ← Nat.add_assoc] at hbyte
  have hfirst := hread 0 (Nat.zero_le 16)
  rw [Nat.add_zero, Nat.add_zero] at hfirst
  unfold regionAt
  rw [hfirst, hread 4 (by decide), hread 8 (by decide), hread 12 (by decide), hread 16 (by decide)]

theorem twenty_le_of_mem_recordable {rs : List E820Response} {e : E820Response} (h : Answers rs)
    (he : e ∈ recordable rs) : 20 ≤ e.data.length := by
  have hmem : e ∈ entries rs := by
    unfold recordable at he
    split at he
    · cases he
    · exact he
  obtain ⟨hin, hkept⟩ := List.mem_filter.mp hmem
  rw [Bool.and_eq_true, Bool.not_eq_true', decide_eq_true_eq] at hkept
  exact E820Response.twenty_le_of_length (h.documented e hin hkept.1) hkept.2

/-- The kernel reads the regions that the entries describe, in their order. -/
theorem Recorded.regions_eq {rs : List E820Response} {r : BootState × BootInfo}
    (h : Recorded (recordable rs) r) (hanswers : Answers rs) :
    r.2.regions r.1.mem = (recordable rs).map E820Response.region := by
  have hcount : (r.2.mmapLength / 24).toNat = (recordable rs).length := by
    rw [BitVec.toNat_udiv, h.length]
    exact Nat.mul_div_cancel_left _ (by decide)
  unfold BootInfo.regions
  rw [hcount, h.addr]
  refine List.ext_getElem (by simp) fun i hi hi' ↦ ?_
  rw [List.getElem_map, List.getElem_map, List.getElem_range]
  have hlt : i < (recordable rs).length := by rwa [List.length_map] at hi'
  have hsize := twenty_le_of_mem_recordable hanswers (List.getElem_mem hlt)
  refine regionAt_shift fun j hj ↦ ?_
  rw [Nat.zero_add]
  exact h.entry i _ (List.getElem?_eq_getElem hlt) j (hj.trans_le hsize)

end TenOs.Boot
