import TenOs.Mm.Paging

/-!
# Access to a mapped frame

What the accesses of `mm/paging.c` do to a frame that some page maps, as long as they leave alone
the two words that map it.
-/

namespace TenOs.Mm

open TenOs.Base TenOs.Lib

def frameAddr (n : Nat) : u32 := BitVec.ofNat 32 (4096 * n)

/-! ## Addresses and entries as numbers -/

theorem frameAddr_toNat {n : Nat} (h : n < 2 ^ 20) : (frameAddr n).toNat = 4096 * n := by
  rw [frameAddr, BitVec.toNat_ofNat]
  omega

theorem pageDirectoryIndex_toNat (v : u32) :
    (pageDirectoryIndex v).toNat = v.toNat / 4096 / 1024 := by
  have hv := v.isLt
  rw [pageDirectoryIndex, toNat_and_lowMask _ (k := 10) rfl, toNat_ushiftRight_eq]
  omega

theorem pageTableIndex_toNat (v : u32) : (pageTableIndex v).toNat = v.toNat / 4096 % 1024 := by
  rw [pageTableIndex, toNat_and_lowMask _ (k := 10) rfl, toNat_ushiftRight_eq]
  rfl

theorem pageGetPhysicalAddress_entry {n : Nat} (h : n < 2 ^ 20) :
    pageGetPhysicalAddress (entry (some n)) = frameAddr n := by
  apply BitVec.eq_of_toNat_eq
  rw [pageGetPhysicalAddress, toNat_and_not_lowMask _ (k := 12) rfl, entry_some_toNat h,
    frameAddr_toNat h]
  omega

theorem P2V_frameAddr {n : Nat} (h : n < 2 ^ 18) :
    (P2V (frameAddr n)).toNat = 0xC0000000 + 4096 * n := by
  have hbase : (0xC0000000 : u32).toNat = 0xC0000000 := rfl
  rw [P2V, BitVec.toNat_add, frameAddr_toNat (by omega), hbase]
  omega

/-- `v` is the address of word `j` of page `p`. -/
structure PointsTo (v : u32) (p j : Nat) : Prop where
  eq : v.toNat = 4096 * p + 4 * j
  lt : j < 1024

theorem pointsTo_mEntries {n : Nat} {i : u32} (hn : n < 2 ^ 18) (hi : i.toNat < 1024) :
    PointsTo (mEntries (P2V (frameAddr n)) i) (0xC0000 + n) i.toNat := by
  have hfour : (4 : u32).toNat = 4 := rfl
  refine ⟨?_, hi⟩
  rw [mEntries, BitVec.toNat_add, BitVec.toNat_mul, P2V_frameAddr hn, hfour]
  omega

theorem pointsTo_mEntries_ofNat {n i : Nat} (hn : n < 2 ^ 18) (hi : i < 1024) :
    PointsTo (mEntries (P2V (frameAddr n)) (BitVec.ofNat 32 i)) (0xC0000 + n) i := by
  have hnat : (BitVec.ofNat 32 i).toNat = i := by
    rw [BitVec.toNat_ofNat]
    omega
  have hpoints := pointsTo_mEntries hn (show (BitVec.ofNat 32 i).toNat < 1024 by omega)
  rwa [hnat] at hpoints

theorem entry_eq_or {n : Nat} (h : n < 2 ^ 20) : entry (some n) = frameAddr n ||| 7 := by
  apply BitVec.eq_of_toNat_eq
  have haddr := frameAddr_toNat h
  have hseven : (7 : u32).toNat = 7 := rfl
  rw [entry_some_toNat h, toNat_or_of_lt (k := 12) (by omega) (by omega), haddr, hseven]

/-- The three flags of an entry are set. -/
theorem entry_flag {n i : Nat} (h : n < 2 ^ 20) (hi : i < 3) {attrib : u32}
    (hattrib : attrib = 1#32 <<< i) : entry (some n) &&& attrib ≠ 0#32 := by
  have hseven : ∀ i < 3, (7 : u32).getLsbD i = true := by decide
  rw [hattrib, ne_eq, and_one_shiftLeft_eq_zero_iff _ (Nat.lt_trans hi (by decide)), entry_eq_or h,
    BitVec.getLsbD_or, hseven i hi, Bool.or_true]
  exact Bool.noConfusion

/-- Setting the frame and the three flags of an absent entry. -/
theorem fill_absent {n : Nat} (h : n < 2 ^ 20) :
    entryAddAttrib (entryAddAttrib (entryAddAttrib
      (entrySetFrame 0x7FFFF000 0#32 (frameAddr n)) 1) 2) 4 = entry (some n) := by
  have hflags : (1 : u32) ||| (2 ||| 4) = 7 := rfl
  rw [entry_eq_or h]
  simp only [entryAddAttrib, entrySetFrame, BitVec.zero_and, BitVec.zero_or, BitVec.or_assoc, hflags]

theorem addAttrib_present {n : Nat} (h : n < 2 ^ 20) {attrib : u32} (hattrib : 7 ||| attrib = 7) :
    entryAddAttrib (entry (some n)) attrib = entry (some n) := by
  rw [entryAddAttrib, entry_eq_or h, BitVec.or_assoc, hattrib]

/-- Setting the frame that a present entry has already. -/
theorem setFrame_present {n : Nat} (h : n < 2 ^ 19) :
    entrySetFrame 0x7FFFF000 (entry (some n)) (frameAddr n) = entry (some n) := by
  have hkeep : (7 : u32) &&& ~~~0x7FFFF000 = 7 := rfl
  -- the address has bits 12 to 30 only
  have hdrop : frameAddr n &&& ~~~0x7FFFF000 = 0#32 := by
    apply BitVec.eq_of_getLsbD_eq
    intro i hi
    have hmid : ∀ i < 31, 12 ≤ i → (~~~(0x7FFFF000 : u32)).getLsbD i = false := by decide
    have hbit : (frameAddr n).getLsbD i = (4096 * n).testBit i := by
      rw [BitVec.getLsbD, frameAddr_toNat (by omega)]
    rw [BitVec.getLsbD_and, hbit, BitVec.getLsbD_zero]
    by_cases hlow : i < 12
    · rw [show 4096 * n = 2 ^ 12 * n by rfl, Nat.testBit_two_pow_mul, decide_eq_false (by omega),
        Bool.false_and, Bool.false_and]
    · by_cases htop : i < 31
      · rw [hmid i htop (by omega), Bool.and_false]
      · rw [Nat.testBit_lt_two_pow (Nat.lt_of_lt_of_le (show 4096 * n < 2 ^ 31 by omega)
          (Nat.pow_le_pow_right (by decide) (by omega))), Bool.false_and]
  rw [entrySetFrame, entry_eq_or (by omega), BitVec.and_or_distrib_right, hdrop, hkeep,
    BitVec.zero_or, BitVec.or_comm]

/-! ## One access -/

/-- Page `p` is mapped to frame `n`, through the table in frame `t`. -/
structure Window (m : Words) (cr3 : u32) (p n t : Nat) : Prop where
  reaches : Reaches m (cr3.toNat / 4096) p n t
  page_lt : p < 2 ^ 20
  lt : n < 2 ^ 20
  table_lt : t < 2 ^ 20

/-- Word `k` is none of the two that map page `p`. -/
structure Apart (cr3 : u32) (p t k : Nat) : Prop where
  pde : k ≠ 1024 * (cr3.toNat / 4096) + p / 1024
  pte : k ≠ 1024 * t + p % 1024

theorem Window.update {m : Words} {cr3 : u32} {p n t k : Nat} (h : Window m cr3 p n t)
    (hk : Apart cr3 p t k) (x : u32) : Window (Function.update m k x) cr3 p n t :=
  { h with
    reaches := h.reaches.congr (Function.update_of_ne hk.pde.symm _ _)
      (Function.update_of_ne hk.pte.symm _ _) }

-- Both words lie in other frames than the one they map.
theorem Window.of_other_frames {m m' : Words} {cr3 : u32} {p n t : Nat} (h : Window m cr3 p n t)
    (hdir : n ≠ cr3.toNat / 4096) (htable : n ≠ t) (hsame : ∀ k, k / 1024 ≠ n → m' k = m k) :
    Window m' cr3 p n t :=
  { h with
    reaches := by
      have hp := h.page_lt
      exact h.reaches.congr (hsame _ (by omega)) (hsame _ (by omega)) }

namespace Machine

variable {A : Type} {s : Machine A} {v : u32} {p n t j : Nat}

theorem translate_window (h : Window s.mem s.cr3 p n t) (hv : PointsTo v p j) :
    s.translate v = some (BitVec.ofNat 32 (4096 * n + 4 * j)) := by
  have hn := h.lt
  have hj := hv.lt
  have heq := hv.eq
  rw [translate, h.reaches.translate_eq rfl (by omega) (by omega) h.table_lt]
  congr 2
  omega

theorem load_window (h : Window s.mem s.cr3 p n t) (hv : PointsTo v p j) :
    s.load v = some (s.mem (1024 * n + j)) := by
  have hn := h.lt
  have hj := hv.lt
  rw [load, translate_window h hv, Option.map_some, BitVec.toNat_ofNat,
    show (4096 * n + 4 * j) % 2 ^ 32 / 4 = 1024 * n + j by omega]

theorem store_window (h : Window s.mem s.cr3 p n t) (hv : PointsTo v p j) (x : u32) :
    s.store v x = some { s with mem := Function.update s.mem (1024 * n + j) x } := by
  have hn := h.lt
  have hj := hv.lt
  rw [store, translate_window h hv, Option.map_some, BitVec.toNat_ofNat,
    show (4096 * n + 4 * j) % 2 ^ 32 / 4 = 1024 * n + j by omega]

theorem modify_window (h : Window s.mem s.cr3 p n t) (hv : PointsTo v p j) (f : u32 → u32) :
    s.modify v f =
      some { s with mem := Function.update s.mem (1024 * n + j) (f (s.mem (1024 * n + j))) } := by
  rw [modify, load_window h hv, Option.bind_eq_bind, Option.bind_some, store_window h hv]

/-! ## Entries -/

-- The two files have the same functions with the same constants.
theorem setPde_eq_setPte (s : Machine A) (e addr : u32) : s.setPde e addr = s.setPte e addr := rfl

-- The entry is not among the words that map the table, so it can be changed in four steps.
theorem setPte_absent (h : Window s.mem s.cr3 p n t) (hv : PointsTo v p j)
    (hk : Apart s.cr3 p t (1024 * n + j)) (hzero : s.mem (1024 * n + j) = 0) {f : Nat}
    (hf : f < 2 ^ 20) : s.setPte v (frameAddr f) =
      some { s with mem := Function.update s.mem (1024 * n + j) (entry (some f)) } := by
  have hturn (m : Words) (hm : Window m s.cr3 p n t) (g : u32 → u32) :
      Machine.modify { s with mem := m } v g =
        some { s with mem := Function.update m (1024 * n + j) (g (m (1024 * n + j))) } :=
    modify_window hm hv g
  have hfirst := hturn s.mem h
  simp only [setPte, Option.bind_eq_bind]
  rw [hfirst, Option.bind_some, hturn _ (h.update hk _), Option.bind_some,
    hturn _ ((h.update hk _).update hk _), Option.bind_some,
    hturn _ (((h.update hk _).update hk _).update hk _)]
  simp only [Function.update_self, Function.update_idem, hzero]
  exact congrArg (fun x ↦ some { s with mem := Function.update s.mem (1024 * n + j) x })
    (fill_absent hf)

-- An entry that is right already stays as it is.
theorem setPte_present (h : Window s.mem s.cr3 p n t) (hv : PointsTo v p j) {f : Nat} (hf : f < 2 ^ 19)
    (hentry : s.mem (1024 * n + j) = entry (some f)) : s.setPte v (frameAddr f) = some s := by
  have hturn (g : u32 → u32) (hg : g (entry (some f)) = entry (some f)) : s.modify v g = some s := by
    rw [modify_window h hv, hentry, hg, ← hentry, Function.update_eq_self]
  have hbound : f < 2 ^ 20 := by omega
  simp only [setPte, Option.bind_eq_bind]
  rw [hturn (ptEntrySetFrame · (frameAddr f)) (setFrame_present hf), Option.bind_some,
    hturn (ptEntryAddAttrib · I86_PTE_PRESENT) (addAttrib_present hbound rfl), Option.bind_some,
    hturn (ptEntryAddAttrib · I86_PTE_WRITABLE) (addAttrib_present hbound rfl), Option.bind_some,
    hturn (ptEntryAddAttrib · I86_PTE_USER) (addAttrib_present hbound rfl)]

/-! ## Whole frames -/

/-- A loop that stores `x j` in word `j` of a frame, in turn `j`. -/
theorem forAbort_fill (h : Window s.mem s.cr3 p n t) (hdir : n ≠ s.cr3.toNat / 4096) (htable : n ≠ t)
    (body : Nat → Machine A → Option (Machine A)) (x : Nat → u32)
    (hbody : ∀ j < 1024, ∀ m, (∀ k, k / 1024 ≠ n → m k = s.mem k) →
      ∃ v, PointsTo v p j ∧ body j { s with mem := m } = Machine.store { s with mem := m } v (x j)) :
    forAbort body 1024 0 s = some { s with mem := writeFrame s.mem n x } := by
  have hstart : s = { s with mem := fillTo s.mem n x 0 } := by rw [fillTo_zero]
  have hrun : ∃ s', forAbort body 1024 0 s = some s' ∧
      s' = { s with mem := fillTo s.mem n x (0 + 1024) } :=
    forAbort_inv (fun i s' ↦ s' = { s with mem := fillTo s.mem n x i }) hstart fun i s' _ hi hs' ↦ by
      have hsame : ∀ k, k / 1024 ≠ n → fillTo s.mem n x i k = s.mem k :=
        fun k hk ↦ fillTo_other x hk i
      have hwindow : Window (fillTo s.mem n x i) s.cr3 p n t :=
        h.of_other_frames hdir htable hsame
      obtain ⟨v, hv, hstore⟩ := hbody i (by omega) _ hsame
      refine ⟨_, by rw [hs', hstore]; exact store_window hwindow hv _, ?_⟩
      rw [update_fillTo s.mem n x (by omega)]
  obtain ⟨s', hloop, hs'⟩ := hrun
  rw [hloop, hs', Nat.zero_add, fillTo_all]

theorem memset_frame (h : Window s.mem s.cr3 (0xC0000 + n) n t) (hdir : n ≠ s.cr3.toNat / 4096)
    (htable : n ≠ t) : s.memset (P2V (frameAddr n)) 0 4096 =
      some { s with mem := writeFrame s.mem n fun _ ↦ 0 } := by
  have hn := h.page_lt
  exact forAbort_fill h hdir htable _ _ fun j hj m _ ↦
    ⟨_, pointsTo_mEntries_ofNat (by omega) hj, rfl⟩

end Machine

end TenOs.Mm
