import Mathlib.Logic.Function.Basic
import TenOs.Base.Loop
import TenOs.Base.Word

/-!
# Two-level page tables

How the processor translates 32-bit linear addresses through a page directory and page tables.  The
physical memory is an array of 32-bit words, 1024 to a frame.  `PageSpace` is what the tables say in
frame numbers, and `Encodes` relates it to the words.
-/

namespace TenOs.Base

/-- Word `k` lies at physical address `4 * k`. -/
abbrev Words := Nat → BitVec 32

variable {m : Words} {cr3 v : BitVec 32}

/-- The entry of the page table for `v`, where both levels are present. -/
def walk (m : Words) (cr3 v : BitVec 32) : Option (BitVec 32) :=
  let pde := m (1024 * (cr3.toNat / 4096) + v.toNat / 4096 / 1024)
  if pde &&& 1 = 0 then none
  else
    let pte := m (1024 * (pde.toNat / 4096) + v.toNat / 4096 % 1024)
    if pte &&& 1 = 0 then none else some pte

/-- The physical address of `v`. -/
def translate (m : Words) (cr3 v : BitVec 32) : Option (BitVec 32) :=
  (walk m cr3 v).map fun pte ↦ BitVec.ofNat 32 (4096 * (pte.toNat / 4096) + v.toNat % 4096)

/-- The word of the directory that decides about `v`, and that of the page table it points to. -/
def pdeAt (cr3 v : BitVec 32) : Nat := 1024 * (cr3.toNat / 4096) + v.toNat / 4096 / 1024

def pteAt (m : Words) (cr3 v : BitVec 32) : Nat :=
  1024 * ((m (pdeAt cr3 v)).toNat / 4096) + v.toNat / 4096 % 1024

theorem walk_eq (m : Words) (cr3 v : BitVec 32) : walk m cr3 v =
    if m (pdeAt cr3 v) &&& 1 = 0 then none
    else if m (pteAt m cr3 v) &&& 1 = 0 then none else some (m (pteAt m cr3 v)) := rfl

theorem walk_eq_some_iff {e : BitVec 32} : walk m cr3 v = some e ↔
    m (pdeAt cr3 v) &&& 1 ≠ 0 ∧ m (pteAt m cr3 v) &&& 1 ≠ 0 ∧ m (pteAt m cr3 v) = e := by
  rw [walk_eq]
  simp

theorem pteAt_congr {m' : Words} (hpde : m' (pdeAt cr3 v) = m (pdeAt cr3 v)) :
    pteAt m' cr3 v = pteAt m cr3 v := by rw [pteAt, hpde, pteAt]

-- A walk reads two words.
theorem walk_congr {m' : Words} (hpde : m' (pdeAt cr3 v) = m (pdeAt cr3 v))
    (hpte : m' (pteAt m cr3 v) = m (pteAt m cr3 v)) : walk m' cr3 v = walk m cr3 v := by
  rw [walk_eq, walk_eq, pteAt_congr hpde, hpde, hpte]

/-- An entry that is absent, or present, writable and open to user mode. -/
def entry : Option Nat → BitVec 32
  | none => 0
  | some n => BitVec.ofNat 32 (4096 * n + 7)

theorem entry_some_toNat {n : Nat} (h : n < 2 ^ 20) : (entry (some n)).toNat = 4096 * n + 7 := by
  rw [entry, BitVec.toNat_ofNat]
  omega

theorem entry_some_frame {n : Nat} (h : n < 2 ^ 20) : (entry (some n)).toNat / 4096 = n := by
  rw [entry_some_toNat h]
  omega

theorem and_one_eq_zero_iff (e : BitVec 32) : e &&& 1 = 0 ↔ e.toNat % 2 = 0 := by
  have hmask : (e &&& 1).toNat = e.toNat % 2 := toNat_and_lowMask e (k := 1) rfl
  rw [← hmask]
  exact ⟨fun h ↦ by rw [h]; rfl, fun h ↦ BitVec.eq_of_toNat_eq h⟩

theorem entry_some_present {n : Nat} (h : n < 2 ^ 20) : ¬ entry (some n) &&& 1 = 0 := by
  rw [and_one_eq_zero_iff, entry_some_toNat h]
  omega

/-! ## One page -/

/-- Page `p` of the directory in frame `d` is frame `n`, through the table in frame `t`. -/
structure Reaches (m : Words) (d p n t : Nat) : Prop where
  pde : m (1024 * d + p / 1024) = entry (some t)
  pte : m (1024 * t + p % 1024) = entry (some n)

theorem Reaches.walk_eq {d p n t : Nat} (h : Reaches m d p n t) (hd : cr3.toNat / 4096 = d)
    (hv : v.toNat / 4096 = p) (hn : n < 2 ^ 20) (ht : t < 2 ^ 20) :
    walk m cr3 v = some (entry (some n)) := by
  simp only [walk, hd, hv, h.pde, h.pte, entry_some_frame ht, if_neg (entry_some_present ht),
    if_neg (entry_some_present hn)]

theorem Reaches.translate_eq {d p n t : Nat} (h : Reaches m d p n t) (hd : cr3.toNat / 4096 = d)
    (hv : v.toNat / 4096 = p) (hn : n < 2 ^ 20) (ht : t < 2 ^ 20) :
    translate m cr3 v = some (BitVec.ofNat 32 (4096 * n + v.toNat % 4096)) := by
  rw [translate, h.walk_eq hd hv hn ht, Option.map_some, entry_some_frame hn]

-- A page depends on two words only.
theorem Reaches.congr {m' : Words} {d p n t : Nat} (h : Reaches m d p n t)
    (hpde : m' (1024 * d + p / 1024) = m (1024 * d + p / 1024))
    (hpte : m' (1024 * t + p % 1024) = m (1024 * t + p % 1024)) : Reaches m' d p n t :=
  ⟨hpde.trans h.pde, hpte.trans h.pte⟩

/-! ## Frames -/

/-- Store `x j` in each word `j` of frame `f`. -/
def writeFrame (m : Words) (f : Nat) (x : Nat → BitVec 32) : Words := fun k ↦
  if k / 1024 = f then x (k % 1024) else m k

theorem writeFrame_same (x : Nat → BitVec 32) (f : Nat) {j : Nat} (hj : j < 1024) :
    writeFrame m f x (1024 * f + j) = x j := by
  rw [writeFrame, if_pos (by omega), show (1024 * f + j) % 1024 = j by omega]

theorem writeFrame_other (x : Nat → BitVec 32) {f g : Nat} (hfg : g ≠ f) {j : Nat} (hj : j < 1024) :
    writeFrame m f x (1024 * g + j) = m (1024 * g + j) := by
  rw [writeFrame, if_neg (by omega)]

theorem writeFrame_twice (x y : Nat → BitVec 32) (f : Nat) :
    writeFrame (writeFrame m f x) f y = writeFrame m f y := by
  funext k
  unfold writeFrame
  split <;> rfl

/-- The first `i` words of frame `f` are written. -/
def fillTo (m : Words) (f : Nat) (x : Nat → BitVec 32) (i : Nat) : Words := fun k ↦
  if k / 1024 = f ∧ k % 1024 < i then x (k % 1024) else m k

theorem fillTo_zero (m : Words) (f : Nat) (x : Nat → BitVec 32) : fillTo m f x 0 = m :=
  funext fun k ↦ if_neg (by omega)

theorem fillTo_all (m : Words) (f : Nat) (x : Nat → BitVec 32) :
    fillTo m f x 1024 = writeFrame m f x := by
  funext k
  have hmod : k % 1024 < 1024 := Nat.mod_lt k (by decide)
  simp only [fillTo, writeFrame, hmod, and_true]

-- One more entry of the frame.
theorem update_fillTo (m : Words) (f : Nat) (x : Nat → BitVec 32) {i : Nat} (hi : i < 1024) :
    Function.update (fillTo m f x i) (1024 * f + i) (x i) = fillTo m f x (i + 1) := by
  funext k
  rw [Function.update_apply]
  unfold fillTo
  by_cases hk : k = 1024 * f + i
  · rw [if_pos hk, if_pos (by omega), show k % 1024 = i by omega]
  · rw [if_neg hk]
    by_cases hin : k / 1024 = f ∧ k % 1024 < i
    · rw [if_pos hin, if_pos (by omega)]
    · rw [if_neg hin, if_neg (by omega)]

theorem fillTo_other (x : Nat → BitVec 32) {f k : Nat} (hk : k / 1024 ≠ f) (i : Nat) :
    fillTo m f x i k = m k := if_neg fun h ↦ hk h.1

theorem forLoop_fill (m : Words) (f : Nat) (x : Nat → BitVec 32) :
    forLoop (fun i m ↦ Function.update m (1024 * f + i) (x i)) 1024 0 m = writeFrame m f x := by
  have hloop : forLoop (fun i m ↦ Function.update m (1024 * f + i) (x i)) 1024 0 m =
      fillTo m f x (0 + 1024) :=
    forLoop_inv (fun i m' ↦ m' = fillTo m f x i) (fillTo_zero m f x).symm fun i m' _ hi hm' ↦ by
      rw [hm', update_fillTo m f x (by omega)]
  rw [hloop, Nat.zero_add, fillTo_all]

/-! ## The whole space -/

/-- `table i` is the frame of the table that directory entry `i` points to, `leaf i j` the frame
that entry `j` of this table points to. -/
structure PageSpace where
  dir : Nat
  table : Nat → Option Nat
  leaf : Nat → Nat → Option Nat

namespace PageSpace

/-- The frame of page `p`. -/
def page (a : PageSpace) (p : Nat) : Option Nat :=
  (a.table (p / 1024)).bind fun _ ↦ a.leaf (p / 1024) (p % 1024)

/-- Frame `f` holds the directory or one of its tables. -/
def Holds (a : PageSpace) (f : Nat) : Prop := f = a.dir ∨ ∃ i < 1024, a.table i = some f

/-- The directory and the tables lie in frames of their own. -/
structure Separate (a : PageSpace) : Prop where
  dir_ne : ∀ i < 1024, a.table i ≠ some a.dir
  inj : ∀ i < 1024, ∀ j < 1024, ∀ t, a.table i = some t → a.table j = some t → i = j

/-- All frame numbers fit into entries. -/
structure Small (a : PageSpace) : Prop where
  table_lt : ∀ i < 1024, ∀ t, a.table i = some t → t < 2 ^ 20
  leaf_lt : ∀ i < 1024, ∀ j < 1024, ∀ n, a.leaf i j = some n → n < 2 ^ 20

end PageSpace

structure Encodes (m : Words) (a : PageSpace) : Prop where
  table : ∀ i < 1024, m (1024 * a.dir + i) = entry (a.table i)
  leaf : ∀ i < 1024, ∀ t, a.table i = some t → ∀ j < 1024, m (1024 * t + j) = entry (a.leaf i j)

/-- What the processor finds for an address is what the space says about its page. -/
theorem Encodes.walk_eq {a : PageSpace} (h : Encodes m a) (hsmall : a.Small)
    (hd : cr3.toNat / 4096 = a.dir) :
    walk m cr3 v = (a.page (v.toNat / 4096)).map fun n ↦ entry (some n) := by
  have hv := v.isLt
  have hi : v.toNat / 4096 / 1024 < 1024 := by omega
  have hj : v.toNat / 4096 % 1024 < 1024 := Nat.mod_lt _ (by decide)
  have hpde := h.table _ hi
  unfold PageSpace.page
  cases ht : a.table (v.toNat / 4096 / 1024) with
  | none =>
    rw [ht] at hpde
    unfold walk
    rw [hd, hpde]
    rfl
  | some t =>
    rw [ht] at hpde
    have htlt := hsmall.table_lt _ hi t ht
    have hpte := h.leaf _ hi t ht _ hj
    rw [Option.bind_some]
    cases hl : a.leaf (v.toNat / 4096 / 1024) (v.toNat / 4096 % 1024) with
    | none =>
      rw [hl] at hpte
      simp only [walk, hd, hpde, hpte, entry_some_frame htlt, if_neg (entry_some_present htlt)]
      rfl
    | some n =>
      rw [hl] at hpte
      exact Reaches.walk_eq ⟨hpde, hpte⟩ hd rfl (hsmall.leaf_lt _ hi _ hj n hl) htlt

theorem Encodes.reaches {a : PageSpace} (h : Encodes m a) {p n t : Nat} (hp : p < 2 ^ 20)
    (ht : a.table (p / 1024) = some t) (hn : a.leaf (p / 1024) (p % 1024) = some n) :
    Reaches m a.dir p n t := by
  have hi : p / 1024 < 1024 := by omega
  have hpte := h.leaf _ hi t ht _ (Nat.mod_lt p (by decide))
  rw [hn] at hpte
  exact ⟨by rw [h.table _ hi, ht], hpte⟩

/-- Words outside the directory and the tables do not matter. -/
theorem Encodes.congr {a : PageSpace} {m' : Words} (h : Encodes m a)
    (hsame : ∀ f, a.Holds f → ∀ j < 1024, m' (1024 * f + j) = m (1024 * f + j)) : Encodes m' a where
  table i hi := (hsame a.dir (Or.inl rfl) i hi).trans (h.table i hi)
  leaf i hi t ht j hj := (hsame t (Or.inr ⟨i, hi, ht⟩) j hj).trans (h.leaf i hi t ht j hj)

/-! ## Editing a space -/

section Edit

variable {a : PageSpace} (h : Encodes m a) (hsep : a.Separate) {i j : Nat} (hi : i < 1024)
include h hsep hi

/-- A new table in a frame of its own: its words, then the directory entry. -/
theorem Encodes.setTable {f : Nat} (hf : ¬ a.Holds f) (row : Nat → Option Nat) :
    Encodes (Function.update (writeFrame m f fun j ↦ entry (row j)) (1024 * a.dir + i)
      (entry (some f)))
      { a with table := Function.update a.table i (some f), leaf := Function.update a.leaf i row } := by
  have hdir : f ≠ a.dir := fun heq ↦ hf (Or.inl heq)
  constructor
  · intro q hq
    simp only [Function.update_apply]
    by_cases hqi : q = i
    · rw [if_pos (by omega), if_pos hqi]
    · rw [if_neg (by omega), if_neg hqi, writeFrame_other _ hdir.symm hq]
      exact h.table q hq
  · intro q hq t ht j hj
    simp only [Function.update_apply] at ht ⊢
    by_cases hqi : q = i
    · rw [if_pos hqi] at ht
      cases ht
      rw [if_pos hqi, if_neg (by omega), writeFrame_same _ _ hj]
    · rw [if_neg hqi] at ht
      have htf : t ≠ f := fun heq ↦ hf (Or.inr ⟨q, hq, heq ▸ ht⟩)
      have htdir : t ≠ a.dir := fun heq ↦ hsep.dir_ne q hq (heq ▸ ht)
      rw [if_neg hqi, if_neg (by omega), writeFrame_other _ htf hj]
      exact h.leaf q hq t ht j hj

/-- A page mapped in a table that is there. -/
theorem Encodes.setLeaf {t : Nat} (ht : a.table i = some t) (hj : j < 1024) (n : Nat) :
    Encodes (Function.update m (1024 * t + j) (entry (some n)))
      { a with leaf := Function.update a.leaf i (Function.update (a.leaf i) j (some n)) } := by
  have htdir : t ≠ a.dir := fun heq ↦ hsep.dir_ne i hi (heq ▸ ht)
  constructor
  · intro q hq
    change Function.update m (1024 * t + j) _ (1024 * a.dir + q) = entry (a.table q)
    rw [Function.update_of_ne (by omega)]
    exact h.table q hq
  · intro q hq u hu k hk
    have hold := h.leaf q hq u hu k hk
    simp only [Function.update_apply]
    by_cases hqi : q = i
    · subst hqi
      cases ht.symm.trans hu
      rw [if_pos rfl]
      by_cases hkj : k = j
      · rw [if_pos (by omega), Function.update_apply, if_pos hkj]
      · rw [if_neg (by omega), Function.update_apply, if_neg hkj]
        exact hold
    · -- no other entry of the directory has this table
      have htu : u ≠ t := fun heq ↦ hqi (hsep.inj q hq i hi t (heq ▸ hu) ht)
      rw [if_neg hqi, if_neg (by omega)]
      exact hold

/-- A table wiped and taken out of the directory. -/
theorem Encodes.dropTable {t : Nat} (ht : a.table i = some t) (x : Nat → BitVec 32) :
    Encodes (Function.update (writeFrame m t x) (1024 * a.dir + i) (entry none))
      { a with table := Function.update a.table i none } := by
  have htdir : t ≠ a.dir := fun heq ↦ hsep.dir_ne i hi (heq ▸ ht)
  constructor
  · intro q hq
    simp only [Function.update_apply]
    by_cases hqi : q = i
    · rw [if_pos (by omega), if_pos hqi]
    · rw [if_neg (by omega), if_neg hqi, writeFrame_other _ htdir.symm hq]
      exact h.table q hq
  · intro q hq u hu k hk
    simp only [Function.update_apply] at hu ⊢
    by_cases hqi : q = i
    · rw [if_pos hqi] at hu
      cases hu
    · rw [if_neg hqi] at hu
      have htu : u ≠ t := fun heq ↦ hqi (hsep.inj q hq i hi t (heq ▸ hu) ht)
      have hudir : u ≠ a.dir := fun heq ↦ hsep.dir_ne q hq (heq ▸ hu)
      rw [if_neg (by omega), writeFrame_other _ htu hk]
      exact h.leaf q hq u hu k hk

end Edit

end TenOs.Base
