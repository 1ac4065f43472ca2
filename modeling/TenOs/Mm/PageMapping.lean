import TenOs.Mm.PageAccess

/-!
# Sequences of `vmmngr_map_page`

What a sequence of calls does to the directory that the kernel edits, whatever its entries are at the
start.  The directory and its tables are reached through the kernel's window at `0xC0000000`, in the
address space that is in force.
-/

namespace TenOs.Mm

open TenOs.Base TenOs.Lib

/-! ## Bits of an entry -/

/-- An entry after its frame and its three flags are set. -/
def filled (e addr : u32) : u32 :=
  entryAddAttrib (entryAddAttrib (entryAddAttrib (entrySetFrame 0x7FFFF000 e addr) 1) 2) 4

theorem filled_eq (e addr : u32) : filled e addr = (e &&& ~~~0x7FFFF000) ||| addr ||| 7 := by
  have hflags : (1 : u32) ||| (2 ||| 4) = 7 := rfl
  simp only [filled, entryAddAttrib, entrySetFrame, BitVec.or_assoc, hflags]

theorem filled_flag (e addr : u32) {i : Nat} (hi : i < 3) {attrib : u32} (hattrib : attrib = 1#32 <<< i) :
    filled e addr &&& attrib ≠ 0#32 := by
  have hseven : ∀ i < 3, (7 : u32).getLsbD i = true := by decide
  rw [hattrib, ne_eq, and_one_shiftLeft_eq_zero_iff _ (Nat.lt_trans hi (by decide)), filled_eq,
    BitVec.getLsbD_or, hseven i hi, Bool.or_true]
  exact Bool.noConfusion

-- Of an entry below 2 GiB the mask leaves the low 12 bits.
theorem keep_toNat {e : u32} (he : e.toNat < 2 ^ 31) : (e &&& ~~~0x7FFFF000).toNat = e.toNat % 4096 := by
  have hmask : e &&& ~~~0x7FFFF000 = e &&& 0xFFF := by
    apply BitVec.eq_of_getLsbD_eq
    intro i hi
    have hbits : ∀ i < 31, (~~~(0x7FFFF000 : u32)).getLsbD i = (0xFFF : u32).getLsbD i := by decide
    rw [BitVec.getLsbD_and, BitVec.getLsbD_and]
    by_cases htop : i < 31
    · rw [hbits i htop]
    · have hclear : e.getLsbD i = false := by
        rw [BitVec.getLsbD]
        apply Nat.testBit_lt_two_pow
        exact Nat.lt_of_lt_of_le he (Nat.pow_le_pow_right (by decide) (by omega))
      rw [hclear, Bool.false_and, Bool.false_and]
  rw [hmask]
  exact toNat_and_lowMask e (k := 12) rfl

theorem filled_frame {e : u32} (addr : u32) (he : e.toNat < 2 ^ 31) :
    (filled e addr).toNat / 4096 = addr.toNat / 4096 := by
  have hkeep := keep_toNat he
  have hseven : (7 : u32).toNat = 7 := rfl
  have hor (a b : Nat) : (a ||| b) / 4096 = a / 4096 ||| b / 4096 := Nat.or_div_two_pow (n := 12)
  have hlow : e.toNat % 4096 / 4096 = 0 := by omega
  rw [filled_eq, BitVec.toNat_or, BitVec.toNat_or, hkeep, hseven, hor, hor, hlow, Nat.zero_or]
  exact Nat.or_zero _

theorem filled_lt {e addr : u32} (he : e.toNat < 2 ^ 31) (hlt : addr.toNat < 2 ^ 31) :
    (filled e addr).toNat < 2 ^ 31 := by
  have hframe := filled_frame addr he
  omega

theorem present_iff (x : u32) : x &&& 1 ≠ 0 ↔ x.getLsbD 0 = true := by
  have hbit := and_one_shiftLeft_eq_zero_iff x (show 0 < 32 by decide)
  rw [← Bool.not_eq_false]
  exact not_congr hbit

theorem present_addAttrib (x : u32) {attrib : u32} (h : x &&& 1 ≠ 0 ∨ attrib &&& 1 ≠ 0) :
    entryAddAttrib x attrib &&& 1 ≠ 0 := by
  rw [present_iff, present_iff] at h
  rw [present_iff, entryAddAttrib, BitVec.getLsbD_or, Bool.or_eq_true]
  exact h

theorem present_setFrame {x addr : u32} (h : x &&& 1 ≠ 0) :
    entrySetFrame 0x7FFFF000 x addr &&& 1 ≠ 0 := by
  have hmask : (~~~(0x7FFFF000 : u32)).getLsbD 0 = true := by decide
  rw [present_iff] at h
  rw [present_iff, entrySetFrame, BitVec.getLsbD_or, BitVec.getLsbD_and, h, hmask]
  rfl

theorem addAttrib_frame (x : u32) {attrib : u32} (h : attrib.toNat < 4096) :
    (entryAddAttrib x attrib).toNat / 4096 = x.toNat / 4096 := by
  have hor (a b : Nat) : (a ||| b) / 4096 = a / 4096 ||| b / 4096 := Nat.or_div_two_pow (n := 12)
  rw [entryAddAttrib, BitVec.toNat_or, hor, Nat.div_eq_of_lt h, Nat.or_zero]

/-! ## The window -/

/-- Pointers into `P2V` of frame `f` reach frame `f`. -/
def InWindow (m : Words) (cr3 : u32) (f : Nat) : Prop :=
  (walk m cr3 (P2V (frameAddr f))).map (fun e ↦ e.toNat / 4096) = some f

instance (m : Words) (cr3 : u32) (f : Nat) : Decidable (InWindow m cr3 f) :=
  inferInstanceAs (Decidable (_ = _))

section Window

variable {m m' : Words} {cr3 x y : u32} {f w : Nat}

/-- Two words map the window's page of frame `f`. -/
theorem inWindow_iff : InWindow m cr3 f ↔ m (pdeAt cr3 (P2V (frameAddr f))) &&& 1 ≠ 0 ∧
    m (pteAt m cr3 (P2V (frameAddr f))) &&& 1 ≠ 0 ∧
      (m (pteAt m cr3 (P2V (frameAddr f)))).toNat / 4096 = f := by
  rw [InWindow, Option.map_eq_some_iff]
  simp only [walk_eq_some_iff]
  constructor
  · rintro ⟨e, ⟨hpde, hpte, rfl⟩, hf⟩
    exact ⟨hpde, hpte, hf⟩
  · rintro ⟨hpde, hpte, hf⟩
    exact ⟨_, ⟨hpde, hpte, rfl⟩, hf⟩

theorem InWindow.congr (h : InWindow m cr3 f)
    (hpde : m' (pdeAt cr3 (P2V (frameAddr f))) = m (pdeAt cr3 (P2V (frameAddr f))))
    (hpte : m' (pteAt m cr3 (P2V (frameAddr f))) = m (pteAt m cr3 (P2V (frameAddr f)))) :
    InWindow m' cr3 f := by
  rw [InWindow, walk_congr hpde hpte]
  exact h

-- An entry that is written flag by flag maps the window's page all the time, if it does at the end.
theorem InWindow.update (h : InWindow m cr3 f) (hafter : InWindow (Function.update m w y) cr3 f)
    (hframe : x.toNat / 4096 = y.toNat / 4096) (hpresent : m w &&& 1 ≠ 0 → x &&& 1 ≠ 0) :
    InWindow (Function.update m w x) cr3 f := by
  obtain ⟨hpde, hpte, -⟩ := inWindow_iff.mp h
  obtain ⟨hpde', hpte', hf⟩ := inWindow_iff.mp hafter
  have hsame {k : Nat} (hk : k ≠ w) : Function.update m w x k = Function.update m w y k := by
    rw [Function.update_of_ne hk, Function.update_of_ne hk]
  have hplace : pteAt (Function.update m w x) cr3 (P2V (frameAddr f)) =
      pteAt (Function.update m w y) cr3 (P2V (frameAddr f)) := by
    by_cases hw : pdeAt cr3 (P2V (frameAddr f)) = w
    · rw [pteAt, pteAt, hw, Function.update_self, Function.update_self, hframe]
    · exact pteAt_congr (hsame hw)
  rw [inWindow_iff, hplace]
  refine ⟨?_, ?_, ?_⟩
  · by_cases hw : pdeAt cr3 (P2V (frameAddr f)) = w
    · rw [hw, Function.update_self]
      exact hpresent (hw ▸ hpde)
    · rw [hsame hw]
      exact hpde'
  · by_cases hw : pteAt (Function.update m w y) cr3 (P2V (frameAddr f)) = w
    · rw [hw, Function.update_self]
      apply hpresent
      by_cases hdir : pdeAt cr3 (P2V (frameAddr f)) = w
      · exact hdir ▸ hpde
      · rw [pteAt_congr (Function.update_of_ne hdir _ _)] at hw
        exact hw ▸ hpte
    · rw [hsame hw]
      exact hpte'
  · by_cases hw : pteAt (Function.update m w y) cr3 (P2V (frameAddr f)) = w
    · rw [hw, Function.update_self] at hf ⊢
      rw [hframe, hf]
    · rw [hsame hw]
      exact hf

-- A wiped frame maps nothing, so the two words are in other frames.
theorem InWindow.of_wiped {g : Nat} (h : InWindow m cr3 f)
    (hafter : InWindow (writeFrame m g fun _ ↦ 0) cr3 f) (hsame : ∀ k, k / 1024 ≠ g → m' k = m k) :
    InWindow m' cr3 f := by
  obtain ⟨hpde, hpte, -⟩ := inWindow_iff.mp hafter
  have hout {k : Nat} (hk : writeFrame m g (fun _ ↦ 0) k &&& 1 ≠ 0) : k / 1024 ≠ g :=
    fun heq ↦ hk (by rw [writeFrame, if_pos heq]; rfl)
  have hdir : writeFrame m g (fun _ ↦ 0) (pdeAt cr3 (P2V (frameAddr f))) =
      m (pdeAt cr3 (P2V (frameAddr f))) := if_neg (hout hpde)
  have hplace := pteAt_congr hdir
  rw [hplace] at hpte
  exact h.congr (hsame _ (hout hpde)) (hsame _ (hout hpte))

end Window

theorem P2V_toNat {f : Nat} (hf : f < 2 ^ 20) :
    (P2V (frameAddr f)).toNat = 4096 * ((0xC0000 + f) % 2 ^ 20) := by
  have hbase : (0xC0000000 : u32).toNat = 0xC0000000 := rfl
  rw [P2V, BitVec.toNat_add, frameAddr_toNat hf, hbase]
  omega

theorem mEntries_P2V_toNat {f : Nat} (hf : f < 2 ^ 20) {i : u32} (hi : i.toNat < 1024) :
    (mEntries (P2V (frameAddr f)) i).toNat = 4096 * ((0xC0000 + f) % 2 ^ 20) + 4 * i.toNat := by
  have hfour : (4 : u32).toNat = 4 := rfl
  rw [mEntries, BitVec.toNat_add, BitVec.toNat_mul, P2V_toNat hf, hfour]
  omega

namespace Machine

variable {A : Type} {s : Machine A} {f : Nat}

-- All entries of a frame are on one page, so one walk serves them.
theorem translate_inWindow (h : InWindow s.mem s.cr3 f) (hf : f < 2 ^ 20) {i : u32}
    (hi : i.toNat < 1024) : s.translate (mEntries (P2V (frameAddr f)) i) =
      some (BitVec.ofNat 32 (4096 * f + 4 * i.toNat)) := by
  have hbase := P2V_toNat hf
  have hv := mEntries_P2V_toNat hf hi
  obtain ⟨e, hwalk, he⟩ := Option.map_eq_some_iff.mp h
  have hpage : (mEntries (P2V (frameAddr f)) i).toNat / 4096 = (P2V (frameAddr f)).toNat / 4096 := by
    omega
  have hsame : walk s.mem s.cr3 (mEntries (P2V (frameAddr f)) i) =
      walk s.mem s.cr3 (P2V (frameAddr f)) := by
    simp only [walk, hpage]
  have hoffset : (mEntries (P2V (frameAddr f)) i).toNat % 4096 = 4 * i.toNat := by omega
  rw [translate, Base.translate, hsame, hwalk, Option.map_some, he, hoffset]

theorem word_eq (hf : f < 2 ^ 20) {i : u32} (hi : i.toNat < 1024) :
    (BitVec.ofNat 32 (4096 * f + 4 * i.toNat)).toNat / 4 = 1024 * f + i.toNat := by
  rw [BitVec.toNat_ofNat]
  omega

theorem load_inWindow (h : InWindow s.mem s.cr3 f) (hf : f < 2 ^ 20) {i : u32}
    (hi : i.toNat < 1024) : s.load (mEntries (P2V (frameAddr f)) i) =
      some (s.mem (1024 * f + i.toNat)) := by
  rw [load, translate_inWindow h hf hi, Option.map_some, word_eq hf hi]

theorem store_inWindow (h : InWindow s.mem s.cr3 f) (hf : f < 2 ^ 20) {i : u32}
    (hi : i.toNat < 1024) (x : u32) : s.store (mEntries (P2V (frameAddr f)) i) x =
      some { s with mem := Function.update s.mem (1024 * f + i.toNat) x } := by
  rw [store, translate_inWindow h hf hi, Option.map_some, word_eq hf hi]

/-- The four calls that fill in an entry, where the frame of the entry stays in the window. -/
theorem setPte_inWindow (h : InWindow s.mem s.cr3 f) (hf : f < 2 ^ 20) {i addr : u32} {k : Nat}
    (hik : i.toNat = k) (hk : k < 1024) (hafter : InWindow (Function.update s.mem (1024 * f + k)
      (filled (s.mem (1024 * f + k)) addr)) s.cr3 f) :
    s.setPte (mEntries (P2V (frameAddr f)) i) addr = some { s with
      mem := Function.update s.mem (1024 * f + k) (filled (s.mem (1024 * f + k)) addr) } := by
  subst hik
  generalize hold : s.mem (1024 * f + i.toNat) = e at hafter ⊢
  have hturn (m : Words) (x : u32) (hm : InWindow m s.cr3 f) (hx : m (1024 * f + i.toNat) = x)
      (g : u32 → u32) : Machine.modify { s with mem := m } (mEntries (P2V (frameAddr f)) i) g =
        some { s with mem := Function.update m (1024 * f + i.toNat) (g x) } := by
    have hload := load_inWindow (s := { s with mem := m }) hm hf hk
    have hstore := store_inWindow (s := { s with mem := m }) hm hf hk
    rw [← hx, modify, hload, Option.bind_eq_bind, Option.bind_some, hstore]
  -- the entry after the first, the second and the third call
  let e₁ := ptEntrySetFrame e addr
  let e₂ := ptEntryAddAttrib e₁ I86_PTE_PRESENT
  let e₃ := ptEntryAddAttrib e₂ I86_PTE_WRITABLE
  have hframe₃ : e₃.toNat / 4096 = (filled e addr).toNat / 4096 := (addAttrib_frame e₃ (by decide)).symm
  have hframe₂ : e₂.toNat / 4096 = _ := (addAttrib_frame e₂ (by decide)).symm.trans hframe₃
  have hframe₁ : e₁.toNat / 4096 = _ := (addAttrib_frame e₁ (by decide)).symm.trans hframe₂
  have hpresent₁ (hp : s.mem (1024 * f + i.toNat) &&& 1 ≠ 0) : e₁ &&& 1 ≠ 0 :=
    present_setFrame (hold ▸ hp)
  have hpresent₂ : e₂ &&& 1 ≠ 0 := present_addAttrib e₁ (Or.inr (by decide))
  have hpresent₃ : e₃ &&& 1 ≠ 0 := present_addAttrib e₂ (Or.inl hpresent₂)
  have hwin₁ := h.update hafter hframe₁ hpresent₁
  have hwin₂ := h.update hafter hframe₂ fun _ ↦ hpresent₂
  have hwin₃ := h.update hafter hframe₃ fun _ ↦ hpresent₃
  simp only [setPte, Option.bind_eq_bind]
  rw [hturn s.mem e h hold, Option.bind_some, hturn _ e₁ hwin₁ (Function.update_self _ _ _),
    Option.bind_some, Function.update_idem, hturn _ e₂ hwin₂ (Function.update_self _ _ _),
    Option.bind_some, Function.update_idem, hturn _ e₃ hwin₃ (Function.update_self _ _ _),
    Function.update_idem]
  rfl

/-- Wiping a frame that stays in the window. -/
theorem memset_inWindow (h : InWindow s.mem s.cr3 f) (hf : f < 2 ^ 20)
    (hafter : InWindow (writeFrame s.mem f fun _ ↦ 0) s.cr3 f) : s.memset (P2V (frameAddr f)) 0 4096 =
      some { s with mem := writeFrame s.mem f fun _ ↦ 0 } := by
  have hrun : ∃ s', s.memset (P2V (frameAddr f)) 0 4096 = some s' ∧
      s' = { s with mem := fillTo s.mem f (fun _ ↦ 0) (0 + 1024) } := by
    refine forAbort_inv (fun i s' ↦ s' = { s with mem := fillTo s.mem f (fun _ ↦ 0) i })
      (by rw [fillTo_zero]) fun i s' _ hi hs' ↦ ?_
    have hwin : InWindow (fillTo s.mem f (fun _ ↦ 0) i) s.cr3 f :=
      h.of_wiped hafter fun k hk ↦ fillTo_other _ hk i
    have hindex : (BitVec.ofNat 32 i).toNat = i := by
      rw [BitVec.toNat_ofNat]
      omega
    have hstore := store_inWindow (s := { s with mem := fillTo s.mem f (fun _ ↦ 0) i }) hwin hf
      (show (BitVec.ofNat 32 i).toNat < 1024 by omega) 0
    rw [hindex] at hstore
    refine ⟨_, by rw [hs']; exact hstore, ?_⟩
    rw [← update_fillTo s.mem f (fun _ ↦ 0) (show i < 1024 by omega)]
  obtain ⟨s', hloop, hs'⟩ := hrun
  rw [hloop, hs', Nat.zero_add, fillTo_all]

end Machine

/-! ## A directory in memory -/

/-- The frame that entry `i` of the directory in frame `d` points to. -/
def tableOf (m : Words) (d i : Nat) : Nat := (m (1024 * d + i)).toNat / 4096

/-- Entry `i` of the directory in frame `d` is present. -/
def HasTable (m : Words) (d i : Nat) : Prop := m (1024 * d + i) &&& 1 ≠ 0

/-- The tables lie in frames of their own, and no entry has bit 31. -/
structure Directory (m : Words) (d : Nat) : Prop where
  dir_lt : d < 2 ^ 19
  entry_lt : ∀ i < 1024, (m (1024 * d + i)).toNat < 2 ^ 31
  leaf_lt : ∀ i < 1024, HasTable m d i → ∀ j < 1024, (m (1024 * tableOf m d i + j)).toNat < 2 ^ 31
  dir_ne : ∀ i < 1024, HasTable m d i → tableOf m d i ≠ d
  inj : ∀ i < 1024, ∀ j < 1024, HasTable m d i → HasTable m d j → tableOf m d i = tableOf m d j → i = j

theorem pdeAt_frameAddr {d : Nat} (hd : d < 2 ^ 19) (v : u32) :
    pdeAt (frameAddr d) v = 1024 * d + v.toNat / 4096 / 1024 := by
  rw [pdeAt, frameAddr_toNat (by omega), Nat.mul_div_cancel_left d (by decide)]

theorem pteAt_frameAddr {d : Nat} (hd : d < 2 ^ 19) (m : Words) (v : u32) :
    pteAt m (frameAddr d) v = 1024 * tableOf m d (v.toNat / 4096 / 1024) + v.toNat / 4096 % 1024 := by
  rw [pteAt, pdeAt_frameAddr hd, tableOf]

-- The word of an entry decides about its table.
theorem table_congr {m m' : Words} {d q : Nat} (h : m' (1024 * d + q) = m (1024 * d + q)) :
    (HasTable m' d q ↔ HasTable m d q) ∧ tableOf m' d q = tableOf m d q := by
  simp only [HasTable, tableOf, h, and_self]

/-- A walk reads the entry of its page, and a table only if that entry is present. -/
theorem walk_frameAddr_congr {m m' : Words} {d q k : Nat} (hd : d < 2 ^ 19) {v : u32}
    (hq : v.toNat / 4096 / 1024 = q) (hk : v.toNat / 4096 % 1024 = k)
    (hpde : m' (1024 * d + q) = m (1024 * d + q))
    (hpte : HasTable m d q → m' (1024 * tableOf m d q + k) = m (1024 * tableOf m d q + k)) :
    walk m' (frameAddr d) v = walk m (frameAddr d) v := by
  rw [walk_eq, walk_eq, pdeAt_frameAddr hd, pteAt_frameAddr hd, pteAt_frameAddr hd, hq, hk, hpde,
    (table_congr hpde).2]
  by_cases hhas : HasTable m d q
  · rw [hpte hhas]
  · have habsent : m (1024 * d + q) &&& 1 = 0 := not_not.mp hhas
    rw [if_pos habsent, if_pos habsent]

section Words

variable {m : Words} {d i f : Nat} (h : Directory m d) (hi : i < 1024)
include h hi

/-- A wiped frame becomes the table of an absent entry. -/
theorem Directory.install (habsent : ¬ HasTable m d i) (hf : f < 2 ^ 18) (hfd : f ≠ d)
    (hfresh : ∀ q < 1024, HasTable m d q → tableOf m d q ≠ f) {m₁ : Words}
    (hm₁ : m₁ = Function.update (writeFrame m f fun _ ↦ 0) (1024 * d + i)
      (filled (m (1024 * d + i)) (frameAddr f))) :
    Directory m₁ d ∧ HasTable m₁ d i ∧ tableOf m₁ d i = f ∧
      ∀ v, walk m₁ (frameAddr d) v = walk m (frameAddr d) v := by
  have hd := h.dir_lt
  have hdir (q : Nat) (hq : q < 1024) : m₁ (1024 * d + q) =
      if q = i then filled (m (1024 * d + i)) (frameAddr f) else m (1024 * d + q) := by
    rw [hm₁, Function.update_apply]
    by_cases hqi : q = i
    · simp [hqi]
    · rw [if_neg (by omega), if_neg hqi, writeFrame_other _ hfd.symm hq]
  have hother {g : Nat} (hg : g ≠ d) (q : Nat) (hq : q < 1024) :
      m₁ (1024 * g + q) = if g = f then 0 else m (1024 * g + q) := by
    rw [hm₁, Function.update_of_ne (by omega)]
    by_cases hgf : g = f
    · rw [if_pos hgf, hgf, writeFrame_same _ _ hq]
    · rw [if_neg hgf, writeFrame_other _ hgf hq]
  have hframe : (filled (m (1024 * d + i)) (frameAddr f)).toNat / 4096 = f := by
    rw [filled_frame _ (h.entry_lt i hi), frameAddr_toNat (by omega),
      Nat.mul_div_cancel_left f (by decide)]
  -- the entries of the directory: the new one, and the old ones
  have hnew : tableOf m₁ d i = f := by rw [tableOf, hdir i hi, if_pos rfl, hframe]
  have hpresent : HasTable m₁ d i := by
    rw [HasTable, hdir i hi, if_pos rfl]
    exact filled_flag _ _ (show 0 < 3 by decide) rfl
  have hkeep {q : Nat} (hq : q < 1024) (hqi : q ≠ i) :
      (HasTable m₁ d q ↔ HasTable m d q) ∧ tableOf m₁ d q = tableOf m d q :=
    table_congr (by rw [hdir q hq, if_neg hqi])
  refine ⟨⟨hd, fun q hq ↦ ?_, fun q hq hhas j hj ↦ ?_, fun q hq hhas ↦ ?_,
    fun q hq r hr hhas hhas' heq ↦ ?_⟩, hpresent, hnew, fun v ↦ ?_⟩
  · rw [hdir q hq]
    split
    · exact filled_lt (h.entry_lt i hi) (by rw [frameAddr_toNat (by omega)]; omega)
    · exact h.entry_lt q hq
  · by_cases hqi : q = i
    · rw [hqi, hnew, hother hfd j hj, if_pos rfl]
      decide
    · have hold := (hkeep hq hqi).1.mp hhas
      rw [(hkeep hq hqi).2, hother (h.dir_ne q hq hold) j hj, if_neg (hfresh q hq hold)]
      exact h.leaf_lt q hq hold j hj
  · by_cases hqi : q = i
    · rw [hqi, hnew]
      exact hfd
    · rw [(hkeep hq hqi).2]
      exact h.dir_ne q hq ((hkeep hq hqi).1.mp hhas)
  · by_cases hqi : q = i
    · by_cases hri : r = i
      · rw [hqi, hri]
      · rw [hqi, hnew, (hkeep hr hri).2] at heq
        exact absurd heq.symm (hfresh r hr ((hkeep hr hri).1.mp hhas'))
    · have hold := (hkeep hq hqi).1.mp hhas
      rw [(hkeep hq hqi).2] at heq
      by_cases hri : r = i
      · rw [hri, hnew] at heq
        exact absurd heq (hfresh q hq hold)
      · rw [(hkeep hr hri).2] at heq
        exact h.inj q hq r hr hold ((hkeep hr hri).1.mp hhas') heq
  · have hv := v.isLt
    have hq : v.toNat / 4096 / 1024 < 1024 := by omega
    have hk : v.toNat / 4096 % 1024 < 1024 := Nat.mod_lt _ (by decide)
    by_cases hqi : v.toNat / 4096 / 1024 = i
    · -- the page had no table, and in the new one it is absent
      have hold : m (1024 * d + i) &&& 1 = 0 := not_not.mp habsent
      rw [walk_eq, walk_eq, pdeAt_frameAddr hd, pteAt_frameAddr hd, hqi, if_neg hpresent,
        if_pos hold, hnew, hother hfd _ hk, if_pos rfl]
      rfl
    · refine walk_frameAddr_congr hd rfl rfl (by rw [hdir _ hq, if_neg hqi]) fun hhas ↦ ?_
      rw [hother (h.dir_ne _ hq hhas) _ hk, if_neg (hfresh _ hq hhas)]

/-- Filling in entry `j` of a table maps one page and leaves all others alone. -/
theorem Directory.setLeaf (hhas : HasTable m d i) {j : Nat} (hj : j < 1024) {phys : u32}
    (hlt : phys.toNat < 2 ^ 31) {m' : Words}
    (hm' : m' = Function.update m (1024 * tableOf m d i + j)
      (filled (m (1024 * tableOf m d i + j)) phys)) :
    Directory m' d ∧ (∀ v : u32, v.toNat / 4096 = 1024 * i + j → walk m' (frameAddr d) v =
        some (filled (m (1024 * tableOf m d i + j)) phys)) ∧
      ∀ v : u32, v.toNat / 4096 ≠ 1024 * i + j → walk m' (frameAddr d) v = walk m (frameAddr d) v := by
  have hd := h.dir_lt
  have htd := h.dir_ne i hi hhas
  have hdir (q : Nat) (hq : q < 1024) : m' (1024 * d + q) = m (1024 * d + q) := by
    rw [hm', Function.update_of_ne (by omega)]
  have hkeep {q : Nat} (hq : q < 1024) :
      (HasTable m' d q ↔ HasTable m d q) ∧ tableOf m' d q = tableOf m d q :=
    table_congr (hdir q hq)
  have hleaf {q : Nat} (hq : q < 1024) (hhas' : HasTable m d q) {k : Nat} (hk : k < 1024) :
      m' (1024 * tableOf m d q + k) = if q = i ∧ k = j then
        filled (m (1024 * tableOf m d i + j)) phys else m (1024 * tableOf m d q + k) := by
    rw [hm', Function.update_apply]
    by_cases hsame : q = i ∧ k = j
    · simp [hsame.1, hsame.2]
    · rw [if_neg hsame, if_neg fun heq ↦ ?_]
      have htable : tableOf m d q = tableOf m d i := by omega
      exact hsame ⟨h.inj q hq i hi hhas' hhas htable, by omega⟩
  refine ⟨⟨hd, fun q hq ↦ ?_, fun q hq hhas' k hk ↦ ?_, fun q hq hhas' ↦ ?_,
    fun q hq r hr hhas' hhas'' heq ↦ ?_⟩, fun v hv ↦ ?_, fun v hv ↦ ?_⟩
  · rw [hdir q hq]
    exact h.entry_lt q hq
  · have hold := (hkeep hq).1.mp hhas'
    rw [(hkeep hq).2, hleaf hq hold hk]
    split
    · exact filled_lt (h.leaf_lt i hi hhas j hj) hlt
    · exact h.leaf_lt q hq hold k hk
  · rw [(hkeep hq).2]
    exact h.dir_ne q hq ((hkeep hq).1.mp hhas')
  · rw [(hkeep hq).2, (hkeep hr).2] at heq
    exact h.inj q hq r hr ((hkeep hq).1.mp hhas') ((hkeep hr).1.mp hhas'') heq
  · have hpde : v.toNat / 4096 / 1024 = i := by omega
    have hpte : v.toNat / 4096 % 1024 = j := by omega
    have hset : ¬ filled (m (1024 * tableOf m d i + j)) phys &&& 1 = 0 :=
      filled_flag _ _ (show 0 < 3 by decide) rfl
    have hword := hleaf hi hhas hj
    rw [if_pos ⟨rfl, rfl⟩] at hword
    rw [walk_eq, pdeAt_frameAddr hd, pteAt_frameAddr hd, hpde, hpte, hdir i hi, if_neg hhas,
      (hkeep hi).2, hword, if_neg hset]
  · have hvlt := v.isLt
    have hq : v.toNat / 4096 / 1024 < 1024 := by omega
    have hk : v.toNat / 4096 % 1024 < 1024 := Nat.mod_lt _ (by decide)
    refine walk_frameAddr_congr hd rfl rfl (hdir _ hq) fun hhas' ↦ ?_
    have hword := hleaf hq hhas' hk
    rwa [if_neg (by omega)] at hword

end Words

end TenOs.Mm
