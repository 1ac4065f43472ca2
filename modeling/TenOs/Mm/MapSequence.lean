import TenOs.Mm.AddressSpace
import TenOs.Mm.PageMapping

/-!
# The mapping law

A sequence of `vmmngr_map_page` calls maps each page that it names to the frame of the last call for
it and leaves every other page as it was, as long as the kernel's window reaches what the calls edit.
-/

namespace TenOs.Mm

open TenOs.Base TenOs.Lib FrameAllocator

variable {A : Type} [FrameAllocator A]

/-! ## Calls -/

/-- `phys` and `virt`. -/
abbrev MapCall := u32 × u32

def MapCall.Ok (c : MapCall) : Prop :=
  c.1 ≠ 0 ∧ c.1.toNat % 4096 = 0 ∧ c.1.toNat < 2 ^ 31 ∧ c.2 ≠ 0

/-- The index in the directory, and in the table. -/
def MapCall.dirIndex (c : MapCall) : Nat := c.2.toNat / 4096 / 1024
def MapCall.tableIndex (c : MapCall) : Nat := c.2.toNat / 4096 % 1024

/-- A table that a call would allocate lies in a fresh frame below 1 GiB. -/
def FreshTable (d : Nat) (s : Machine A) (c : MapCall) : Prop :=
  ¬ HasTable s.mem d c.dirIndex →
    frame s.frames 0 ≠ 0 ∧ (frame s.frames 0).toNat % 4096 = 0 ∧ (frame s.frames 0).toNat < 2 ^ 30 ∧
      (frame s.frames 0).toNat / 4096 ≠ d ∧
      ∀ i < 1024, HasTable s.mem d i → tableOf s.mem d i ≠ (frame s.frames 0).toNat / 4096

/-- The frame of the table that the call edits. -/
def editedTable (d : Nat) (s : Machine A) (c : MapCall) : Nat :=
  if s.mem (1024 * d + c.dirIndex) &&& 1 = 0 then (frame s.frames 0).toNat / 4096
  else tableOf s.mem d c.dirIndex

/-- Memory once the frame of a new table is wiped, -/
def wipedMem (d : Nat) (s : Machine A) (c : MapCall) : Words :=
  if s.mem (1024 * d + c.dirIndex) &&& 1 = 0 then writeFrame s.mem (editedTable d s c) fun _ ↦ 0
  else s.mem

/-- once the directory has the new table, -/
def installedMem (d : Nat) (s : Machine A) (c : MapCall) : Words :=
  if s.mem (1024 * d + c.dirIndex) &&& 1 = 0 then
    Function.update (wipedMem d s c) (1024 * d + c.dirIndex)
      (filled (s.mem (1024 * d + c.dirIndex)) (frameAddr (editedTable d s c)))
  else s.mem

/-- and once the table has the page. -/
def mappedMem (d : Nat) (s : Machine A) (c : MapCall) : Words :=
  Function.update (installedMem d s c) (1024 * editedTable d s c + c.tableIndex)
    (filled (installedMem d s c (1024 * editedTable d s c + c.tableIndex)) c.1)

section Memories

variable {d : Nat} {s : Machine A} {c : MapCall}

theorem mems_of_hasTable (hhas : HasTable s.mem d c.dirIndex) :
    editedTable d s c = tableOf s.mem d c.dirIndex ∧ wipedMem d s c = s.mem ∧
      installedMem d s c = s.mem :=
  ⟨if_neg hhas, if_neg hhas, if_neg hhas⟩

theorem mems_of_absent (habsent : ¬ HasTable s.mem d c.dirIndex) :
    editedTable d s c = (frame s.frames 0).toNat / 4096 ∧
      wipedMem d s c = writeFrame s.mem (editedTable d s c) (fun _ ↦ 0) ∧
      installedMem d s c = Function.update (writeFrame s.mem (editedTable d s c) fun _ ↦ 0)
        (1024 * d + c.dirIndex)
        (filled (s.mem (1024 * d + c.dirIndex)) (frameAddr (editedTable d s c))) := by
  have hentry : s.mem (1024 * d + c.dirIndex) &&& 1 = 0 := not_not.mp habsent
  have hwiped : wipedMem d s c = writeFrame s.mem (editedTable d s c) (fun _ ↦ 0) := if_pos hentry
  refine ⟨if_pos hentry, hwiped, ?_⟩
  rw [installedMem, if_pos hentry, hwiped]

end Memories

/-- The window at `0xC0000000` reaches the directory and the table whenever the call edits them: before
it and in what it has made of memory so far. -/
structure Windowed (d : Nat) (s : Machine A) (c : MapCall) : Prop where
  dir : ∀ m ∈ [s.mem, wipedMem d s c, installedMem d s c], InWindow m s.cr3 d
  table : ∀ m ∈ [s.mem, wipedMem d s c, installedMem d s c, mappedMem d s c],
    InWindow m s.cr3 (editedTable d s c)

def mapPages : List MapCall → Machine A → Option (Machine A)
  | [], s => some s
  | c :: rest, s => (s.vmmngrMapPage c.1 c.2).bind (mapPages rest)

/-- `P` holds of each call in the state it comes in. -/
def AtEach (P : Machine A → MapCall → Prop) : List MapCall → Machine A → Prop
  | [], _ => True
  | c :: rest, s => P s c ∧ ∀ s', s.vmmngrMapPage c.1 c.2 = some s' → AtEach P rest s'

/-- The frame address of the last call for the page of `v`. -/
def lastCall : List MapCall → u32 → Option u32
  | [], _ => none
  | c :: rest, v =>
      (lastCall rest v).or (if c.2.toNat / 4096 = v.toNat / 4096 then some c.1 else none)

/-- Page `v` of the directory in frame `d` is the frame at `phys`, present, writable and open to user
mode. -/
def MapsTo (m : Words) (d : Nat) (v phys : u32) : Prop :=
  ∃ e, walk m (frameAddr d) v = some e ∧ 4096 * (e.toNat / 4096) = phys.toNat ∧
    e &&& I86_PTE_PRESENT ≠ 0 ∧ e &&& I86_PTE_WRITABLE ≠ 0 ∧ e &&& I86_PTE_USER ≠ 0

/-- What a sequence of calls does to the directory in frame `d`. -/
structure MappingLaw (d : Nat) (calls : List MapCall) (m m' : Words) : Prop where
  named : ∀ v phys, lastCall calls v = some phys → MapsTo m' d v phys
  others : ∀ v, lastCall calls v = none → walk m' (frameAddr d) v = walk m (frameAddr d) v

theorem mapsTo_filled {m : Words} {d : Nat} {v phys e : u32} (he : e.toNat < 2 ^ 31)
    (haligned : phys.toNat % 4096 = 0) (hwalk : walk m (frameAddr d) v = some (filled e phys)) :
    MapsTo m d v phys := by
  refine ⟨_, hwalk, ?_, filled_flag e phys (show 0 < 3 by decide) rfl,
    filled_flag e phys (show 1 < 3 by decide) rfl, filled_flag e phys (show 2 < 3 by decide) rfl⟩
  rw [filled_frame phys he]
  omega

/-! ## One call -/

theorem MapCall.dirIndex_lt (c : MapCall) : c.dirIndex < 1024 := by
  have hv := c.2.isLt
  unfold dirIndex
  omega

theorem MapCall.tableIndex_lt (c : MapCall) : c.tableIndex < 1024 := Nat.mod_lt _ (by decide)

theorem pageGetPhysicalAddress_eq {e : u32} :
    pageGetPhysicalAddress e = frameAddr (e.toNat / 4096) := by
  have he := e.isLt
  apply BitVec.eq_of_toNat_eq
  rw [pageGetPhysicalAddress, toNat_and_not_lowMask _ (k := 12) rfl, frameAddr_toNat (by omega)]
  exact Nat.mul_comm _ _

section Step

variable {d : Nat} {s : Machine A} {c : MapCall} (hdir : Directory s.mem d)
  (hcur : s.curDirectory = P2V (frameAddr d))
include hdir hcur

omit [FrameAllocator A] in
-- The entry is read through the window, where the directory is seen.
theorem load_dirEntry (hwin : InWindow s.mem s.cr3 d) :
    s.load (mEntries s.curDirectory (pageDirectoryIndex c.2)) =
      some (s.mem (1024 * d + c.dirIndex)) := by
  have hindex : (pageDirectoryIndex c.2).toNat = c.dirIndex := pageDirectoryIndex_toNat c.2
  have hd := hdir.dir_lt
  have hlt : (pageDirectoryIndex c.2).toNat < 1024 := by
    rw [hindex]
    exact c.dirIndex_lt
  rw [hcur, Machine.load_inWindow hwin (by omega) hlt, hindex]

omit [FrameAllocator A] in
-- With both pages in the window the call comes down to one word of one table.
theorem mapInTable_eq_update {t : Nat} (htable : tableOf s.mem d c.dirIndex = t)
    (hd : InWindow s.mem s.cr3 d) (ht : InWindow s.mem s.cr3 t)
    (hafter : InWindow (Function.update s.mem (1024 * t + c.tableIndex)
      (filled (s.mem (1024 * t + c.tableIndex)) c.1)) s.cr3 t) :
    s.mapInTable (mEntries s.curDirectory (pageDirectoryIndex c.2)) c.1 c.2 = some { s with
      mem := Function.update s.mem (1024 * t + c.tableIndex)
        (filled (s.mem (1024 * t + c.tableIndex)) c.1) } := by
  have hbound : t < 2 ^ 20 := by
    have he := (s.mem (1024 * d + c.dirIndex)).isLt
    rw [← htable, tableOf]
    omega
  have hset := Machine.setPte_inWindow ht hbound (pageTableIndex_toNat c.2) c.tableIndex_lt hafter
  simp only [Machine.mapInTable, Option.bind_eq_bind]
  rw [load_dirEntry hdir hcur hd, Option.bind_some, pageGetPhysicalAddress_eq]
  change s.setPte (mEntries (P2V (frameAddr (tableOf s.mem d c.dirIndex))) (pageTableIndex c.2)) c.1 = _
  rw [htable]
  exact hset

/-- Where the table is there, the call edits one entry. -/
theorem mapPage_of_hasTable (hok : c.Ok) (hwin : Windowed d s c) (hhas : HasTable s.mem d c.dirIndex) :
    s.vmmngrMapPage c.1 c.2 = some { s with mem := mappedMem d s c } ∧
      mappedMem d s c = Function.update s.mem (1024 * tableOf s.mem d c.dirIndex + c.tableIndex)
        (filled (s.mem (1024 * tableOf s.mem d c.dirIndex + c.tableIndex)) c.1) := by
  obtain ⟨htable, -, hinstalled⟩ := mems_of_hasTable hhas
  have hmapped : mappedMem d s c = Function.update s.mem
      (1024 * tableOf s.mem d c.dirIndex + c.tableIndex)
        (filled (s.mem (1024 * tableOf s.mem d c.dirIndex + c.tableIndex)) c.1) := by
    rw [mappedMem, hinstalled, htable]
  have hd := hwin.dir s.mem (by simp)
  have ht := hwin.table s.mem (by simp)
  have hafter := hwin.table (mappedMem d s c) (by simp)
  have hpresent : ¬ s.mem (1024 * d + c.dirIndex) &&& I86_PDE_PRESENT = 0 := hhas
  rw [htable] at ht
  rw [htable, hmapped] at hafter
  refine ⟨?_, hmapped⟩
  simp only [Machine.vmmngrMapPage, Option.bind_eq_bind]
  rw [if_neg (not_or.mpr ⟨hok.1, hok.2.2.2⟩), load_dirEntry hdir hcur hd, Option.bind_some,
    if_neg hpresent, hmapped]
  exact mapInTable_eq_update hdir hcur rfl hd ht hafter

/-- Where it is missing, the call makes one in the frame that the allocator returns, be it frame 0. -/
theorem mapPage_of_absent (hok : c.Ok) (hwin : Windowed d s c)
    (habsent : ¬ HasTable s.mem d c.dirIndex) {f : Nat} (hf : f = (frame s.frames 0).toNat / 4096)
    (hfresh : (frame s.frames 0).toNat % 4096 = 0 ∧ (frame s.frames 0).toNat < 2 ^ 30 ∧ f ≠ d ∧
      ∀ i < 1024, HasTable s.mem d i → tableOf s.mem d i ≠ f) {m₁ : Words}
    (hm₁ : m₁ = Function.update (writeFrame s.mem f fun _ ↦ 0) (1024 * d + c.dirIndex)
      (filled (s.mem (1024 * d + c.dirIndex)) (frameAddr f))) :
    s.vmmngrMapPage c.1 c.2 = some { s.allocMemoryBlock.1 with mem := mappedMem d s c } ∧
      mappedMem d s c = Function.update m₁ (1024 * f + c.tableIndex)
        (filled (m₁ (1024 * f + c.tableIndex)) c.1) := by
  obtain ⟨haligned, hlt, hfd, hother⟩ := hfresh
  have hd := hdir.dir_lt
  have hi := c.dirIndex_lt
  have hentry : s.mem (1024 * d + c.dirIndex) &&& 1 = 0 := not_not.mp habsent
  have hret : s.allocMemoryBlock.2 = frameAddr f := by
    apply BitVec.eq_of_toNat_eq
    rw [frameAddr_toNat (by omega)]
    change (frame s.frames 0).toNat = _
    omega
  have hP2V : P2V (frameAddr f) ≠ 0 := P2V_ne_zero (by omega)
  obtain ⟨htable, hwiped, hinstalled⟩ := mems_of_absent habsent
  rw [← hf] at htable
  rw [htable] at hwiped hinstalled
  rw [← hm₁] at hinstalled
  have hmapped : mappedMem d s c = Function.update m₁ (1024 * f + c.tableIndex)
      (filled (m₁ (1024 * f + c.tableIndex)) c.1) := by
    rw [mappedMem, hinstalled, htable]
  -- what the window reaches before the call, after the wipe, with the new table and at the end
  have hdirs := hwin.dir
  have htables := hwin.table
  rw [hwiped, hinstalled, List.forall_mem_cons, List.forall_mem_cons, List.forall_mem_singleton] at hdirs
  rw [hwiped, hinstalled, hmapped, htable, List.forall_mem_cons, List.forall_mem_cons,
    List.forall_mem_cons, List.forall_mem_singleton] at htables
  obtain ⟨hd₀, hdWiped, hd₁⟩ := hdirs
  obtain ⟨ht₀, htWiped, ht₁, htEnd⟩ := htables
  have hindex : (pageDirectoryIndex c.2).toNat = c.dirIndex := pageDirectoryIndex_toNat c.2
  have hwipe : s.allocMemoryBlock.1.memset (P2V (frameAddr f)) 0 4096 =
      some { s.allocMemoryBlock.1 with mem := writeFrame s.mem f fun _ ↦ 0 } :=
    Machine.memset_inWindow (s := s.allocMemoryBlock.1) ht₀ (show f < 2 ^ 20 by omega) htWiped
  have hold : writeFrame s.mem f (fun _ ↦ 0) (1024 * d + c.dirIndex) = s.mem (1024 * d + c.dirIndex) :=
    writeFrame_other _ hfd.symm hi
  have hdAfter : InWindow (Function.update (writeFrame s.mem f fun _ ↦ 0) (1024 * d + c.dirIndex)
      (filled (writeFrame s.mem f (fun _ ↦ 0) (1024 * d + c.dirIndex)) (frameAddr f))) s.cr3 d := by
    rw [hold, ← hm₁]
    exact hd₁
  have hpde := Machine.setPte_inWindow
    (s := { s.allocMemoryBlock.1 with mem := writeFrame s.mem f fun _ ↦ 0 }) hdWiped
    (show d < 2 ^ 20 by omega) hindex hi hdAfter
  simp only [hold, ← hm₁] at hpde
  have hinstall := hdir.install hi habsent (show f < 2 ^ 18 by omega) hfd hother hm₁
  have hmap := mapInTable_eq_update (s := { s.allocMemoryBlock.1 with mem := m₁ }) (c := c) hinstall.1
    hcur hinstall.2.2.1 hd₁ ht₁ htEnd
  have hpresent : s.mem (1024 * d + c.dirIndex) &&& I86_PDE_PRESENT = 0 := hentry
  refine ⟨?_, hmapped⟩
  simp only [Machine.vmmngrMapPage, Option.bind_eq_bind]
  rw [if_neg (not_or.mpr ⟨hok.1, hok.2.2.2⟩), load_dirEntry hdir hcur hd₀, Option.bind_some,
    if_pos hpresent, hret, if_neg hP2V, hwipe, Option.bind_some, hcur,
    Machine.setPde_eq_setPte]
  rw [hpde, Option.bind_some, ← hcur, hmapped]
  exact hmap

/-- The machine after the call. -/
def mapped (d : Nat) (s : Machine A) (c : MapCall) : Machine A :=
  { s with
    frames := if s.mem (1024 * d + c.dirIndex) &&& 1 = 0 then s.allocMemoryBlock.1.frames else s.frames
    mem := mappedMem d s c }

/-- The step: the page of the call is mapped, and no other page changes. -/
theorem mapPage_step (hok : c.Ok) (hwin : Windowed d s c) (hfresh : FreshTable d s c) :
    s.vmmngrMapPage c.1 c.2 = some (mapped d s c) ∧ Directory (mappedMem d s c) d ∧
      (∀ v, c.2.toNat / 4096 = v.toNat / 4096 → MapsTo (mappedMem d s c) d v c.1) ∧
      ∀ v, c.2.toNat / 4096 ≠ v.toNat / 4096 →
        walk (mappedMem d s c) (frameAddr d) v = walk s.mem (frameAddr d) v := by
  have hi := c.dirIndex_lt
  have hj := c.tableIndex_lt
  have hpage (v : u32) : v.toNat / 4096 = 1024 * c.dirIndex + c.tableIndex ↔
      c.2.toNat / 4096 = v.toNat / 4096 := by
    unfold MapCall.dirIndex MapCall.tableIndex
    omega
  by_cases hhas : HasTable s.mem d c.dirIndex
  · obtain ⟨hmap, hmem⟩ := mapPage_of_hasTable hdir hcur hok hwin hhas
    obtain ⟨hdir', hsame, hother⟩ := hdir.setLeaf hi hhas hj hok.2.2.1 hmem
    refine ⟨hmap.trans (by rw [mapped, if_neg hhas]), hdir', fun v hv ↦ ?_, fun v hv ↦ ?_⟩
    · exact mapsTo_filled (hdir.leaf_lt _ hi hhas _ hj) hok.2.1 (hsame v ((hpage v).mpr hv))
    · exact hother v (mt (hpage v).mp hv)
  · obtain ⟨-, -, hlt, hfd, hfresh'⟩ := hfresh hhas
    have habsent : s.mem (1024 * d + c.dirIndex) &&& 1 = 0 := not_not.mp hhas
    obtain ⟨m₁, hm₁⟩ : ∃ m₁, m₁ = Function.update
        (writeFrame s.mem ((frame s.frames 0).toNat / 4096) fun _ ↦ 0) (1024 * d + c.dirIndex)
        (filled (s.mem (1024 * d + c.dirIndex)) (frameAddr ((frame s.frames 0).toNat / 4096))) :=
      ⟨_, rfl⟩
    obtain ⟨hdir₁, hhas₁, htable₁, hwalk₁⟩ := hdir.install hi hhas (by omega) hfd hfresh' hm₁
    obtain ⟨hmap, hmem⟩ := mapPage_of_absent hdir hcur hok hwin hhas rfl (hfresh hhas).2 hm₁
    rw [← htable₁] at hmem
    obtain ⟨hdir', hsame, hother⟩ := hdir₁.setLeaf hi hhas₁ hj hok.2.2.1 hmem
    refine ⟨hmap.trans (by rw [mapped, if_pos habsent]; rfl), hdir', fun v hv ↦ ?_, fun v hv ↦ ?_⟩
    · exact mapsTo_filled (hdir₁.leaf_lt _ hi hhas₁ _ hj) hok.2.1 (hsame v ((hpage v).mpr hv))
    · rw [← hwalk₁ v]
      exact hother v (mt (hpage v).mp hv)

end Step

/-! ## The directory in force -/

section InForce

variable {d : Nat} {s : Machine A} {c : MapCall} (hdir : Directory s.mem d) (hcr3 : s.cr3 = frameAddr d)
include hdir hcr3

omit [FrameAllocator A] in
-- A page of the window hangs on an entry of the directory and on one of that entry's table.
theorem inWindow_words {f : Nat} (h : InWindow s.mem s.cr3 f) : ∃ q < 1024, ∃ k < 1024,
    (P2V (frameAddr f)).toNat / 4096 = 1024 * q + k ∧ HasTable s.mem d q ∧
      ∀ m', m' (1024 * d + q) = s.mem (1024 * d + q) →
        (InWindow m' s.cr3 f ↔ m' (1024 * tableOf s.mem d q + k) &&& 1 ≠ 0 ∧
          (m' (1024 * tableOf s.mem d q + k)).toNat / 4096 = f) := by
  have hd := hdir.dir_lt
  have hv := (P2V (frameAddr f)).isLt
  have hpde := (inWindow_iff.mp h).1
  rw [hcr3, pdeAt_frameAddr hd] at hpde
  refine ⟨_, by omega, _, Nat.mod_lt _ (show 0 < 1024 by decide), (Nat.div_add_mod _ 1024).symm, hpde,
    fun m' hm' ↦ ?_⟩
  rw [inWindow_iff, hcr3, pdeAt_frameAddr hd, pteAt_frameAddr hd, hm', (table_congr hm').2]
  exact and_iff_right hpde

-- The call leaves the window's page of the table where it is, unless it is for that page itself.
theorem inWindow_mapped_iff (hhas : HasTable s.mem d c.dirIndex) (haligned : c.1.toNat % 4096 = 0)
    (ht : InWindow s.mem s.cr3 (editedTable d s c)) :
    InWindow (mappedMem d s c) s.cr3 (editedTable d s c) ↔
      (c.2.toNat / 4096 = (P2V (frameAddr (editedTable d s c))).toNat / 4096 →
        c.1 = frameAddr (editedTable d s c)) := by
  have hi := c.dirIndex_lt
  have hj := c.tableIndex_lt
  have hpage : c.2.toNat / 4096 = 1024 * c.dirIndex + c.tableIndex := by
    unfold MapCall.dirIndex MapCall.tableIndex
    omega
  obtain ⟨htable, -, hinstalled⟩ := mems_of_hasTable hhas
  obtain ⟨q, hq, k, hk, hplace, hasq, hwords⟩ := inWindow_words hdir hcr3 ht
  have hleaf := (hwords s.mem rfl).mp ht
  have hdirSame : mappedMem d s c (1024 * d + q) = s.mem (1024 * d + q) := by
    have hne := hdir.dir_ne _ hi hhas
    rw [mappedMem, hinstalled, htable, Function.update_of_ne (by omega)]
  rw [hwords _ hdirSame, mappedMem, hinstalled, htable]
  by_cases hentry : 1024 * tableOf s.mem d q + k = 1024 * tableOf s.mem d c.dirIndex + c.tableIndex
  · have hsame := hdir.inj q hq _ hi hasq hhas (by omega)
    have hown : c.2.toNat / 4096 = (P2V (frameAddr (editedTable d s c))).toNat / 4096 := by
      rw [hpage, hplace, hsame]
      omega
    have hlt : tableOf s.mem d c.dirIndex < 2 ^ 20 := by
      have he := (s.mem (1024 * d + c.dirIndex)).isLt
      unfold tableOf
      omega
    have hphys : c.1.toNat / 4096 = tableOf s.mem d c.dirIndex ↔
        c.1 = frameAddr (tableOf s.mem d c.dirIndex) := by
      rw [← BitVec.toNat_inj, frameAddr_toNat hlt]
      omega
    rw [hentry, Function.update_self, filled_frame _ (hdir.leaf_lt _ hi hhas _ hj), hphys]
    rw [htable] at hown
    exact ⟨fun h _ ↦ h.2, fun h ↦ ⟨filled_flag _ _ (show 0 < 3 by decide) rfl, h hown⟩⟩
  · rw [Function.update_of_ne hentry, ← htable]
    refine iff_of_true hleaf fun heq ↦ absurd ?_ hentry
    rw [show q = c.dirIndex by omega]
    omega

-- The words of a page that was mapped lie neither in a new table nor in its entry.
theorem inWindow_kept (hhas : ¬ HasTable s.mem d c.dirIndex) (hfresh : FreshTable d s c) {f : Nat}
    (hf : InWindow s.mem s.cr3 f) : ∀ m ∈ [s.mem, wipedMem d s c, installedMem d s c, mappedMem d s c],
      InWindow m s.cr3 f := by
  have hi := c.dirIndex_lt
  have hj := c.tableIndex_lt
  obtain ⟨-, -, -, hfd, hother⟩ := hfresh hhas
  obtain ⟨htable, hwiped, hinstalled⟩ := mems_of_absent hhas
  rw [← htable] at hfd hother
  obtain ⟨q, hq, k, hk, -, hasq, hwords⟩ := inWindow_words hdir hcr3 hf
  have hqi : q ≠ c.dirIndex := fun heq ↦ hhas (heq ▸ hasq)
  have hqd := hdir.dir_ne q hq hasq
  have hqf := hother q hq hasq
  have hleaf := (hwords s.mem rfl).mp hf
  rw [mappedMem, hinstalled, hwiped]
  simp only [List.forall_mem_cons, List.not_mem_nil, false_imp_iff, forall_const, and_true]
  refine ⟨hf, ?_, ?_, ?_⟩
  · rw [hwords _ (writeFrame_other _ hfd.symm hq), writeFrame_other _ hqf hk]
    exact hleaf
  · have hdirSame := Function.update_of_ne (show 1024 * d + q ≠ 1024 * d + c.dirIndex by omega)
      (filled (s.mem (1024 * d + c.dirIndex)) (frameAddr (editedTable d s c)))
      (writeFrame s.mem (editedTable d s c) fun _ ↦ 0)
    rw [writeFrame_other _ hfd.symm hq] at hdirSame
    rw [hwords _ hdirSame, Function.update_of_ne (by omega), writeFrame_other _ hqf hk]
    exact hleaf
  · rw [hwords, Function.update_of_ne (by omega), Function.update_of_ne (by omega),
      writeFrame_other _ hqf hk]
    · exact hleaf
    · rw [Function.update_of_ne (by omega), Function.update_of_ne (by omega),
        writeFrame_other _ hfd.symm hq]

/-- In a directory that is in force the window has to reach the directory and the table, and the call
must not move the window's page of the table. -/
theorem windowed_iff_inForce (haligned : c.1.toNat % 4096 = 0) (hfresh : FreshTable d s c) :
    Windowed d s c ↔ InWindow s.mem s.cr3 d ∧ InWindow s.mem s.cr3 (editedTable d s c) ∧
      (c.2.toNat / 4096 = (P2V (frameAddr (editedTable d s c))).toNat / 4096 →
        c.1 = frameAddr (editedTable d s c)) := by
  by_cases hhas : HasTable s.mem d c.dirIndex
  · obtain ⟨-, hwiped, hinstalled⟩ := mems_of_hasTable hhas
    constructor
    · intro h
      have ht := h.table _ List.mem_cons_self
      refine ⟨h.dir _ List.mem_cons_self, ht, (inWindow_mapped_iff hdir hcr3 hhas haligned ht).mp ?_⟩
      exact h.table _ (by simp)
    · rintro ⟨hd, ht, hown⟩
      have hend := (inWindow_mapped_iff hdir hcr3 hhas haligned ht).mpr hown
      constructor
      · rw [hwiped, hinstalled]
        simpa using hd
      · rw [hwiped, hinstalled]
        simpa using ⟨ht, hend⟩
  · constructor
    · intro h
      have ht := h.table _ List.mem_cons_self
      obtain ⟨q, hq, k, hk, hplace, hasq, -⟩ := inWindow_words hdir hcr3 ht
      refine ⟨h.dir _ List.mem_cons_self, ht, fun hown ↦ absurd ?_ hhas⟩
      -- the window's page of the table has a table already
      have hindex : q = c.dirIndex := by
        unfold MapCall.dirIndex
        omega
      exact hindex ▸ hasq
    · rintro ⟨hd, ht, -⟩
      exact ⟨fun m hm ↦ inWindow_kept hdir hcr3 hhas hfresh hd m
        (List.mem_append_left [mappedMem d s c] hm), inWindow_kept hdir hcr3 hhas hfresh ht⟩

end InForce

/-! ## Sequences -/

/-- As long as the window reaches what each call edits, every sequence comes to its end, maps each
page that it names to the frame of the last call for it, and changes no other page. -/
theorem mappingLaw_of_windowed {d : Nat} {s : Machine A} (calls : List MapCall)
    (hdir : Directory s.mem d) (hcur : s.curDirectory = P2V (frameAddr d))
    (hok : ∀ c ∈ calls, c.Ok) (hfresh : AtEach (FreshTable d) calls s)
    (hwin : AtEach (Windowed d) calls s) :
    ∃ s', mapPages calls s = some s' ∧ MappingLaw d calls s.mem s'.mem := by
  induction calls generalizing s with
  | nil => exact ⟨s, rfl, fun v phys h ↦ (by cases h), fun v _ ↦ rfl⟩
  | cons c rest ih =>
    obtain ⟨hstep, hdir₁, hsame, hother⟩ :=
      mapPage_step hdir hcur (hok c List.mem_cons_self) hwin.1 hfresh.1
    obtain ⟨s', hrest, hlaw⟩ := ih (s := mapped d s c) hdir₁ hcur
      (fun c hc ↦ hok c (List.mem_cons_of_mem _ hc)) (hfresh.2 _ hstep) (hwin.2 _ hstep)
    refine ⟨s', by rw [mapPages, hstep]; exact hrest, fun v phys hlast ↦ ?_, fun v hlast ↦ ?_⟩
    · -- the last call for the page is a later one, or this one
      rw [lastCall] at hlast
      cases hlater : lastCall rest v with
      | some p =>
        rw [hlater, Option.some_or] at hlast
        exact hlaw.named v phys (hlater.trans hlast)
      | none =>
        rw [hlater, Option.none_or] at hlast
        by_cases hv : c.2.toNat / 4096 = v.toNat / 4096
        · rw [if_pos hv] at hlast
          obtain ⟨e, hwalk, he⟩ := hsame v hv
          rw [← Option.some.inj hlast]
          exact ⟨e, (hlaw.others v hlater).trans hwalk, he⟩
        · rw [if_neg hv] at hlast
          cases hlast
    · rw [lastCall, Option.or_eq_none_iff] at hlast
      by_cases hv : c.2.toNat / 4096 = v.toNat / 4096
      · rw [if_pos hv] at hlast
        cases hlast.2
      · exact (hlaw.others v hlast.1).trans (hother v hv)

/-! ## A small address space -/

/-- The directory is in frame 8.  Its one table, in frame 9, maps the first 4 MiB of the window. -/
def smallMem : Words := fun k ↦
  if k = 1024 * 8 + 768 then entry (some 9)
  else if k / 1024 = 9 then entry (some (k % 1024))
  else 0

def smallSpace : Machine MemMngr where
  frames := freshMngr
  mem := smallMem
  cr3 := 0x8000
  curDirectory := 0xC0008000
  curPdbr := 0x8000
  kernelDirectory := 0xC0008000
  kernelDirectoryPhysical := 0x8000

theorem smallMem_lt (k : Nat) : (smallMem k).toNat < 2 ^ 31 := by
  have hentry {n : Nat} (hn : n < 1024) : (entry (some n)).toNat < 2 ^ 31 := by
    rw [entry_some_toNat (by omega)]
    omega
  unfold smallMem
  split
  · exact hentry (by decide)
  · split
    · exact hentry (Nat.mod_lt _ (by decide))
    · decide

theorem smallMem_hasTable {i : Nat} (hi : i < 1024) (hhas : HasTable smallMem 8 i) : i = 768 := by
  by_contra hne
  apply hhas
  unfold smallMem
  rw [if_neg (by omega), if_neg (by omega)]
  rfl

theorem directory_smallMem : Directory smallMem 8 := by
  have htable : tableOf smallMem 8 768 = 9 := by decide +kernel
  refine ⟨by decide, fun i _ ↦ smallMem_lt _, fun i _ _ j _ ↦ smallMem_lt _, fun i hi hhas ↦ ?_,
    fun i hi j hj hhas hhas' _ ↦ ?_⟩
  · rw [smallMem_hasTable hi hhas, htable]
    decide
  · rw [smallMem_hasTable hi hhas, smallMem_hasTable hj hhas']

theorem freshTable_smallMem {s : Machine MemMngr} (hmem : s.mem = smallMem) {f : Nat}
    (hframe : frame s.frames 0 = frameAddr f) (hf : f ∉ [0, 8, 9]) (hlt : f < 2 ^ 18) (c : MapCall) :
    FreshTable 8 s c := by
  have hne : f ≠ 0 ∧ f ≠ 8 ∧ f ≠ 9 := by simpa using hf
  intro _
  rw [hframe, hmem, frameAddr_toNat (by omega)]
  refine ⟨frameAddr_ne_zero (by omega) hne.1, by omega, by omega, by omega, fun i hi hhas ↦ ?_⟩
  have htable : tableOf smallMem 8 768 = 9 := by decide +kernel
  rw [smallMem_hasTable hi hhas, htable]
  omega

/-- Page 3, at the low end, is mapped to frame 7 through a new table in frame 1 and then to frame 6.
Page 4 goes into the same table, and the window's page of the directory is mapped where it is. -/
def smallCalls : List MapCall :=
  [(0x7000, 0x3000), (0x6000, 0x3000), (0x5000, 0x4000), (0x8000, 0xC0008000)]

theorem AtEach.imp {P Q : Machine A → MapCall → Prop} (h : ∀ s c, P s c → Q s c) {calls : List MapCall}
    {s : Machine A} (hcalls : AtEach P calls s) : AtEach Q calls s := by
  induction calls generalizing s with
  | nil => trivial
  | cons c rest ih => exact ⟨h s c hcalls.1, fun s' hs' ↦ ih (hcalls.2 s' hs')⟩

-- A call that meets both conditions leads to the one state in which the next call comes.
theorem AtEach.next {d : Nat} {s : Machine A} {c : MapCall} {rest : List MapCall}
    (hdir : Directory s.mem d) (hcur : s.curDirectory = P2V (frameAddr d)) (hcr3 : s.cr3 = frameAddr d)
    (hok : c.Ok) (hfresh : FreshTable d s c) (hd : InWindow s.mem s.cr3 d)
    (ht : InWindow s.mem s.cr3 (editedTable d s c))
    (hown : c.2.toNat / 4096 = (P2V (frameAddr (editedTable d s c))).toNat / 4096 →
      c.1 = frameAddr (editedTable d s c))
    (hrest : Directory (mappedMem d s c) d →
      AtEach (fun s c ↦ FreshTable d s c ∧ Windowed d s c) rest (mapped d s c)) :
    AtEach (fun s c ↦ FreshTable d s c ∧ Windowed d s c) (c :: rest) s := by
  have hwin := (windowed_iff_inForce hdir hcr3 hok.2.1 hfresh).mpr ⟨hd, ht, hown⟩
  obtain ⟨hmap, hdir', -⟩ := mapPage_step hdir hcur hok hwin hfresh
  refine ⟨⟨hfresh, hwin⟩, fun s' hs' ↦ ?_⟩
  rw [hmap, Option.some.injEq] at hs'
  exact hs' ▸ hrest hdir'

theorem smallCalls_ok : ∀ c ∈ smallCalls, c.Ok := by
  unfold smallCalls MapCall.Ok
  simp only [List.forall_mem_cons, List.not_mem_nil, false_imp_iff, forall_const, and_true]
  decide

/-- `smallSpace` after the first `n` of the calls. -/
def smallSpaceAfter (n : Nat) : Machine MemMngr := (smallCalls.take n).foldl (mapped 8) smallSpace

theorem smallCalls_atEach :
    AtEach (fun s c ↦ FreshTable 8 s c ∧ Windowed 8 s c) smallCalls smallSpace := by
  have hok (i : Nat) (hi : i < smallCalls.length) : smallCalls[i].Ok :=
    smallCalls_ok _ (List.getElem_mem hi)
  -- after the first call the tables are there
  have htables : ∀ n ∈ [1, 2], (smallSpaceAfter n).mem (1024 * 8 + 0) &&& 1 ≠ 0 := by decide +kernel
  have hwindow : (smallSpaceAfter 3).mem (1024 * 8 + 768) &&& 1 ≠ 0 := by decide +kernel
  refine .next directory_smallMem rfl rfl (hok 0 (by decide))
    (freshTable_smallMem rfl (f := 1) (by decide +kernel) (by decide) (by decide) _)
    (by decide +kernel) (by decide +kernel) (by decide +kernel) fun hdir₁ ↦ ?_
  refine .next hdir₁ rfl rfl (hok 1 (by decide)) (fun h ↦ absurd (htables 1 (by decide)) h)
    (by decide +kernel) (by decide +kernel) (by decide +kernel) fun hdir₂ ↦ ?_
  refine .next hdir₂ rfl rfl (hok 2 (by decide)) (fun h ↦ absurd (htables 2 (by decide)) h)
    (by decide +kernel) (by decide +kernel) (by decide +kernel) fun hdir₃ ↦ ?_
  exact .next hdir₃ rfl rfl (hok 3 (by decide)) (fun h ↦ absurd hwindow h)
    (by decide +kernel) (by decide +kernel) (by decide +kernel) fun _ ↦ trivial

/-- The pages end up where their last calls put them. -/
theorem mappingLaw_smallSpace : ∃ s', mapPages smallCalls smallSpace = some s' ∧
    MappingLaw 8 smallCalls smallMem s'.mem :=
  mappingLaw_of_windowed (s := smallSpace) smallCalls directory_smallMem rfl smallCalls_ok
    (smallCalls_atEach.imp fun _ _ h ↦ h.1) (smallCalls_atEach.imp fun _ _ h ↦ h.2)

/-! ## Out of the window -/

/-- The calls keep to the rules and do not do what the law says. -/
def BreaksLaw (d : Nat) (s : Machine MemMngr) (calls : List MapCall) : Prop :=
  (Directory s.mem d ∧ s.curDirectory = P2V (frameAddr d) ∧ (∀ c ∈ calls, c.Ok) ∧
    AtEach (FreshTable d) calls s) ∧
  ¬ ∃ s', mapPages calls s = some s' ∧ MappingLaw d calls s.mem s'.mem

/-- An allocator whose frames start at 4 MiB, above what is mapped. -/
def highSpace : Machine MemMngr := { smallSpace with frames := highMngr }

/-- An empty directory that is to be edited, in a frame above what is mapped. -/
def farSpace : Machine MemMngr := { smallSpace with curDirectory := 0xC0406000 }

/-- The window's page of the table is not open to writes and not open to user mode. -/
def ownSpace : Machine MemMngr :=
  { smallSpace with mem := Function.update smallMem (1024 * 9 + 9) 0x9001 }

theorem farSpace_empty {i : Nat} (hi : i < 1024) : ¬ HasTable smallMem 1030 i := by
  refine not_not.mpr ?_
  unfold smallMem
  rw [if_neg (by omega), if_neg (by omega)]
  rfl

-- The table's own entry is one of those that map the window.
theorem directory_ownSpace : Directory ownSpace.mem 8 := by
  have hdir (i : Nat) (hi : i < 1024) : ownSpace.mem (1024 * 8 + i) = smallMem (1024 * 8 + i) :=
    Function.update_of_ne (by omega) _ _
  have hlt (k : Nat) : (ownSpace.mem k).toNat < 2 ^ 31 := by
    simp only [ownSpace, Function.update_apply]
    split
    · decide
    · exact smallMem_lt k
  have hold := directory_smallMem
  have hsame {i : Nat} (hi : i < 1024) := table_congr (hdir i hi)
  refine ⟨hold.dir_lt, fun i _ ↦ hlt _, fun i _ _ j _ ↦ hlt _, fun i hi hhas ↦ ?_,
    fun i hi j hj hhas hhas' heq ↦ ?_⟩
  · rw [(hsame hi).2]
    exact hold.dir_ne i hi ((hsame hi).1.mp hhas)
  · rw [(hsame hi).2, (hsame hj).2] at heq
    exact hold.inj i hi j hj ((hsame hi).1.mp hhas) ((hsame hj).1.mp hhas') heq

/-- A new table or a directory that the window does not reach is a page fault.  A call that moves the
window's page of the table sets the three flags somewhere else. -/
theorem not_mappingLaw_unreached : BreaksLaw 8 highSpace [(0x7000, 0x3000)] ∧
    BreaksLaw 1030 farSpace [(0x7000, 0x3000)] ∧ BreaksLaw 8 ownSpace [(0x5000, 0xC0009000)] := by
  have hok₁ : ∀ c ∈ [((0x7000 : u32), (0x3000 : u32))], MapCall.Ok c :=
    List.forall_mem_singleton.mpr ⟨by decide, by decide, by decide, by decide⟩
  have hok₂ : ∀ c ∈ [((0x5000 : u32), (0xC0009000 : u32))], MapCall.Ok c :=
    List.forall_mem_singleton.mpr ⟨by decide, by decide, by decide, by decide⟩
  refine ⟨⟨⟨directory_smallMem, rfl, hok₁, ⟨?_, fun _ _ ↦ trivial⟩⟩, ?_⟩,
    ⟨⟨⟨by decide, fun i _ ↦ smallMem_lt _, fun i _ _ j _ ↦ smallMem_lt _, ?_, ?_⟩, rfl, hok₁,
      ⟨?_, fun _ _ ↦ trivial⟩⟩, ?_⟩,
    ⟨⟨directory_ownSpace, rfl, hok₂, ⟨?_, fun _ _ ↦ trivial⟩⟩, ?_⟩⟩
  · exact freshTable_smallMem rfl (f := 1024) (by decide +kernel) (by decide) (by decide) _
  · rintro ⟨s', hrun, -⟩
    have hfault : (mapPages [(0x7000, 0x3000)] highSpace).isSome = false := by decide +kernel
    rw [hrun] at hfault
    cases hfault
  · exact fun i hi hhas ↦ absurd hhas (farSpace_empty hi)
  · exact fun i hi _ _ hhas ↦ absurd hhas (farSpace_empty hi)
  · have hframe : frame farSpace.frames 0 = 0x1000 := by decide +kernel
    intro _
    rw [hframe]
    exact ⟨by decide, by decide, by decide, by decide, fun i hi hhas ↦ absurd hhas (farSpace_empty hi)⟩
  · rintro ⟨s', hrun, -⟩
    have hfault : (mapPages [(0x7000, 0x3000)] farSpace).isSome = false := by decide +kernel
    rw [hrun] at hfault
    cases hfault
  · have hhas : ownSpace.mem (1024 * 8 + 768) &&& 1 ≠ 0 := by decide +kernel
    exact fun habsent ↦ absurd hhas habsent
  · rintro ⟨s', hrun, hlaw⟩
    have hwalk : (mapPages [(0x5000, 0xC0009000)] ownSpace).map
        (fun s ↦ walk s.mem (frameAddr 8) 0xC0009000) = some (some 0x5001) := by decide +kernel
    rw [hrun] at hwalk
    obtain ⟨e, he, -, -, hwritable, -⟩ := hlaw.named 0xC0009000 0x5000 rfl
    rw [Option.some.inj (he.symm.trans (Option.some.inj hwalk))] at hwritable
    exact hwritable (by decide)

end TenOs.Mm
