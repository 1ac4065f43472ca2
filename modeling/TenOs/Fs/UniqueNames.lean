import TenOs.Fs.RootMap

/-!
# Names in the root directory

`fat12_create` asks `fat12_open` whether the name is in use, and takes a null pointer for no.  The
pointer is null too when there was no page for the handle, and then the name gets a second entry.
-/

namespace TenOs.Fs

open TenOs.Base TenOs.Lib TenOs.Drivers

/-- An entry in use: before the end mark, and not marked as deleted. -/
def LiveEntry (s : FsState Disk) (n : Nat) : Prop :=
  LiveSlot s n ∧ ¬ (rootSlot s n).isDeleted

def UniqueNames (s : FsState Disk) : Prop :=
  ∀ m n, LiveEntry s m → LiveEntry s n → (rootSlot s m).name = (rootSlot s n).name → m = n

/-! ## Calls -/

inductive DirCall
  | create (filename : CString) (size : u32) (page : Bool)
  | openFile (filename : CString) (page : Bool)

def dirStep (s : FsState Disk) : DirCall → FsState Disk
  | .create filename size page => (fat12Create s filename size page).1
  | .openFile filename page => (fat12Open s filename page).1

/-- No file gets a name that is in use while pages are out, unless the call is refused anyway. -/
def DirCall.ok (s : FsState Disk) : DirCall → Prop
  | .create filename size page =>
      page = true ∨ DosName.marked (dosName filename) ∨ lookup s (dosName filename) = none ∨
        CreateRefused s filename size page
  | .openFile .. => True

theorem UniqueNames.of_sameRoot {s t : FsState Disk} (h : UniqueNames s) (hroot : SameRoot s t) :
    UniqueNames t := by
  have hentry {n : Nat} (hn : LiveEntry t n) : LiveEntry s n ∧ rootSlot t n = rootSlot s n := by
    have hlive := (hroot.liveSlot_iff n).mp hn.1
    have hslot := hroot.rootSlot hlive.1
    refine ⟨⟨hlive, ?_⟩, hslot⟩
    rw [← hslot]
    exact hn.2
  intro m n hm hn hname
  obtain ⟨hm', hslotm⟩ := hentry hm
  obtain ⟨hn', hslotn⟩ := hentry hn
  rw [hslotm, hslotn] at hname
  exact h m n hm' hn' hname

-- Unless it is marked as deleted, the new entry must not meet its own name.
theorem UniqueNames.created_iff {bpb : BPB} {s t : FsState Disk} {filename : CString} {size : u32}
    {n : Nat} {first : u16} (h : UniqueNames s) (hm : Mounted bpb s) (hfats : bpb.numFats = 2)
    (htail : ZeroTail s) (hn : firstFreeSlot s = some n)
    (hcr : Created s filename size n first t) :
    UniqueNames t ↔ DosName.marked (dosName filename) ∨ lookup s (dosName filename) = none := by
  have hlive := hcr.liveSlot_iff hm hfats htail hn
  have hnew : (rootSlot t n).name = dosName filename := by
    rw [hcr.rootSlot_new]
    rfl
  have hold {m : Nat} (hm' : LiveSlot s m) : m < n ∧ rootSlot t m = rootSlot s m :=
    hcr.kept hm hfats hn hm'
  constructor
  · intro hunique
    by_contra hboth
    rw [not_or] at hboth
    obtain ⟨m, hm'⟩ := Option.ne_none_iff_exists'.mp hboth.2
    obtain ⟨hmlive, hmname, -⟩ := (lookup_eq_some_iff s _ m).mp hm'
    obtain ⟨hlt, hslot⟩ := hold hmlive
    have hentrym : LiveEntry t m := by
      refine ⟨(hlive m).mpr (Or.inl hmlive), ?_⟩
      rw [hslot, DirectoryEntry.isDeleted, hmname]
      exact hboth.1
    have hentryn : LiveEntry t n := by
      refine ⟨(hlive n).mpr (Or.inr rfl), ?_⟩
      rw [DirectoryEntry.isDeleted, hnew]
      exact hboth.1
    apply Nat.ne_of_lt hlt
    apply hunique m n hentrym hentryn
    rw [hslot, hmname, hnew]
  · intro hfree
    -- an old entry with the name of the new one, which is in use
    have hmeet {m : Nat} (hm' : LiveSlot s m) (hn' : LiveEntry t n)
        (hname : (rootSlot t m).name = (rootSlot t n).name) : False := by
      rw [(hold hm').2, hnew] at hname
      rcases hfree with hdel | hnone
      · have hmark := hn'.2
        rw [DirectoryEntry.isDeleted, hnew] at hmark
        exact hmark hdel
      · exact (lookup_eq_none_iff s _).mp hnone m hm' hname
    intro m k hm' hk hname
    rcases (hlive m).mp hm'.1 with hmold | rfl
    · rcases (hlive k).mp hk.1 with hkold | rfl
      · have hmmark := hm'.2
        have hkmark := hk.2
        rw [(hold hmold).2] at hname hmmark
        rw [(hold hkold).2] at hname hkmark
        exact h m k ⟨hmold, hmmark⟩ ⟨hkold, hkmark⟩ hname
      · exact (hmeet hmold hk hname).elim
    · rcases (hlive k).mp hk.1 with hkold | rfl
      · exact (hmeet hkold hm' hname.symm).elim
      · rfl

/-! ## Runs -/

structure NamesInv (bpb : BPB) (s : FsState Disk) : Prop where
  mounted : Mounted bpb s
  tail : ZeroTail s
  unique : UniqueNames s

/-- A call keeps the names unique exactly when it meets the condition. -/
theorem NamesInv.unique_step_iff {bpb : BPB} {s : FsState Disk} (h : NamesInv bpb s)
    (hfats : bpb.numFats = 2) (call : DirCall) : UniqueNames (dirStep s call) ↔ call.ok s := by
  cases call with
  | openFile filename page =>
    have hsame := (fat12Open_spec s filename page).1
    exact iff_of_true (h.unique.of_sameRoot hsame.sameRoot) trivial
  | create filename size page =>
    rcases fat12Create_cases s filename size page with
      ⟨href, -, hsame⟩ | ⟨hnot, -, n, first, hn, hcr⟩
    · exact iff_of_true (h.unique.of_sameRoot hsame.sameRoot) (Or.inr (Or.inr (Or.inr href)))
    · change UniqueNames (fat12Create s filename size page).1 ↔ _
      rw [h.unique.created_iff h.mounted hfats h.tail hn hcr]
      constructor
      · rintro (hdel | hnone)
        · exact Or.inr (Or.inl hdel)
        · exact Or.inr (Or.inr (Or.inl hnone))
      · rintro (hpage | hdel | hnone | href)
        · -- with a page for the handle, the call is refused for a name in use
          right
          by_contra hused
          exact hnot (Or.inl ⟨hpage, hused⟩)
        · exact Or.inl hdel
        · exact Or.inr hnone
        · exact absurd href hnot

theorem NamesInv.step {bpb : BPB} {s : FsState Disk} (h : NamesInv bpb s)
    (hfats : bpb.numFats = 2) (call : DirCall) (hok : call.ok s) : NamesInv bpb (dirStep s call) := by
  have hunique := (h.unique_step_iff hfats call).mpr hok
  have hframe : Mounted bpb (dirStep s call) ∧ ZeroTail (dirStep s call) := by
    cases call with
    | openFile filename page =>
      have hsame := (fat12Open_spec s filename page).1
      exact ⟨⟨h.mounted.bytesPerSector, hsame.mountInfo.trans h.mounted.mountInfo⟩,
        h.tail.of_sameRoot hsame.sameRoot⟩
    | create filename size page =>
      rcases fat12Create_cases s filename size page with
        ⟨-, -, hsame⟩ | ⟨-, -, n, first, hn, hcr⟩
      · exact ⟨⟨h.mounted.bytesPerSector, hsame.mountInfo.trans h.mounted.mountInfo⟩,
          h.tail.of_sameRoot hsame.sameRoot⟩
      · exact ⟨⟨h.mounted.bytesPerSector, hcr.mountInfo.trans h.mounted.mountInfo⟩,
          hcr.zeroTail h.mounted hfats h.tail hn⟩
  exact ⟨hframe.1, hframe.2, hunique⟩

/-- The names stay unique in every run whose calls meet the condition, and the first call that does
not meet it makes two entries of one name. -/
theorem uniqueNames_of_run {bpb : BPB} {s₀ s : FsState Disk} (hm : Mounted bpb s₀)
    (hfats : bpb.numFats = 2) (htail : ZeroTail s₀) (hunique : UniqueNames s₀)
    (hrun : Run dirStep (fun s call ↦ DirCall.ok s call) s₀ s) :
    UniqueNames s ∧ ∀ call, UniqueNames (dirStep s call) ↔ DirCall.ok s call := by
  have hinv := hrun.inv (NamesInv bpb) ⟨hm, htail, hunique⟩
    fun s call h hok ↦ h.step hfats call hok
  exact ⟨hinv.unique, hinv.unique_step_iff hfats⟩

/-! A file is created twice, the second time without a page for its handle. -/

theorem uniqueNames_blankVolume : UniqueNames blankVolume := by
  intro m n hm
  have hend := zeroTail_blankVolume 0 m (Nat.zero_le m) hm.1.1 isEnd_blankVolume
  exact absurd hend (hm.1.2 m (Nat.le_refl m))

theorem uniqueNames_bigFile :
    UniqueNames (dirStep blankVolume (.create bigFile 100 true)) ∧
      ∀ call, UniqueNames (dirStep (dirStep blankVolume (.create bigFile 100 true)) call) ↔
        DirCall.ok (dirStep blankVolume (.create bigFile 100 true)) call :=
  uniqueNames_of_run mounted_blankVolume (by decide +kernel) zeroTail_blankVolume
    uniqueNames_blankVolume (.step .start (Or.inl rfl))

-- The second call finds the name in use but gets no page, and makes the file again.
theorem not_uniqueNames_bigFile :
    Mounted (BPB.ofSector bootSector) blankVolume ∧ (BPB.ofSector bootSector).numFats = 2 ∧
      ZeroTail blankVolume ∧ UniqueNames blankVolume ∧
      ¬ UniqueNames ([.create bigFile 100 true, .create bigFile 0 false].foldl dirStep
        blankVolume) := by
  have hfats : (BPB.ofSector bootSector).numFats = 2 := by decide +kernel
  refine ⟨mounted_blankVolume, hfats, zeroTail_blankVolume, uniqueNames_blankVolume, ?_⟩
  have hinv : NamesInv (BPB.ofSector bootSector) blankVolume :=
    ⟨mounted_blankVolume, zeroTail_blankVolume, uniqueNames_blankVolume⟩
  have hinv₁ := hinv.step hfats (.create bigFile 100 true) (Or.inl rfl)
  change ¬ UniqueNames (dirStep (dirStep blankVolume (.create bigFile 100 true))
    (.create bigFile 0 false))
  rw [hinv₁.unique_step_iff hfats]
  -- after the first call the name is in use, and slot 1 is free
  rcases fat12Create_cases blankVolume bigFile 100 true with
    ⟨-, href, -⟩ | ⟨-, -, n, first, hn, hcr⟩
  · rw [create_bigFile] at href
    exact absurd href (by decide)
  have hzero := firstFreeSlot_blankVolume
  rw [hn, Option.some.injEq] at hzero
  subst hzero
  have hname := hcr.lookup mounted_blankVolume hfats zeroTail_blankVolume hn
    (lookup_blankVolume _) (dosName bigFile)
  rw [if_pos rfl] at hname
  have hcount : slotCount (dirStep blankVolume (.create bigFile 100 true)) = 512 :=
    hcr.slotCount.trans slotCount_blankVolume
  have hslot : firstFreeSlot (dirStep blankVolume (.create bigFile 100 true)) = some 1 := by
    rw [firstFreeSlot_eq_some_iff, hcount]
    refine ⟨by decide, ?_, fun m hm ↦ ?_⟩
    · change (rootSlot (fat12Create blankVolume bigFile 100 true).1 1).isEnd
      rw [hcr.rootSlot_other mounted_blankVolume hfats (by rw [slotCount_blankVolume]; decide)
        (by rw [slotCount_blankVolume]; decide) (by decide)]
      exact zeroTail_blankVolume 0 1 (by decide) (by rw [slotCount_blankVolume]; decide)
        isEnd_blankVolume
    · obtain rfl : m = 0 := by omega
      change ¬ (rootSlot (fat12Create blankVolume bigFile 100 true).1 0).isEnd
      rw [hcr.rootSlot_new]
      exact dosName_zero_ne bigFile
  rintro (hpage | hdel | hnone | hpage | hfull | hneed)
  · exact absurd hpage (by decide)
  · exact absurd hdel (by decide)
  · exact absurd (hname.symm.trans hnone) (by decide)
  · exact absurd hpage.1 (by decide)
  · rw [hslot] at hfull
    cases hfull
  · exact absurd hneed.1 (by decide)

end TenOs.Fs
