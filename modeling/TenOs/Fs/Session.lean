import TenOs.Fs.RootMap
import TenOs.Fs.Transfer

/-!
# Files do not interfere

A session is the driver together with the handles that `fat12_open` has returned so far.  On a well
formed volume the chains of the files stay apart in every session, and writing through a handle only
touches the clusters of the file it was opened on.
-/

namespace TenOs.Fs

open TenOs.Base TenOs.Lib TenOs.Drivers

/-! ## Well formed volumes -/

/-- The directory ends at its first end mark, and the files before it have chains of data clusters
that do not meet. -/
structure WellFormed (bpb : BPB) (s : FsState Disk) : Prop where
  mounted : Mounted bpb s
  tail : ∀ m n, m ≤ n → n < slotCount s → (rootSlot s m).isEnd → (rootSlot s n).isEnd
  chain : ∀ n, LiveSlot s n → ∃ cs, cs ≠ [] ∧ FatChain s.fatBuffer (rootSlot s n).firstCluster cs ∧
    ∀ c ∈ cs, 2 ≤ c.toNat ∧ c.toNat ≤ 4083
  disjoint : ∀ m n, LiveSlot s m → LiveSlot s n → m ≠ n → ∀ cs ds,
    FatChain s.fatBuffer (rootSlot s m).firstCluster cs →
    FatChain s.fatBuffer (rootSlot s n).firstCluster ds → cs.Disjoint ds

/-- A well formed volume only depends on its directory and its FAT. -/
theorem WellFormed.of_sameRoot {bpb : BPB} {s t : FsState Disk} (h : WellFormed bpb s)
    (hroot : SameRoot s t) (hfat : t.fatBuffer = s.fatBuffer) : WellFormed bpb t := by
  have hslot {n : Nat} (hn : LiveSlot t n) : LiveSlot s n ∧ rootSlot t n = rootSlot s n := by
    have hlive := (hroot.liveSlot_iff n).mp hn
    exact ⟨hlive, hroot.rootSlot hlive.1⟩
  refine ⟨⟨h.mounted.bytesPerSector, hroot.mountInfo.trans h.mounted.mountInfo⟩, ?_, ?_, ?_⟩
  · have htail : ZeroTail s := h.tail
    exact htail.of_sameRoot hroot
  · intro n hn
    rw [(hslot hn).2, hfat]
    exact h.chain n (hslot hn).1
  · intro m n hm hn hne cs ds hcs hds
    rw [(hslot hm).2, hfat] at hcs
    rw [(hslot hn).2, hfat] at hds
    exact h.disjoint m n (hslot hm).1 (hslot hn).1 hne cs ds hcs hds

/-- A free cluster is on no chain of data clusters: the chain would go on to cluster 0. -/
theorem FatChain.free_notMem {fat : Bytes} {first c : u16} {cs : List u16}
    (h : FatChain fat first cs) (hdata : ∀ d ∈ cs, 2 ≤ d.toNat) (hc : FreeCluster fat c) :
    c ∉ cs := by
  intro hmem
  obtain ⟨pre, rest, hcs, hrest⟩ := h.suffix_of_mem hmem
  have hnext := hrest.next_eq.2
  rw [hc.2.2] at hnext
  cases rest with
  | nil => exact absurd (ChainFrom.nil_iff.mp hnext) (by decide)
  | cons d rest =>
    have hd : d = FAT12_FREE := hnext.1
    have h2 := hdata d (by rw [hcs]; simp)
    rw [hd] at h2
    exact absurd h2 (by decide)

/-- Taking a free cluster leaves every chain of data clusters as it was. -/
theorem FatChain.took {fat fat' : Bytes} {first c : u16} {cs : List u16}
    (h : FatChain fat first cs) (hdata : ∀ d ∈ cs, 2 ≤ d.toNat) (hc : FreeCluster fat c)
    (htook : TookCluster c fat fat') : c ∉ cs ∧ FatChain fat' first cs := by
  have hnot := h.free_notMem hdata hc
  exact ⟨hnot, h.congr fun d hd ↦ htook.2 d fun heq ↦ hnot (heq ▸ hd)⟩

/-! ## Creating a file -/

/-- A volume stays well formed when a free slot gets a file whose only cluster was free. -/
theorem WellFormed.created {bpb : BPB} {s t : FsState Disk} {filename : CString} {size : u32}
    {n : Nat} {first : u16} (h : WellFormed bpb s) (hfats : bpb.numFats = 2)
    (hn : firstFreeSlot s = some n) (hcr : Created s filename size n first t)
    (hfree : FreeCluster s.fatBuffer first) (htook : TookCluster first s.fatBuffer t.fatBuffer) :
    WellFormed bpb t ∧ ∀ m, LiveSlot s m → LiveSlot t m ∧ rootSlot t m = rootSlot s m := by
  have htail : ZeroTail s := h.tail
  have hliveIff := hcr.liveSlot_iff h.mounted hfats htail hn
  have hnew : rootSlot t n = newEntry (dosName filename) first size := hcr.rootSlot_new
  have hkept {m : Nat} (hm : LiveSlot s m) : m < n ∧ rootSlot t m = rootSlot s m :=
    hcr.kept h.mounted hfats hn hm
  have hliveOld (m : Nat) (hm : m < n) : LiveSlot s m := (liveSlot_iff_lt hn m).mpr hm
  -- the live slots were those before `n`; now `n` is live too
  have hlive (m : Nat) (hm : LiveSlot t m) : m ≤ n := by
    rcases (hliveIff m).mp hm with hold | rfl
    · exact Nat.le_of_lt (hkept hold).1
    · exact Nat.le_refl m
  have hkeep (m : Nat) (hm : LiveSlot s m) : LiveSlot t m ∧ rootSlot t m = rootSlot s m :=
    ⟨(hliveIff m).mpr (Or.inl hm), (hkept hm).2⟩
  have hnewChain : FatChain t.fatBuffer first [first] := (htook.chain hfree).chain
  -- an old chain is a chain of the new FAT, and the new cluster is not on it
  have hold (m : Nat) (hm : m < n) {cs : List u16}
      (hcs : FatChain t.fatBuffer (rootSlot t m).firstCluster cs) :
      FatChain s.fatBuffer (rootSlot s m).firstCluster cs ∧ first ∉ cs := by
    obtain ⟨ds, -, hds, hdata⟩ := h.chain m (hliveOld m hm)
    obtain ⟨hnot, hds'⟩ := hds.took (fun d hd ↦ (hdata d hd).1) hfree htook
    rw [(hkept (hliveOld m hm)).2] at hcs
    rw [hcs.unique hds']
    exact ⟨hds, hnot⟩
  refine ⟨⟨⟨h.mounted.bytesPerSector, hcr.mountInfo.trans h.mounted.mountInfo⟩, ?_, ?_, ?_⟩, hkeep⟩
  · exact hcr.zeroTail h.mounted hfats htail hn
  · intro m hm
    by_cases heq : m = n
    · refine ⟨[first], by simp, ?_, fun c hc ↦ ?_⟩
      · rw [heq, hnew]
        exact hnewChain
      · rw [List.mem_singleton.mp hc]
        have hlt := hfree.2.1
        exact ⟨hfree.1, by omega⟩
    · have hmn : m < n := by
        have hle := hlive m hm
        omega
      obtain ⟨cs, hne, hcs, hdata⟩ := h.chain m (hliveOld m hmn)
      refine ⟨cs, hne, ?_, hdata⟩
      rw [(hkept (hliveOld m hmn)).2]
      exact (hcs.took (fun d hd ↦ (hdata d hd).1) hfree htook).2
  · intro m k hm hk hne cs ds hcs hds
    have hm₁ := hlive m hm
    have hk₁ := hlive k hk
    have hsingle {es : List u16} (hes : FatChain t.fatBuffer (rootSlot t n).firstCluster es) :
        es = [first] := by
      rw [hnew] at hes
      exact hes.unique hnewChain
    rcases Nat.lt_or_eq_of_le hm₁ with hmn | rfl
    · have hcs₁ := hold m hmn hcs
      rcases Nat.lt_or_eq_of_le hk₁ with hkn | rfl
      · exact h.disjoint m k (hliveOld m hmn) (hliveOld k hkn) hne cs ds hcs₁.1 (hold k hkn hds).1
      · rw [hsingle hds]
        exact fun c hc hc' ↦ hcs₁.2 (List.mem_singleton.mp hc' ▸ hc)
    · rcases Nat.lt_or_eq_of_le hk₁ with hkn | rfl
      · rw [hsingle hcs]
        exact fun c hc hc' ↦ (hold k hkn hds).2 (List.mem_singleton.mp hc ▸ hc')
      · exact absurd rfl hne

/-- A call either leaves the volume as it was or makes a file in the first free slot. -/
theorem WellFormed.create {bpb : BPB} {s : FsState Disk} (h : WellFormed bpb s)
    (hfats : bpb.numFats = 2) (filename : CString) {size : u32} (page : Bool)
    (hsize : 1 ≤ size.toNat) (hmax : size.toNat ≤ 2 ^ 32 - 512) :
    WellFormed bpb (fat12Create s filename size page).1 ∧ ∀ m, LiveSlot s m →
      LiveSlot (fat12Create s filename size page).1 m ∧
        rootSlot (fat12Create s filename size page).1 m = rootSlot s m := by
  rcases fat12Create_cases s filename size page with
    ⟨-, -, hsame⟩ | ⟨-, -, n, first, hn, hcr⟩
  · have hroot := hsame.sameRoot
    exact ⟨h.of_sameRoot hroot hsame.fatBuffer,
      fun m hm ↦ ⟨(hroot.liveSlot_iff m).mpr hm, hroot.rootSlot hm.1⟩⟩
  · rcases hcr.allocated with ⟨hzero, -, -⟩ | ⟨-, hfirst, hne, htook⟩
    · exact absurd hzero (clustersNeeded_ne_zero hsize hmax)
    · rw [hfirst] at hne
      have hfree := freeCluster_findFreeCluster hne
      rw [← hfirst] at hfree
      exact h.created hfats hn hcr hfree htook

/-! ## Writing to a file -/

/-- Only sectors of the file in slot `n` have changed. -/
structure WriteConfined (s : FsState Disk) (n : Nat) (t : FsState Disk) : Prop where
  fatBuffer : t.fatBuffer = s.fatBuffer
  fat : ∀ i < s.mountInfo.sectorsPerFat.toNat,
    t.disk.sector (lba28 (fatLba s.mountInfo i)) = s.disk.sector (lba28 (fatLba s.mountInfo i)) ∧
    t.disk.sector (lba28 (fatCopyLba s.mountInfo i)) =
      s.disk.sector (lba28 (fatCopyLba s.mountInfo i))
  root : SameRoot s t
  own : ∃ cs, FatChain s.fatBuffer (rootSlot s n).firstCluster cs ∧
    ∀ l, t.disk.sector l ≠ s.disk.sector l → ∃ c ∈ cs, l = lba28 (clusterLba s.mountInfo c)
  other : ∀ m, LiveSlot s m → m ≠ n → ∀ ds,
    FatChain s.fatBuffer (rootSlot s m).firstCluster ds → ∀ c ∈ ds,
      t.disk.sector (lba28 (clusterLba s.mountInfo c)) =
        s.disk.sector (lba28 (clusterLba s.mountInfo c))

-- The sectors of a file are those of its chain, which no other file shares.
theorem WellFormed.write {bpb : BPB} {s : FsState Disk} (h : WellFormed bpb s)
    (hspc : bpb.sectorsPerCluster = 1) (hfats : bpb.numFats = 2) {file : FAT12File} {n : Nat}
    (hn : LiveSlot s n) (hfile : file.firstCluster = (rootSlot s n).firstCluster)
    (data : Bytes) (size : u32) :
    WellFormed bpb (fat12Write s (some file) data size).1 ∧
      WriteConfined s n (fat12Write s (some file) data size).1 ∧
      ∃ file', (fat12Write s (some file) data size).2.1 = some file' ∧
        file'.firstCluster = file.firstCluster := by
  obtain ⟨cs, -, hcs, hdata⟩ := h.chain n hn
  have hfst : ∀ c ∈ cs, 2 ≤ c.toNat := fun c hc ↦ (hdata c hc).1
  have hchain : FatChain s.fatBuffer file.firstCluster cs := by rwa [hfile]
  obtain ⟨file', hw⟩ := fat12Write_chain h.mounted hspc file data size hchain hfst
  generalize fat12Write s (some file) data size = w at hw
  have hroot := hw.sameRoot h.mounted hspc hfst
  have hoff {l : Nat} (hl : ∀ c ∈ cs, l ≠ lba28 (clusterLba s.mountInfo c)) :
      w.1.disk.sector l = s.disk.sector l := hw.outside l fun c hc ↦ hl c (List.mem_of_mem_take hc)
  have hbelow {l : Nat} (hl : l < s.mountInfo.dataStart.toNat) :
      w.1.disk.sector l = s.disk.sector l := by
    refine hoff fun c hc ↦ ?_
    have h2 := hfst c hc
    have hlba := h.mounted.clusterLba_eq hspc (c := c) (by omega)
    omega
  refine ⟨h.of_sameRoot hroot hw.fatBuffer, ⟨hw.fatBuffer, fun i hi ↦ ?_, hroot, ⟨cs, hcs, ?_⟩, ?_⟩,
    file', hw.result, by rw [hw.handle]⟩
  · have hlba := h.mounted.fatLba_eq hi
    have hstart := h.mounted.rootStart_eq hfats
    have hdatastart := bpb.dataStart_toNat
    rw [← h.mounted.mountInfo] at hdatastart
    exact ⟨hbelow (by omega), hbelow (by omega)⟩
  · intro l hl
    by_contra hnone
    exact hl (hoff fun c hc heq ↦ hnone ⟨c, hc, heq⟩)
  · intro m hm hne ds hds c hc
    obtain ⟨es, -, hes, hedata⟩ := h.chain m hm
    rw [hds.unique hes] at hc
    refine hoff fun d hd heq ↦ ?_
    have hcd := h.mounted.clusterLba_inj hspc (hedata c hc).1 (hfst d hd) heq
    exact h.disjoint m n hm hn hne es cs hes hcs hc (hcd ▸ hd)

/-! ## Sessions -/

/-- The handles with the directory slot each was opened on. -/
structure Session where
  fs : FsState Disk
  handles : List (FAT12File × Nat)

/-- The calls of a session.  A handle is given by its number in the order of opening; a number that
is not in use stands for the null pointer. -/
inductive SessionCall
  | create (filename : CString) (size : u32) (page : Bool)
  | openFile (filename : CString) (page : Bool)
  | read (handle : Nat) (buffer : Bytes) (size : u32)
  | write (handle : Nat) (data : Bytes) (size : u32)

def Session.step (s : Session) : SessionCall → Session
  | .create filename size page => { s with fs := (fat12Create s.fs filename size page).1 }
  | .openFile filename page =>
      let r := fat12Open s.fs filename page
      match r.2, lookup s.fs (dosName filename) with
      | some file, some n => { fs := r.1, handles := s.handles ++ [(file, n)] }
      | _, _ => { s with fs := r.1 }
  | .read handle buffer size =>
      match s.handles[handle]? with
      | none => { s with fs := (fat12Read s.fs none buffer size).fs }
      | some (file, n) =>
          let r := fat12Read s.fs (some file) buffer size
          { fs := r.fs, handles := s.handles.set handle (r.file.getD file, n) }
  | .write handle data size =>
      match s.handles[handle]? with
      | none => { s with fs := (fat12Write s.fs none data size).1 }
      | some (file, n) =>
          let w := fat12Write s.fs (some file) data size
          { fs := w.1, handles := s.handles.set handle (w.2.1.getD file, n) }

/-- New files have a size of at least 1 whose rounding up does not wrap. -/
def SessionCall.ok (_ : Session) : SessionCall → Prop
  | .create _ size _ => 1 ≤ size.toNat ∧ size.toNat ≤ 2 ^ 32 - 512
  | _ => True

/-- Every handle stands for a file of the directory. -/
structure SessionInv (bpb : BPB) (s : Session) : Prop where
  volume : WellFormed bpb s.fs
  handles : ∀ h ∈ s.handles,
    LiveSlot s.fs h.2 ∧ h.1.firstCluster = (rootSlot s.fs h.2).firstCluster

theorem readLoop_firstCluster (fuel : Nat) (r : ReadState Disk) (size : u32) :
    (readLoop fuel r size).file.firstCluster = r.file.firstCluster := by
  induction fuel generalizing r size with
  | zero => rfl
  | succ fuel ih =>
    rw [readLoop]
    split
    · exact ih (readTurn r size) (size - pieceSize size)
    · rfl

theorem fat12Read_firstCluster (s : FsState Disk) (file : FAT12File) (buffer : Bytes) (size : u32) :
    ((fat12Read s (some file) buffer size).file.getD file).firstCluster = file.firstCluster := by
  cases heof : file.eof with
  | true => simp [fat12Read, heof]
  | false =>
    have hloop := readLoop_firstCluster (turns (readSize file size)) ⟨s, file, buffer, 0⟩
      (readSize file size)
    rw [fat12Read_of_not_eof s buffer size heof, Option.getD_some]
    split
    · exact hloop
    · exact hloop

/-- The handles stay valid when the files before the end mark stay as they are. -/
theorem SessionInv.handles_mono {bpb : BPB} {s : Session} (h : SessionInv bpb s) {t : FsState Disk}
    (hkeep : ∀ m, LiveSlot s.fs m → LiveSlot t m ∧ rootSlot t m = rootSlot s.fs m) :
    ∀ p ∈ s.handles, LiveSlot t p.2 ∧ p.1.firstCluster = (rootSlot t p.2).firstCluster := by
  intro p hp
  have hold := h.handles p hp
  have hnew := hkeep p.2 hold.1
  rw [hnew.2]
  exact ⟨hnew.1, hold.2⟩

theorem keep_of_sameRoot {s t : FsState Disk} (h : SameRoot s t) :
    ∀ m, LiveSlot s m → LiveSlot t m ∧ rootSlot t m = rootSlot s m :=
  fun m hm ↦ ⟨(h.liveSlot_iff m).mpr hm, h.rootSlot hm.1⟩

theorem SessionInv.open {bpb : BPB} {s : Session} (h : SessionInv bpb s) (filename : CString)
    (page : Bool) : SessionInv bpb (s.step (.openFile filename page)) := by
  obtain ⟨hsame, hhandle⟩ := fat12Open_spec s.fs filename page
  have hvolume := h.volume.of_sameRoot hsame.sameRoot hsame.fatBuffer
  have hold := h.handles_mono (keep_of_sameRoot hsame.sameRoot)
  simp only [Session.step]
  split
  · rename_i file n hfile hn
    refine ⟨hvolume, fun p hp ↦ ?_⟩
    rcases List.mem_append.mp hp with hp | hp
    · exact hold p hp
    · rw [List.mem_singleton.mp hp]
      have hlive := ((lookup_eq_some_iff _ _ _).mp hn).1
      have hroot := keep_of_sameRoot hsame.sameRoot n hlive
      refine ⟨hroot.1, ?_⟩
      rw [hfile, hn] at hhandle
      cases page with
      | false => exact absurd hhandle (by simp)
      | true =>
        have hnew : file = newHandle filename (rootSlot s.fs n) := by simpa using hhandle
        rw [hnew, hroot.2]
        rfl
  · exact ⟨hvolume, hold⟩

theorem SessionInv.read {bpb : BPB} {s : Session} (h : SessionInv bpb s) (handle : Nat)
    (buffer : Bytes) (size : u32) : SessionInv bpb (s.step (.read handle buffer size)) := by
  simp only [Session.step]
  cases hget : s.handles[handle]? with
  | none => exact h
  | some p =>
    have hsame := fat12Read_sameVolume s.fs (some p.1) buffer size
    have hold := h.handles_mono (keep_of_sameRoot hsame.sameRoot)
    refine ⟨h.volume.of_sameRoot hsame.sameRoot hsame.fatBuffer, fun q hq ↦ ?_⟩
    rcases List.mem_or_eq_of_mem_set hq with hq | rfl
    · exact hold q hq
    · have hp := hold p (List.mem_of_getElem? hget)
      exact ⟨hp.1, (fat12Read_firstCluster s.fs p.1 buffer size).trans hp.2⟩

-- A handle that is not in use stands for the null pointer, and then nothing is written.
theorem SessionInv.write {bpb : BPB} {s : Session} (h : SessionInv bpb s)
    (hspc : bpb.sectorsPerCluster = 1) (hfats : bpb.numFats = 2) (handle : Nat) (data : Bytes)
    (size : u32) : SessionInv bpb (s.step (.write handle data size)) ∧
      (∀ p, s.handles[handle]? = some p →
        WriteConfined s.fs p.2 (s.step (.write handle data size)).fs) ∧
      (s.handles[handle]? = none → s.step (.write handle data size) = s) := by
  simp only [Session.step]
  cases hget : s.handles[handle]? with
  | none => exact ⟨h, fun p hp ↦ absurd hp (by simp), fun _ ↦ rfl⟩
  | some p =>
    have hp := h.handles p (List.mem_of_getElem? hget)
    obtain ⟨hvolume, hconf, file', hfile, hfst⟩ :=
      h.volume.write hspc hfats hp.1 hp.2 data size
    have hold := h.handles_mono (keep_of_sameRoot hconf.root)
    refine ⟨⟨hvolume, fun q hq ↦ ?_⟩, fun q hq ↦ ?_, fun hnone ↦ absurd hnone (by simp)⟩
    · rcases List.mem_or_eq_of_mem_set hq with hq | rfl
      · exact hold q hq
      · have hp' := hold p (List.mem_of_getElem? hget)
        simp only [hfile, Option.getD_some]
        exact ⟨hp'.1, hfst.trans hp'.2⟩
    · cases hq
      exact hconf

theorem SessionInv.step {bpb : BPB} {s : Session} (h : SessionInv bpb s)
    (hspc : bpb.sectorsPerCluster = 1) (hfats : bpb.numFats = 2) (call : SessionCall)
    (hok : call.ok s) : SessionInv bpb (s.step call) := by
  cases call with
  | create filename size page =>
    have hcr := h.volume.create hfats filename page hok.1 hok.2
    exact ⟨hcr.1, h.handles_mono hcr.2⟩
  | openFile filename page => exact h.open filename page
  | read handle buffer size => exact h.read handle buffer size
  | write handle data size => exact (h.write hspc hfats handle data size).1

/-- In every session on a well formed volume the volume stays well formed, and a write changes
nothing but sectors of the file that its handle was opened on. -/
theorem session_isolated {bpb : BPB} {s₀ : FsState Disk} {s : Session}
    (hvol : WellFormed bpb s₀) (hspc : bpb.sectorsPerCluster = 1) (hfats : bpb.numFats = 2)
    (hrun : Run Session.step (fun s call ↦ SessionCall.ok s call) ⟨s₀, []⟩ s) :
    WellFormed bpb s.fs ∧ ∀ handle data size,
      (∀ p, s.handles[handle]? = some p →
        LiveSlot s.fs p.2 ∧ WriteConfined s.fs p.2 (s.step (.write handle data size)).fs) ∧
      (s.handles[handle]? = none → s.step (.write handle data size) = s) := by
  have hstart : SessionInv bpb ⟨s₀, []⟩ := ⟨hvol, fun p hp ↦ absurd hp (by simp)⟩
  have hinv := hrun.inv (SessionInv bpb) hstart fun s call h hok ↦ h.step hspc hfats call hok
  refine ⟨hinv.volume, fun handle data size ↦ ?_⟩
  have hwrite := hinv.write hspc hfats handle data size
  exact ⟨fun p hp ↦ ⟨(hinv.handles p (List.mem_of_getElem? hp)).1, hwrite.2.1 p hp⟩, hwrite.2.2⟩

theorem slotCount_noteVolume : slotCount noteVolume = 512 := by decide +kernel

theorem isEnd_noteVolume : ∀ n < 512, (rootSlot noteVolume n).isEnd ↔ n ≠ 0 := by decide +kernel

theorem wellFormed_noteVolume : WellFormed (BPB.ofSector bootSector) noteVolume := by
  have hlive {n : Nat} (hn : LiveSlot noteVolume n) : n = 0 := by
    have hlt := hn.1
    rw [slotCount_noteVolume] at hlt
    by_contra hne
    exact hn.2 n (Nat.le_refl n) ((isEnd_noteVolume n hlt).mpr hne)
  refine ⟨mounted_noteVolume, fun m n hmn hn hend ↦ ?_, fun n hn ↦ ⟨[2, 3], by simp, ?_, by simp⟩,
    fun m n hm hn hne ↦ absurd ((hlive hm).trans (hlive hn).symm) hne⟩
  · rw [slotCount_noteVolume] at hn
    have hm := (isEnd_noteVolume m (by omega)).mp hend
    exact (isEnd_noteVolume n hn).mpr (by omega)
  · rw [hlive hn]
    have hfirst : (rootSlot noteVolume 0).firstCluster = 2 := firstCluster_noteFile
    rw [hfirst]
    exact fatChain_noteVolume

/-- Open the file, then create another one. -/
def noteSession : Session :=
  (Session.step ⟨noteVolume, []⟩ (.openFile noteName true)).step (.create bigFile 100 true)

theorem session_isolated_noteSession :
    WellFormed (BPB.ofSector bootSector) noteSession.fs ∧ ∀ handle data size,
      (∀ p, noteSession.handles[handle]? = some p → LiveSlot noteSession.fs p.2 ∧
        WriteConfined noteSession.fs p.2 (noteSession.step (.write handle data size)).fs) ∧
      (noteSession.handles[handle]? = none →
        noteSession.step (.write handle data size) = noteSession) :=
  session_isolated wellFormed_noteVolume (by decide +kernel) (by decide +kernel)
    (.step (.step .start trivial) ⟨by decide, by decide⟩)

end TenOs.Fs
