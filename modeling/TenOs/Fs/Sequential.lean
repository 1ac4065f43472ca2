import TenOs.Fs.Transfer

/-!
# Reading a file in pieces

`fat12_read` keeps a byte position and a current cluster.  A call always copies from the start of
the current sector and moves on to the next cluster, so position and cluster stay in step only while
the calls begin at multiples of 512.
-/

namespace TenOs.Fs

open TenOs.Base TenOs.Lib TenOs.Drivers

/-- The bytes that calls of `fat12_read` with these sizes return, one call after the other. -/
def readAll (s : FsState Disk) (file : FAT12File) (buffer : Bytes) : List u32 → List u8
  | [] => []
  | size :: sizes =>
      let r := fat12Read s (some file) buffer size
      (List.range r.ret.toNat).map r.buffer ++ readAll r.fs (r.file.getD file) buffer sizes

/-- How many bytes were asked for. -/
def asked (sizes : List u32) : Nat := (sizes.map BitVec.toNat).sum

/-- Open the file and read it in pieces: the pieces are the first bytes of the file. -/
def SequentialReads (s : FsState Disk) (filename : CString) (buffer : Bytes) (cs : List u16)
    (sizes : List u32) : Prop :=
  ∃ s₁ file, fat12Open s filename true = (s₁, some file) ∧
    readAll s₁ file buffer sizes =
      (List.range (min (asked sizes) file.fileSize.toNat)).map (chainByte s.disk s.mountInfo cs)

/-- The volume with other contents in its data region. -/
def FsState.withData (s : FsState Disk) (data : Nat → Bytes) : FsState Disk :=
  { s with disk.sector := fun l ↦
      if s.mountInfo.dataStart.toNat ≤ l then data l else s.disk.sector l }

/-- Every call that starts before the end of the file, with bytes still to come, starts at a
multiple of 512. -/
def StartsAligned (fileSize : Nat) (sizes : List u32) : Prop :=
  ∀ i < sizes.length, asked (sizes.take i) < min (asked sizes) fileSize → 512 ∣ asked (sizes.take i)

/-- The same for calls that go on from byte `pos`. -/
def AlignedFrom (pos fileSize : Nat) (sizes : List u32) : Prop :=
  ∀ i < sizes.length, pos + asked (sizes.take i) < min (pos + asked sizes) fileSize →
    512 ∣ pos + asked (sizes.take i)

theorem alignedFrom_zero_iff (fileSize : Nat) (sizes : List u32) :
    AlignedFrom 0 fileSize sizes ↔ StartsAligned fileSize sizes := by
  simp only [AlignedFrom, StartsAligned, Nat.zero_add]

/-! ## One call -/

/-- The handle stands at byte `pos` of the file `cs`, as far as its chain is concerned at the end of
the sector. -/
structure StandsAt (s : FsState Disk) (cs : List u16) (file : FAT12File) (pos : Nat) : Prop where
  position : file.position.toNat = pos
  le : pos ≤ file.fileSize.toNat
  chain : FatChain s.fatBuffer file.currentCluster (cs.drop ((pos + 511) / 512))
  eof : file.eof = true → FAT12_EOF_MIN ≤ file.currentCluster

theorem StandsAt.of_sameVolume {s t : FsState Disk} {cs : List u16} {file : FAT12File} {pos : Nat}
    (h : StandsAt s cs file pos) (hsame : SameVolume s t) : StandsAt t cs file pos := by
  refine ⟨h.position, h.le, ?_, h.eof⟩
  rw [hsame.fatBuffer]
  exact h.chain

-- The position is within the file, so the difference does not wrap.
theorem StandsAt.readSize {s : FsState Disk} {cs : List u16} {file : FAT12File} {pos : Nat}
    (h : StandsAt s cs file pos) (size : u32) :
    (readSize file size).toNat = min size.toNat (file.fileSize.toNat - pos) := by
  have hsub : (file.fileSize - file.position).toNat = file.fileSize.toNat - pos := by
    have hle : file.position ≤ file.fileSize := by
      rw [BitVec.le_def, h.position]
      exact h.le
    rw [BitVec.toNat_sub_of_le hle, h.position]
  unfold Fs.readSize
  split
  · rename_i hlt
    rw [BitVec.lt_def] at hlt
    omega
  · rename_i hlt
    rw [BitVec.lt_def] at hlt
    omega

/-- A call that starts at a multiple of 512, or has nothing to return, returns the next bytes of the
file and moves the handle past them. -/
theorem fat12Read_aligned {s : FsState Disk} {cs : List u16} {file : FAT12File} {pos : Nat}
    (h : StandsAt s cs file pos) (hfit : file.fileSize.toNat ≤ 512 * cs.length)
    (hlen : cs.length ≤ 4088) (buffer : Bytes) (size : u32)
    (halign : 512 ∣ pos ∨ min size.toNat (file.fileSize.toNat - pos) = 0) :
    let r := fat12Read s (some file) buffer size
    let n := min size.toNat (file.fileSize.toNat - pos)
    SameVolume s r.fs ∧ r.ret = n ∧
      (List.range n).map r.buffer =
        (List.range n).map (fun t ↦ chainByte s.disk s.mountInfo cs (pos + t)) ∧
      StandsAt s cs (r.file.getD file) (pos + n) ∧
      (r.file.getD file).fileSize = file.fileSize := by
  intro r n
  have hmin : n = min size.toNat (file.fileSize.toNat - pos) := rfl
  have hle := h.le
  -- a call that has something to return starts with a sector of the chain
  have hstart : n ≠ 0 → 512 * ((pos + 511) / 512) = pos := by
    intro hn
    obtain ⟨q, hq⟩ := halign.resolve_right hn
    omega
  cases heof : file.eof with
  | true =>
    -- the chain is used up, so the file is too
    have hend : cs.drop ((pos + 511) / 512) = [] := h.chain.of_stop (h.eof heof)
    have hn : n = 0 := by
      have hused := List.drop_eq_nil_iff.mp hend
      by_contra hne
      have hpos := hstart hne
      omega
    have hr : r = ⟨s, some file, buffer, 0⟩ := by simp [r, fat12Read, heof]
    rw [hr, hn]
    exact ⟨⟨rfl, rfl, rfl⟩, rfl, rfl, h, rfl⟩
  | false =>
    obtain ⟨file', hr⟩ := fat12Read_chain s buffer size heof h.chain
    change FileRead s file buffer _ _ r file' at hr
    have hmoved : moved (readSize file size) (cs.drop ((pos + 511) / 512)) = n := by
      unfold moved
      rw [h.readSize size, List.length_drop]
      by_cases hn : n = 0
      · omega
      · have hpos := hstart hn
        omega
    rw [hmoved] at hr
    have hfile : r.file.getD file = file' := by rw [hr.result, Option.getD_some]
    refine ⟨hr.volume, ?_, ?_, ⟨?_, ?_, ?_, ?_⟩, ?_⟩
    · rw [hr.ret, toInt_ofNat (by omega)]
    · apply List.map_congr_left
      intro t ht
      have htn := List.mem_range.mp ht
      rw [hr.buffer, if_pos htn, chainByte_drop, hstart (by omega)]
    · rw [hfile, hr.handle]
      change (file.position + BitVec.ofNat 32 n).toNat = pos + n
      have hpos := h.position
      have hlt := file.fileSize.isLt
      rw [BitVec.toNat_add, BitVec.toNat_ofNat]
      omega
    · rw [hfile, hr.handle]
      change pos + n ≤ file.fileSize.toNat
      omega
    · have hdrop : (cs.drop ((pos + 511) / 512)).drop ((n + 511) / 512) =
          cs.drop ((pos + n + 511) / 512) := by
        rw [List.drop_drop]
        congr 1
        by_cases hn : n = 0
        · omega
        · have hpos := hstart hn
          omega
      rw [hfile, ← hdrop]
      exact hr.chain
    · rw [hfile, hr.handle]
      exact fun hstop ↦ of_decide_eq_true hstop
    · rw [hfile, hr.handle]

/-! ## Every sequence of calls -/

theorem asked_cons (size : u32) (sizes : List u32) :
    asked (size :: sizes) = size.toNat + asked sizes := by
  rw [asked, List.map_cons, List.sum_cons]
  rfl

/-- The bytes of a file from `pos` on split at any point. -/
theorem map_range_add {α : Type} (f : Nat → α) (pos m n : Nat) :
    (List.range (m + n)).map (fun t ↦ f (pos + t)) =
      (List.range m).map (fun t ↦ f (pos + t)) ++
        (List.range n).map (fun t ↦ f (pos + m + t)) := by
  rw [List.range_add, List.map_append, List.map_map]
  congr 1
  apply List.map_congr_left
  intro t _
  rw [Function.comp_apply, Nat.add_assoc]

/-- While the calls start at multiples of 512, the pieces make up the file. -/
theorem readAll_aligned {s : FsState Disk} {cs : List u16} {file : FAT12File} {pos : Nat}
    (h : StandsAt s cs file pos) (hfit : file.fileSize.toNat ≤ 512 * cs.length)
    (hlen : cs.length ≤ 4088) (buffer : Bytes) (sizes : List u32)
    (halign : AlignedFrom pos file.fileSize.toNat sizes) :
    readAll s file buffer sizes =
      (List.range (min (asked sizes) (file.fileSize.toNat - pos))).map
        fun t ↦ chainByte s.disk s.mountInfo cs (pos + t) := by
  induction sizes generalizing s file pos with
  | nil => rw [readAll, show asked [] = 0 from rfl, Nat.zero_min]; rfl
  | cons size sizes ih =>
    rw [AlignedFrom, asked_cons] at halign
    rw [asked_cons]
    have hle := h.le
    have hfirst : 512 ∣ pos ∨ min size.toNat (file.fileSize.toNat - pos) = 0 := by
      by_cases hzero : min size.toNat (file.fileSize.toNat - pos) = 0
      · exact Or.inr hzero
      · have hpos := halign 0 (Nat.zero_lt_succ _)
        rw [List.take_zero, show asked [] = 0 from rfl, Nat.add_zero] at hpos
        exact Or.inl (hpos (by omega))
    obtain ⟨hsame, hret, hpiece, hstand, hsize⟩ :=
      fat12Read_aligned h hfit hlen buffer size hfirst
    have hrest := ih (hstand.of_sameVolume hsame) (by rwa [hsize]) fun i hi hlt ↦ by
      -- the next call starts before the end, so this one returned all it was asked for
      have hnext := halign (i + 1) (by rw [List.length_cons]; omega)
      rw [List.take_succ_cons, asked_cons] at hnext
      rw [hsize] at hlt
      rw [show pos + min size.toNat (file.fileSize.toNat - pos) = pos + size.toNat by omega,
        Nat.add_assoc] at hlt ⊢
      exact hnext (by omega)
    rw [hsize, hsame.disk, hsame.mountInfo] at hrest
    rw [readAll, hret, hrest]
    simp only [Int.toNat_natCast]
    rw [hpiece, ← map_range_add (chainByte s.disk s.mountInfo cs)]
    congr 2
    omega

/-! ## Contents that show the difference -/

/-- Every sector of the chain starts with a 1, and the rest of it is 0. -/
def Marked (s : FsState Disk) (cs : List u16) : Prop :=
  ∀ c ∈ cs, ∀ a < 512, s.disk.sector (lba28 (clusterLba s.mountInfo c)) a = if a = 0 then 1 else 0

theorem Marked.of_sameVolume {s t : FsState Disk} {cs : List u16} (h : Marked s cs)
    (hsame : SameVolume s t) : Marked t cs := by
  intro c hc a ha
  rw [hsame.disk, hsame.mountInfo]
  exact h c hc a ha

theorem Marked.drop {s : FsState Disk} {cs : List u16} (h : Marked s cs) (k : Nat) :
    Marked s (cs.drop k) := fun c hc a ha ↦ h c (List.mem_of_mem_drop hc) a ha

theorem Marked.chainByte {s : FsState Disk} {cs : List u16} (h : Marked s cs) {a : Nat}
    (ha : a < 512 * cs.length) :
    chainByte s.disk s.mountInfo cs a = if a % 512 = 0 then 1 else 0 := by
  have hlt : a / 512 < cs.length := by omega
  rw [Fs.chainByte, List.getD_eq_getElem _ _ hlt]
  exact h _ (List.getElem_mem hlt) _ (Nat.mod_lt _ (by decide))

/-- Whatever a handle has been through, the next byte it returns is the first of a sector. -/
theorem readAll_head {s : FsState Disk} {cs : List u16} {file : FAT12File}
    (hmark : Marked s cs) (hchain : FatChain s.fatBuffer file.currentCluster cs) (buffer : Bytes)
    (sizes : List u32) : readAll s file buffer sizes = [] ∨
      ∃ rest, readAll s file buffer sizes = 1 :: rest := by
  induction sizes generalizing s cs file with
  | nil => exact Or.inl rfl
  | cons size sizes ih =>
    rw [readAll]
    cases heof : file.eof with
    | true =>
      have hr : fat12Read s (some file) buffer size = ⟨s, some file, buffer, 0⟩ := by
        simp [fat12Read, heof]
      rw [hr]
      exact ih hmark hchain
    | false =>
      obtain ⟨file', hr⟩ := fat12Read_chain s buffer size heof hchain
      generalize fat12Read s (some file) buffer size = r at hr
      have hlen := hchain.length_le
      have hmoved : moved (readSize file size) cs ≤ 512 * cs.length := Nat.min_le_right _ _
      have hret : r.ret.toNat = moved (readSize file size) cs := by
        rw [hr.ret, toInt_ofNat (by omega), Int.toNat_natCast]
      rw [hret]
      generalize moved (readSize file size) cs = m at hr hmoved
      cases m with
      | zero =>
        rw [hr.result]
        exact ih ((hmark.of_sameVolume hr.volume).drop _)
          (by rw [hr.volume.fatBuffer]; exact hr.chain)
      | succ m =>
        have hfst : r.buffer 0 = 1 := by
          rw [hr.buffer, if_pos (Nat.zero_lt_succ m), hmark.chainByte (by omega)]
          rfl
        rw [List.range_succ_eq_map, List.map_cons, hfst]
        exact Or.inr ⟨_, rfl⟩

/-- On such contents the pieces only make up the file when the calls start at multiples of 512. -/
theorem aligned_of_readAll {s : FsState Disk} {cs : List u16} {file : FAT12File} {pos : Nat}
    (hmark : Marked s cs) (h : StandsAt s cs file pos)
    (hfit : file.fileSize.toNat ≤ 512 * cs.length) (hlen : cs.length ≤ 4088) (buffer : Bytes)
    (sizes : List u32)
    (hread : readAll s file buffer sizes =
      (List.range (min (asked sizes) (file.fileSize.toNat - pos))).map
        fun t ↦ chainByte s.disk s.mountInfo cs (pos + t)) :
    AlignedFrom pos file.fileSize.toNat sizes := by
  induction sizes generalizing s file pos with
  | nil => exact fun i hi ↦ absurd hi (Nat.not_lt_zero i)
  | cons size sizes ih =>
    intro i hi hlt
    have hle := h.le
    by_cases hdvd : 512 ∣ pos
    · obtain ⟨hsame, hret, hpiece, hstand, hsize⟩ :=
        fat12Read_aligned h hfit hlen buffer size (Or.inl hdvd)
      cases i with
      | zero => exact hdvd
      | succ i =>
        rw [List.take_succ_cons, asked_cons] at hlt ⊢
        rw [asked_cons] at hlt
        have hfull : min size.toNat (file.fileSize.toNat - pos) = size.toNat := by omega
        rw [readAll, hret, asked_cons, show min (size.toNat + asked sizes)
            (file.fileSize.toNat - pos) = size.toNat +
              min (asked sizes) (file.fileSize.toNat - (pos + size.toNat)) by omega,
          map_range_add (chainByte s.disk s.mountInfo cs)] at hread
        rw [hfull] at hread hpiece hstand
        simp only [Int.toNat_natCast] at hread
        rw [hpiece] at hread
        have hrest := List.append_cancel_left hread
        rw [← Nat.add_assoc]
        exact ih (hmark.of_sameVolume hsame) (hstand.of_sameVolume hsame) (by rwa [hsize])
          (by rw [hsize, hsame.disk, hsame.mountInfo]; exact hrest) i (Nat.lt_of_succ_lt_succ hi)
          (by rw [hsize]; omega)
    · -- the file goes on with a 0, but the next byte returned is a 1
      have hpos : 0 < pos % 512 := by
        by_contra hzero
        exact hdvd (Nat.dvd_of_mod_eq_zero (by omega))
      obtain ⟨n, hn⟩ : ∃ n, min (asked (size :: sizes)) (file.fileSize.toNat - pos) = n + 1 :=
        ⟨min (asked (size :: sizes)) (file.fileSize.toNat - pos) - 1, by omega⟩
      rw [hn, List.range_succ_eq_map, List.map_cons, Nat.add_zero,
        hmark.chainByte (by omega), if_neg (by omega)] at hread
      rcases readAll_head (hmark.drop ((pos + 511) / 512)) h.chain buffer (size :: sizes) with
        hnil | ⟨rest, hcons⟩
      · rw [hnil] at hread
        cases hread
      · rw [hcons] at hread
        exact absurd (List.cons.inj hread).1 (by decide)

/-! ## Any contents -/

/-- Contents with a 1 at the start of every sector. -/
def sectorMarks : Nat → Bytes := fun _ a ↦ if a = 0 then 1 else 0

theorem sameRoot_withData {bpb : BPB} {s : FsState Disk} (hm : Mounted bpb s) (data : Nat → Bytes) :
    SameRoot s (s.withData data) := by
  refine ⟨rfl, fun k hk ↦ ?_⟩
  have hlba := hm.rootLba_eq hk
  have hlt : ¬ s.mountInfo.dataStart.toNat ≤ lba28 (s.mountInfo.rootStart + BitVec.ofNat 32 k) := by
    omega
  exact if_neg hlt

/-- The directory and so the handle do not depend on the contents of the files. -/
theorem fat12Open_withData {bpb : BPB} {s s₁ : FsState Disk} (hm : Mounted bpb s)
    {filename : CString} {file : FAT12File} (hopen : fat12Open s filename true = (s₁, some file))
    (data : Nat → Bytes) : fat12Open (s.withData data) filename true =
      ((fat12Open (s.withData data) filename true).1, some file) := by
  obtain ⟨-, n, hn, hfile⟩ := fat12Open_eq_some hopen
  have hroot := sameRoot_withData hm data
  have hlive := ((lookup_eq_some_iff _ _ _).mp hn).1
  have hlook : lookup (s.withData data) (dosName filename) = some n := by rw [hroot.lookup, hn]
  rw [fat12Open_of_lookup hlook, hroot.rootSlot hlive.1, ← hfile]

-- A new handle stands at the start.
theorem standsAt_open {s s₁ : FsState Disk} {filename : CString} {file : FAT12File}
    (hopen : fat12Open s filename true = (s₁, some file)) {cs : List u16}
    (hchain : FatChain s.fatBuffer file.firstCluster cs) : StandsAt s cs file 0 := by
  obtain ⟨-, n, -, hfile⟩ := fat12Open_eq_some hopen
  have hcur : file.currentCluster = file.firstCluster := by rw [hfile]; rfl
  have heof : file.eof = false := by rw [hfile]; rfl
  refine ⟨by rw [hfile]; rfl, Nat.zero_le _, ?_, fun h ↦ ?_⟩
  · rw [hcur]
    exact hchain
  · rw [heof] at h
    cases h

/-- `SequentialReads` for a file that `fat12_open` finds. -/
theorem sequentialReads_open_iff {s s₁ : FsState Disk} {filename : CString} {file : FAT12File}
    (hopen : fat12Open s filename true = (s₁, some file)) (buffer : Bytes) (cs : List u16)
    (sizes : List u32) : SequentialReads s filename buffer cs sizes ↔
      readAll s₁ file buffer sizes = (List.range (min (asked sizes) file.fileSize.toNat)).map
        (chainByte s.disk s.mountInfo cs) := by
  constructor
  · intro h
    obtain ⟨t, file', hopen', hread⟩ := h
    rw [hopen] at hopen'
    cases hopen'
    exact hread
  · intro h
    exact ⟨s₁, file, hopen, h⟩

theorem aligned_of_sectorMarks {bpb : BPB} {s s₁ : FsState Disk} (hm : Mounted bpb s)
    (hspc : bpb.sectorsPerCluster = 1) {filename : CString} {file : FAT12File}
    (hopen : fat12Open s filename true = (s₁, some file)) {cs : List u16}
    (hchain : FatChain s.fatBuffer file.firstCluster cs) (hdata : ∀ c ∈ cs, 2 ≤ c.toNat)
    (hfit : file.fileSize.toNat ≤ 512 * cs.length) (buffer : Bytes) (sizes : List u32)
    (h : SequentialReads (s.withData sectorMarks) filename buffer cs sizes) :
    StartsAligned file.fileSize.toNat sizes := by
  have hopen' := fat12Open_withData hm hopen sectorMarks
  obtain ⟨hsame, -⟩ := fat12Open_eq_some hopen'
  have hread := (sequentialReads_open_iff hopen' buffer cs sizes).mp h
  have hmark : Marked (s.withData sectorMarks) cs := by
    intro c hc a _
    have h2 := hdata c hc
    have hlba := hm.clusterLba_eq hspc (c := c) (by omega)
    have hge : s.mountInfo.dataStart.toNat ≤ lba28 (clusterLba s.mountInfo c) := by omega
    exact congrFun (if_pos hge) a
  have hstand := (standsAt_open hopen' hchain).of_sameVolume hsame
  have halign := aligned_of_readAll (hmark.of_sameVolume hsame) hstand hfit hchain.length_le buffer
    sizes (by
      rw [hread, hsame.disk, hsame.mountInfo, Nat.sub_zero]
      simp only [Nat.zero_add])
  exact (alignedFrom_zero_iff _ _).mp halign

/-- For given sizes the pieces make up the file, whatever it holds, exactly when every call that
still has bytes to return starts at a multiple of 512. -/
theorem sequentialReads_iff {bpb : BPB} {s s₁ : FsState Disk} (hm : Mounted bpb s)
    (hspc : bpb.sectorsPerCluster = 1) {filename : CString} {file : FAT12File}
    (hopen : fat12Open s filename true = (s₁, some file)) {cs : List u16}
    (hchain : FatChain s.fatBuffer file.firstCluster cs) (hdata : ∀ c ∈ cs, 2 ≤ c.toNat)
    (hfit : file.fileSize.toNat ≤ 512 * cs.length) (buffer : Bytes) (sizes : List u32) :
    (∀ data, SequentialReads (s.withData data) filename buffer cs sizes) ↔
      StartsAligned file.fileSize.toNat sizes := by
  constructor
  · intro h
    exact aligned_of_sectorMarks hm hspc hopen hchain hdata hfit buffer sizes (h sectorMarks)
  · intro h data
    have hopen' := fat12Open_withData hm hopen data
    obtain ⟨hsame, -⟩ := fat12Open_eq_some hopen'
    have hstand : StandsAt (s.withData data) cs file 0 := standsAt_open hopen' hchain
    have hread := readAll_aligned (hstand.of_sameVolume hsame) hfit hchain.length_le buffer sizes
      ((alignedFrom_zero_iff _ _).mpr h)
    rw [sequentialReads_open_iff hopen', hread, hsame.disk, hsame.mountInfo, Nat.sub_zero]
    simp only [Nat.zero_add]

theorem sequentialReads_iff_noteVolume :
    (∀ data, SequentialReads (noteVolume.withData data) noteName (fun _ ↦ 0) [2, 3] [512, 188]) ↔
      StartsAligned noteFile.fileSize.toNat [512, 188] :=
  sequentialReads_iff mounted_noteVolume (by decide +kernel) fat12Open_noteVolume
    (by rw [firstCluster_noteFile]; exact fatChain_noteVolume) (by simp)
    (by rw [fileSize_noteFile]; decide) (fun _ ↦ 0) [512, 188]

/-- Two reads of one byte each return the first byte of the first sector and the first byte of the
second. -/
theorem not_sequentialReads_noteVolume :
    Mounted (BPB.ofSector bootSector) noteVolume ∧ FatChain noteVolume.fatBuffer 2 [2, 3] ∧
      noteFile.firstCluster = 2 ∧ noteFile.fileSize = 700 ∧
      ¬ SequentialReads (noteVolume.withData sectorMarks) noteName (fun _ ↦ 0) [2, 3] [1, 1] := by
  refine ⟨mounted_noteVolume, fatChain_noteVolume, firstCluster_noteFile, fileSize_noteFile,
    fun h ↦ ?_⟩
  have halign := aligned_of_sectorMarks mounted_noteVolume (by decide +kernel) fat12Open_noteVolume
    (by rw [firstCluster_noteFile]; exact fatChain_noteVolume) (by simp)
    (by rw [fileSize_noteFile]; decide) (fun _ ↦ 0) [1, 1] h
  rw [fileSize_noteFile] at halign
  exact absurd (halign 1 (by decide) (by decide)) (by decide)

end TenOs.Fs
