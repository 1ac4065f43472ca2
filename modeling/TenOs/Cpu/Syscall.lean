import Mathlib.Data.List.TakeWhile
import TenOs.Fs.Transfer

/-!
# `cpu/syscall.c`: commands

`process_cmd` and the handlers of `create` and `cat`, which copy pieces of the command line into
arrays on the stack.  The text they print is left out.  A pointer into the line is what is left of
the line before its NUL.
-/

namespace TenOs.Cpu

open TenOs.Base TenOs.Lib TenOs.Fs TenOs.Drivers

/-! ## Arrays -/

/-- Why a command cannot go on: it reads a byte of the line behind the NUL, it writes outside an
array, or it takes an array without a NUL for a string. -/
inductive Fault
  | pastNul
  | outside
  | noNul

/-- `a[i] = c` for `char a[size]`. -/
def setChar (size : Nat) (a : Bytes) (i : Nat) (c : u8) : Except Fault Bytes :=
  if i < size then .ok (Function.update a i c) else .error .outside

/-- `char a[size] = {0}` at the start of the memory `m`. -/
def zeroed (m : Bytes) (size : Nat) : Bytes := memset m 0 0 size

/-- The string in `char a[size]`. -/
def asString (size : Nat) (a : Bytes) : Except Fault CString :=
  if h : ∃ i, i < size ∧ a i = 0 then
    have h' : ∃ i, a i = 0 := h.imp fun _ hi ↦ hi.2
    .ok { byte := a
          len := Nat.find h'
          nul := Nat.find_spec h'
          ne_nul := fun _ hi ↦ Nat.find_min h' hi }
  else .error .noNul

/-! ## Scanning the line -/

/-- The bytes before the NUL. -/
def chars (line : CString) : List u8 := (List.range line.len).map line.byte

/-- `while (*p == ' ') p++;` stops at the NUL at the latest. -/
def skipSpaces (l : List u8) : List u8 := l.dropWhile (· = charSpace)

/-- `while (goes(*p)) { a[i] = *p; i++; p++; }`: the array, `i` and the pointer after the loop.  When
the loop does not stop at the NUL, it copies the NUL and then reads the byte behind it. -/
def copyWhile (goes : u8 → Bool) (size : Nat) :
    (a : Bytes) → (i : Nat) → List u8 → Except Fault (Bytes × Nat × List u8)
  | a, i, [] =>
      if goes 0 then do
        let _ ← setChar size a i 0
        .error .pastNul
      else .ok (a, i, [])
  | a, i, c :: rest =>
      if goes c then do
        let a ← setChar size a i c
        copyWhile goes size a (i + 1) rest
      else .ok (a, i, c :: rest)

/-- The three loops that copy: in `process_cmd`, over a file name, and over the content. -/
def copyCmd := copyWhile fun c ↦ c ≠ charSpace ∧ c ≠ 0
def copyName := copyWhile fun c ↦ c ≠ charSpace
def copyContent := copyWhile fun c ↦ c ≠ 0

/-! ## The commands -/

/-- The memories from the arrays `cmd`, `name` and `buff` on. -/
structure Stack where
  cmd : Bytes
  name : Bytes
  buff : Bytes

variable {D : Type} [SectorDevice D]

/-- `cmd_create_file`; `page` and `page'` are for the calls of `fat12_create` and `fat12_open`. -/
def cmdCreateFile (s : FsState D) (stack : Stack) (args : List u8) (page page' : Bool) :
    Except Fault (FsState D × Stack) := do
  let (name, _, args) ← copyName 12 (zeroed stack.name 12) 0 args
  let (buff, _, _) ← copyContent 256 (zeroed stack.buff 256) 0 args.tail
  let file ← asString 12 name
  let s := (fat12Create s file 256 page).1
  let r := fat12Open s file page'
  let w := fat12Write r.1 r.2 buff 256
  .ok (w.1, { stack with name, buff })

def cmdCat (s : FsState D) (stack : Stack) (args : List u8) (page : Bool) :
    Except Fault (FsState D × Stack) := do
  let (name, _, _) ← copyName 12 (zeroed stack.name 12) 0 args
  let file ← asString 12 name
  let r := fat12Open s file page
  let r := fat12Read r.1 r.2 (zeroed stack.buff 256) 256
  .ok (r.fs, { stack with name, buff := r.buffer })

def wordHelp : List u8 := [0x68, 0x65, 0x6C, 0x70]
def wordClear : List u8 := [0x63, 0x6C, 0x65, 0x61, 0x72]
def wordEcho : List u8 := [0x65, 0x63, 0x68, 0x6F]
def wordCreate : List u8 := [0x63, 0x72, 0x65, 0x61, 0x74, 0x65]
def wordCat : List u8 := [0x63, 0x61, 0x74]
def wordLs : List u8 := [0x6C, 0x73]

/-- `memcmp(cmd, word, strlen(word)) == 0`. -/
def cmdIs (cmd : Bytes) (word : List u8) : Prop := memcmp cmd (fun i ↦ word.getD i 0) word.length = 0

instance (cmd : Bytes) (word : List u8) : Decidable (cmdIs cmd word) :=
  inferInstanceAs (Decidable (_ = _))

/-- `process_cmd`.  `cmd_help`, `cmd_clear` and `cmd_echo` only print. -/
def processCmd (s : FsState D) (stack : Stack) (line : CString) (page page' : Bool) :
    Except Fault (FsState D × Stack) := do
  let (cmd, i, buff) ← copyCmd 20 (zeroed stack.cmd 20) 0 (skipSpaces (chars line))
  let buff := skipSpaces buff
  let cmd ← setChar 20 cmd i 0
  let stack := { stack with cmd }
  if cmdIs cmd wordHelp then .ok (s, stack)
  else if cmdIs cmd wordClear then .ok (s, stack)
  else if cmdIs cmd wordEcho then .ok (s, stack)
  else if cmdIs cmd wordCreate then cmdCreateFile s stack buff page page'
  else if cmdIs cmd wordCat then cmdCat s stack buff page
  else if cmdIs cmd wordLs then .ok ((fat12ListRoot s).1, stack)
  else do
    let _ ← asString 20 cmd
    .ok (s, stack)

/-! ## What the loops copy -/

/-- The array with the bytes of `w` from index `i` on. -/
def storeAll : (a : Bytes) → (i : Nat) → List u8 → Bytes
  | a, _, [] => a
  | a, i, c :: w => storeAll (Function.update a i c) (i + 1) w

theorem storeAll_apply (a : Bytes) (i : Nat) (w : List u8) (x : Nat) :
    storeAll a i w x = if i ≤ x ∧ x < i + w.length then w.getD (x - i) 0 else a x := by
  induction w generalizing a i with
  | nil => exact (if_neg (by simp)).symm
  | cons c w ih =>
    rw [storeAll, ih, Function.update_apply, List.length_cons]
    by_cases hx : x = i
    · rw [if_neg (by omega), if_pos hx, if_pos (by omega), hx, Nat.sub_self]
      rfl
    · by_cases hin : i + 1 ≤ x ∧ x < i + 1 + w.length
      · rw [if_pos hin, if_pos (by omega), show x - i = (x - (i + 1)) + 1 by omega,
          List.getD_cons_succ]
      · rw [if_neg hin, if_neg hx, if_neg (by omega)]

/-- What a copying loop takes and what it leaves. -/
def CopyFits (goes : u8 → Bool) (size i : Nat) (l : List u8) : Prop :=
  i + (l.takeWhile goes).length ≤ size ∧ (goes 0 = true → l.dropWhile goes ≠ [])

-- The loop takes the bytes that go on and leaves the rest of the line.
theorem copyWhile_ok {goes : u8 → Bool} {size i : Nat} {l : List u8}
    (h : CopyFits goes size i l) (a : Bytes) :
    copyWhile goes size a i l = .ok (storeAll a i (l.takeWhile goes),
      i + (l.takeWhile goes).length, l.dropWhile goes) := by
  induction l generalizing a i with
  | nil =>
    have hstop : ¬ goes 0 = true := fun h0 ↦ h.2 h0 rfl
    rw [copyWhile, if_neg hstop]
    rfl
  | cons c rest ih =>
    obtain ⟨hfit, hstop⟩ := h
    rw [copyWhile]
    by_cases hc : goes c = true
    · rw [List.takeWhile_cons_of_pos hc, List.length_cons] at hfit
      rw [List.dropWhile_cons_of_pos hc] at hstop
      rw [if_pos hc, setChar, if_pos (by omega), List.takeWhile_cons_of_pos hc,
        List.dropWhile_cons_of_pos hc, List.length_cons, storeAll,
        show i + ((rest.takeWhile goes).length + 1) = i + 1 + (rest.takeWhile goes).length by omega]
      exact ih ⟨by omega, hstop⟩ (Function.update a i c)
    · rw [if_neg hc, List.takeWhile_cons_of_neg hc, List.dropWhile_cons_of_neg hc]
      rfl

-- Otherwise it runs into the end of the array or of the line, whichever comes first.
theorem copyWhile_error {goes : u8 → Bool} {size i : Nat} {l : List u8}
    (h : ¬ CopyFits goes size i l) (a : Bytes) (hi : i ≤ size) :
    ∃ e, copyWhile goes size a i l = .error e := by
  induction l generalizing a i with
  | nil =>
    have hgoes : goes 0 = true := by
      by_contra h0
      exact h ⟨hi, fun h1 ↦ absurd h1 h0⟩
    rw [copyWhile, if_pos hgoes, setChar]
    split
    · exact ⟨.pastNul, rfl⟩
    · exact ⟨.outside, rfl⟩
  | cons c rest ih =>
    rw [copyWhile]
    by_cases hc : goes c = true
    · rw [if_pos hc, setChar]
      by_cases hlt : i < size
      · rw [if_pos hlt]
        refine ih (fun hfits ↦ h ⟨?_, ?_⟩) (Function.update a i c) hlt
        · have hlen := hfits.1
          rw [List.takeWhile_cons_of_pos hc, List.length_cons]
          omega
        · rw [List.dropWhile_cons_of_pos hc]
          exact hfits.2
      · rw [if_neg hlt]
        exact ⟨.outside, rfl⟩
    · refine absurd ⟨?_, fun _ ↦ ?_⟩ h
      · rw [List.takeWhile_cons_of_neg hc]
        exact hi
      · rw [List.dropWhile_cons_of_neg hc]
        exact List.cons_ne_nil c rest

theorem takeWhile_congr {p q : u8 → Bool} {l : List u8} (h : ∀ c ∈ l, p c = q c) :
    l.takeWhile p = l.takeWhile q ∧ l.dropWhile p = l.dropWhile q := by
  induction l with
  | nil => exact ⟨rfl, rfl⟩
  | cons c rest ih =>
    obtain ⟨htake, hdrop⟩ := ih fun d hd ↦ h d (List.mem_cons_of_mem c hd)
    have hc := h c List.mem_cons_self
    rw [List.takeWhile_cons, List.takeWhile_cons, List.dropWhile_cons, List.dropWhile_cons, hc, htake,
      hdrop]
    exact ⟨rfl, rfl⟩

theorem chars_ne_zero {line : CString} {c : u8} (h : c ∈ chars line) : c ≠ 0 := by
  obtain ⟨i, hi, rfl⟩ := List.mem_map.mp h
  exact line.ne_nul i (List.mem_range.mp hi)

/-! ## The arrays after copying -/

theorem zeroed_apply (m : Bytes) (size x : Nat) :
    zeroed m size x = if x < size then 0 else m x := by
  rw [zeroed, memset, fillCells_apply]
  exact if_congr (by omega) rfl rfl

theorem storeAll_zeroed (m : Bytes) {size : Nat} (w : List u8) {x : Nat} (hx : x < size) :
    storeAll (zeroed m size) 0 w x = w.getD x 0 := by
  rw [storeAll_apply, zeroed_apply, if_pos hx]
  by_cases hw : x < w.length
  · rw [if_pos (by omega), Nat.sub_zero]
  · rw [if_neg (by omega), List.getD_eq_default _ _ (by omega)]

theorem storeAll_behind (m : Bytes) {size : Nat} {w : List u8} (hw : w.length ≤ size) {x : Nat}
    (hx : size ≤ x) : storeAll (zeroed m size) 0 w x = m x := by
  rw [storeAll_apply, zeroed_apply, if_neg (by omega), if_neg (by omega)]

-- A word of as many bytes as the array leaves no room for a NUL.
theorem asString_storeAll (m : Bytes) {size : Nat} {w : List u8} (hne : ∀ c ∈ w, c ≠ 0)
    (hw : w.length ≤ size) :
    (∃ file, asString size (storeAll (zeroed m size) 0 w) = .ok file) ↔ w.length < size := by
  unfold asString
  constructor
  · intro h
    by_contra hge
    have hfull : ¬ ∃ i, i < size ∧ storeAll (zeroed m size) 0 w i = 0 := by
      rintro ⟨i, hi, hzero⟩
      rw [storeAll_zeroed m w hi, List.getD_eq_getElem _ _ (by omega)] at hzero
      exact hne _ (List.getElem_mem _) hzero
    rw [dif_neg hfull] at h
    obtain ⟨file, hfile⟩ := h
    cases hfile
  · intro hlt
    have hnul : ∃ i, i < size ∧ storeAll (zeroed m size) 0 w i = 0 := by
      refine ⟨w.length, hlt, ?_⟩
      rw [storeAll_zeroed m w hlt, List.getD_eq_default _ _ (Nat.le_refl _)]
    exact ⟨_, dif_pos hnul⟩

/-! ## Recognizing a command -/

-- A word without zeros is a prefix when it agrees with the padded line.
theorem startsWith_iff_getD {word l : List u8} (hne : ∀ c ∈ word, c ≠ 0) :
    word <+: l ↔ ∀ i < word.length, l.getD i 0 = word.getD i 0 := by
  rw [List.prefix_iff_getElem?]
  refine forall₂_congr fun i hi ↦ ?_
  have hword : word.getD i 0 = word[i] := List.getD_eq_getElem _ _ hi
  have hnz := hne _ (List.getElem_mem hi)
  rw [hword, List.getD_eq_getElem?_getD]
  cases hl : l[i]? with
  | none => simpa using hnz.symm
  | some c => simp

theorem cmdIs_iff {cmd : Bytes} {l word : List u8} (hcmd : ∀ i < 20, cmd i = l.getD i 0)
    (hlen : word.length ≤ 20) (hne : ∀ c ∈ word, c ≠ 0) : cmdIs cmd word ↔ word <+: l := by
  rw [cmdIs, memcmp_eq_zero_iff, startsWith_iff_getD hne]
  refine forall₂_congr fun i hi ↦ ?_
  rw [hcmd i (by omega)]

/-- The names are short and have no NUL, so what `process_cmd` asks is which name the word starts
with. -/
theorem cmdIs_names {cmd : Bytes} {l : List u8} (hcmd : ∀ i < 20, cmd i = l.getD i 0) :
    (cmdIs cmd wordHelp ↔ wordHelp <+: l) ∧ (cmdIs cmd wordClear ↔ wordClear <+: l) ∧
      (cmdIs cmd wordEcho ↔ wordEcho <+: l) ∧ (cmdIs cmd wordCreate ↔ wordCreate <+: l) ∧
      (cmdIs cmd wordCat ↔ wordCat <+: l) ∧ (cmdIs cmd wordLs ↔ wordLs <+: l) := by
  have hiff (word : List u8) (hword : word.length ≤ 20 ∧ word.all fun c ↦ c ≠ 0) :
      cmdIs cmd word ↔ word <+: l :=
    cmdIs_iff hcmd hword.1 fun c hc ↦ of_decide_eq_true (List.all_eq_true.mp hword.2 c hc)
  exact ⟨hiff wordHelp (by decide), hiff wordClear (by decide), hiff wordEcho (by decide),
    hiff wordCreate (by decide), hiff wordCat (by decide), hiff wordLs (by decide)⟩

/-! ## Which lines fit -/

/-- The first word of the line, and what follows it. -/
def firstWord (line : CString) : List u8 :=
  (skipSpaces (chars line)).takeWhile fun c ↦ c ≠ charSpace

def argsOf (line : CString) : List u8 :=
  skipSpaces ((skipSpaces (chars line)).dropWhile fun c ↦ c ≠ charSpace)

/-- A file name of at most 11 bytes with a space behind it. -/
def NameFits (args : List u8) : Prop :=
  charSpace ∈ args ∧ (args.takeWhile fun c ↦ c ≠ charSpace).length < 12

/-- The content of the file starts behind that space. -/
def contentOf (args : List u8) : List u8 := (args.dropWhile fun c ↦ c ≠ charSpace).tail

/-- The lines that `process_cmd` handles within its bounds. -/
structure LineFits (line : CString) : Prop where
  cmd : (firstWord line).length < 20
  create : wordCreate <+: firstWord line →
    NameFits (argsOf line) ∧ (contentOf (argsOf line)).length ≤ 256
  cat : wordCat <+: firstWord line → NameFits (argsOf line)

/-- The run comes to its end, having read nothing behind the NUL of the line and written nothing
outside the arrays. -/
def Contained (stack : Stack) (r : Except Fault (FsState D × Stack)) : Prop :=
  ∃ t stack', r = .ok (t, stack') ∧ (∀ a, 20 ≤ a → stack'.cmd a = stack.cmd a) ∧
    (∀ a, 12 ≤ a → stack'.name a = stack.name a) ∧ ∀ a, 256 ≤ a → stack'.buff a = stack.buff a

theorem contained_unchanged {E : Type} (t : FsState E) (stack : Stack) :
    Contained stack (.ok (t, stack)) :=
  ⟨t, stack, rfl, fun _ _ ↦ rfl, fun _ _ ↦ rfl, fun _ _ ↦ rfl⟩

theorem not_contained_error {E : Type} (stack : Stack) (e : Fault) :
    ¬ Contained stack (.error e : Except Fault (FsState E × Stack)) := by
  rintro ⟨t, stack', hok, -⟩
  cases hok

-- The name loop does not stop at the NUL, so there has to be a space.
theorem copyFits_name {args : List u8} :
    CopyFits (fun c ↦ c ≠ charSpace) 12 0 args ↔
      charSpace ∈ args ∧ (args.takeWhile fun c ↦ c ≠ charSpace).length ≤ 12 := by
  have hzero : (decide ((0 : u8) ≠ charSpace)) = true := by decide
  rw [CopyFits, and_comm]
  refine and_congr ⟨fun h ↦ ?_, fun h _ hnil ↦ ?_⟩ (by rw [Nat.zero_add])
  · by_contra hnone
    apply h hzero
    rw [List.dropWhile_eq_nil_iff]
    intro c hc
    exact decide_eq_true fun heq ↦ hnone (heq ▸ hc)
  · have hall := List.dropWhile_eq_nil_iff.mp hnil charSpace h
    exact of_decide_eq_true hall rfl

-- The name in its array, and the two ways in which it can fail to be a string there.
theorem copyName_cases (m : Bytes) {args : List u8} (hne : ∀ c ∈ args, c ≠ 0) :
    (NameFits args ∧ ∃ name n file, copyName 12 (zeroed m 12) 0 args =
        .ok (name, n, args.dropWhile fun c ↦ c ≠ charSpace) ∧ asString 12 name = .ok file ∧
        ∀ a, 12 ≤ a → name a = m a) ∨
      (¬ NameFits args ∧ ((∃ e, copyName 12 (zeroed m 12) 0 args = .error e) ∨
        ∃ name n rest e, copyName 12 (zeroed m 12) 0 args = .ok (name, n, rest) ∧
          asString 12 name = .error e)) := by
  by_cases hcopy : CopyFits (fun c ↦ c ≠ charSpace) 12 0 args
  · have hok := copyWhile_ok hcopy (zeroed m 12)
    obtain ⟨hspace, hlen⟩ := copyFits_name.mp hcopy
    have hstring := asString_storeAll m
      (fun c hc ↦ hne c (List.takeWhile_subset (fun c ↦ decide (c ≠ charSpace)) hc)) hlen
    by_cases hlt : (args.takeWhile fun c ↦ c ≠ charSpace).length < 12
    · obtain ⟨file, hfile⟩ := hstring.mpr hlt
      exact Or.inl ⟨⟨hspace, hlt⟩, _, _, file, hok, hfile, fun a ha ↦ storeAll_behind m hlen ha⟩
    · cases hname : asString 12 (storeAll (zeroed m 12) 0 (args.takeWhile fun c ↦ c ≠ charSpace)) with
      | ok file => exact absurd (hstring.mp ⟨file, hname⟩) hlt
      | error e => exact Or.inr ⟨fun h ↦ hlt h.2, Or.inr ⟨_, _, _, e, hok, hname⟩⟩
  · refine Or.inr ⟨fun h ↦ hcopy (copyFits_name.mpr ⟨h.1, by have := h.2; omega⟩), Or.inl ?_⟩
    exact copyWhile_error hcopy (zeroed m 12) (Nat.zero_le 12)

-- The content goes to an array of 256 bytes, and no more is asked for.
theorem cmdCat_contained (s : FsState D) (stack : Stack) {args : List u8}
    (hne : ∀ c ∈ args, c ≠ 0) (page : Bool) :
    Contained stack (cmdCat s stack args page) ↔ NameFits args := by
  unfold cmdCat
  rcases copyName_cases stack.name hne with
    ⟨hfits, name, n, file, hcopy, hfile, hframe⟩ | ⟨hnot, hfail⟩
  · refine iff_of_true ?_ hfits
    rw [hcopy]
    simp only [bind, Except.bind, hfile]
    refine ⟨_, _, rfl, fun _ _ ↦ rfl, hframe, fun a ha ↦ ?_⟩
    dsimp only
    rw [fat12Read_buffer_behind _ _ _ ha, zeroed_apply, if_neg (by omega)]
  · refine iff_of_false ?_ hnot
    rcases hfail with ⟨e, herr⟩ | ⟨name, n, rest, e, hcopy, herr⟩
    · rw [herr]
      exact not_contained_error stack e
    · rw [hcopy]
      simp only [bind, Except.bind, herr]
      exact not_contained_error stack e

theorem cmdCreateFile_contained (s : FsState D) (stack : Stack) {args : List u8}
    (hne : ∀ c ∈ args, c ≠ 0) (page page' : Bool) :
    Contained stack (cmdCreateFile s stack args page page') ↔
      NameFits args ∧ (contentOf args).length ≤ 256 := by
  unfold cmdCreateFile
  rcases copyName_cases stack.name hne with
    ⟨hfits, name, n, file, hcopy, hfile, hframe⟩ | ⟨hnot, hfail⟩
  · rw [hcopy]
    have hcontent : ∀ c ∈ contentOf args, c ≠ 0 := fun c hc ↦
      hne c (List.dropWhile_subset _ (List.mem_of_mem_tail hc))
    have hall : (contentOf args).takeWhile (fun c ↦ decide (c ≠ 0)) = contentOf args := by
      rw [List.takeWhile_eq_self_iff]
      exact fun c hc ↦ decide_eq_true (hcontent c hc)
    have hfitsIff : CopyFits (fun c ↦ c ≠ 0) 256 0 (contentOf args) ↔
        (contentOf args).length ≤ 256 := by
      rw [CopyFits, hall, Nat.zero_add]
      exact and_iff_left fun h ↦ absurd h (by decide)
    have hrest : (args.dropWhile fun c ↦ c ≠ charSpace).tail = contentOf args := rfl
    simp only [bind, Except.bind, hfile, hrest]
    by_cases hlen : (contentOf args).length ≤ 256
    · refine iff_of_true ?_ ⟨hfits, hlen⟩
      have hok := copyWhile_ok (hfitsIff.mpr hlen) (zeroed stack.buff 256)
      rw [copyContent, hok]
      refine ⟨_, _, rfl, fun _ _ ↦ rfl, hframe, fun a ha ↦ ?_⟩
      dsimp only
      rw [hall]
      exact storeAll_behind stack.buff hlen ha
    · refine iff_of_false ?_ fun h ↦ hlen h.2
      obtain ⟨e, herr⟩ := copyWhile_error (mt hfitsIff.mp hlen) (zeroed stack.buff 256)
        (Nat.zero_le 256)
      rw [copyContent, herr]
      exact not_contained_error stack e
  · refine iff_of_false ?_ fun h ↦ hnot h.1
    rcases hfail with ⟨e, herr⟩ | ⟨name, n, rest, e, hcopy, herr⟩
    · rw [herr]
      exact not_contained_error stack e
    · -- the content is copied before the name is used as a string
      rw [hcopy]
      simp only [bind, Except.bind]
      cases hbuff : copyContent 256 (zeroed stack.buff 256) 0 rest.tail with
      | error e' => exact not_contained_error stack e'
      | ok r =>
        simp only [herr]
        exact not_contained_error stack e

theorem mem_chars {line : CString} {c : u8} (h : c ∈ skipSpaces (chars line)) : c ≠ 0 :=
  chars_ne_zero (List.dropWhile_subset _ h)

theorem argsOf_ne_zero {line : CString} {c : u8} (h : c ∈ argsOf line) : c ≠ 0 :=
  mem_chars (List.dropWhile_subset _ (List.dropWhile_subset _ h))

-- No byte of the line is zero, so the first loop stops at a space or at the end of the line.
theorem takeWhile_cmd (line : CString) :
    (skipSpaces (chars line)).takeWhile (fun c ↦ c ≠ charSpace ∧ c ≠ 0) = firstWord line ∧
      (skipSpaces (chars line)).dropWhile (fun c ↦ c ≠ charSpace ∧ c ≠ 0) =
        (skipSpaces (chars line)).dropWhile fun c ↦ c ≠ charSpace :=
  takeWhile_congr fun _ hc ↦ decide_eq_decide.mpr (and_iff_left (mem_chars hc))

theorem copyFits_cmd (line : CString) :
    CopyFits (fun c ↦ c ≠ charSpace ∧ c ≠ 0) 20 0 (skipSpaces (chars line)) ↔
      (firstWord line).length ≤ 20 := by
  rw [CopyFits, (takeWhile_cmd line).1, Nat.zero_add]
  exact and_iff_left fun h ↦ absurd h (by decide)

-- No two of the words the commands are told apart by start alike.
theorem not_starts_of_starts {word l : List u8} (h : word <+: l) (word' : List u8)
    (hne : ¬ word <+: word' ∧ ¬ word' <+: word) : ¬ word' <+: l := by
  intro h'
  have hor := List.prefix_or_prefix_of_prefix h h'
  exact hor.elim hne.1 hne.2

theorem contained_cmd {E : Type} {stack : Stack} {cmd : Bytes}
    (h : ∀ a, 20 ≤ a → cmd a = stack.cmd a) (r : Except Fault (FsState E × Stack)) :
    Contained { stack with cmd } r ↔ Contained stack r := by
  unfold Contained
  refine exists₂_congr fun t stack' ↦ and_congr_right fun _ ↦ and_congr_left fun _ ↦ ?_
  refine forall₂_congr fun a ha ↦ ?_
  dsimp only
  rw [h a ha]

/-! ## The first word in its array -/

def cmdArray (stack : Stack) (line : CString) : Bytes :=
  Function.update (storeAll (zeroed stack.cmd 20) 0 (firstWord line)) (firstWord line).length 0

theorem cmdArray_inside (stack : Stack) (line : CString) {i : Nat} (hi : i < 20) :
    cmdArray stack line i = (firstWord line).getD i 0 := by
  rw [cmdArray, Function.update_apply, storeAll_zeroed _ _ hi]
  split
  · rename_i heq
    rw [heq, List.getD_eq_default _ _ (Nat.le_refl _)]
  · rfl

theorem cmdArray_behind (stack : Stack) {line : CString} (hlen : (firstWord line).length < 20)
    {a : Nat} (ha : 20 ≤ a) : cmdArray stack line a = stack.cmd a := by
  rw [cmdArray, Function.update_of_ne (by omega), storeAll_behind _ (Nat.le_of_lt hlen) ha]

/-- The chain of comparisons of `process_cmd`. -/
def dispatch (s : FsState D) (stack : Stack) (args : List u8) (page page' : Bool) :
    Except Fault (FsState D × Stack) :=
  if cmdIs stack.cmd wordHelp then .ok (s, stack)
  else if cmdIs stack.cmd wordClear then .ok (s, stack)
  else if cmdIs stack.cmd wordEcho then .ok (s, stack)
  else if cmdIs stack.cmd wordCreate then cmdCreateFile s stack args page page'
  else if cmdIs stack.cmd wordCat then cmdCat s stack args page
  else if cmdIs stack.cmd wordLs then .ok ((fat12ListRoot s).1, stack)
  else do
    let _ ← asString 20 stack.cmd
    .ok (s, stack)

-- A word of 20 bytes fits the copying loop, and the NUL behind it does not fit `cmd`.
theorem processCmd_of_long (s : FsState D) (stack : Stack) {line : CString}
    (hlen : ¬ (firstWord line).length < 20) (page page' : Bool) :
    ∃ e, processCmd s stack line page page' = .error e := by
  unfold processCmd
  by_cases hcopy : (firstWord line).length ≤ 20
  · have htake := (takeWhile_cmd line).1
    have hok := copyWhile_ok ((copyFits_cmd line).mpr hcopy) (zeroed stack.cmd 20)
    rw [htake, Nat.zero_add] at hok
    rw [copyCmd, hok]
    simp only [bind, Except.bind, setChar, if_neg hlen]
    exact ⟨_, rfl⟩
  · obtain ⟨e, herr⟩ := copyWhile_error (mt (copyFits_cmd line).mp hcopy) (zeroed stack.cmd 20)
      (Nat.zero_le 20)
    rw [copyCmd, herr]
    exact ⟨e, rfl⟩

-- The copying loop and the NUL stay within `cmd`, and what is left are the comparisons.
theorem processCmd_of_short (s : FsState D) (stack : Stack) {line : CString}
    (hlen : (firstWord line).length < 20) (page page' : Bool) :
    processCmd s stack line page page' =
      dispatch s { stack with cmd := cmdArray stack line } (argsOf line) page page' := by
  obtain ⟨htake, hdrop⟩ := takeWhile_cmd line
  have hok := copyWhile_ok ((copyFits_cmd line).mpr (Nat.le_of_lt hlen)) (zeroed stack.cmd 20)
  rw [htake, hdrop, Nat.zero_add] at hok
  unfold processCmd
  rw [copyCmd, hok]
  simp only [bind, Except.bind, setChar, if_pos hlen]
  rfl

-- The words the commands are told apart by start differently, so at most one branch is taken.
theorem dispatch_contained (s : FsState D) {stack : Stack} {l args : List u8}
    (hcmd : ∀ i < 20, stack.cmd i = l.getD i 0) (hlen : l.length < 20) (hne : ∀ c ∈ args, c ≠ 0)
    (page page' : Bool) :
    Contained stack (dispatch s stack args page page') ↔
      (wordCreate <+: l → NameFits args ∧ (contentOf args).length ≤ 256) ∧
        (wordCat <+: l → NameFits args) := by
  have hneither (hcreate : ¬ wordCreate <+: l) (hcat : ¬ wordCat <+: l) :
      (wordCreate <+: l → NameFits args ∧ (contentOf args).length ≤ 256) ∧
        (wordCat <+: l → NameFits args) :=
    ⟨fun h ↦ absurd h hcreate, fun h ↦ absurd h hcat⟩
  obtain ⟨hisHelp, hisClear, hisEcho, hisCreate, hisCat, hisLs⟩ := cmdIs_names hcmd
  unfold dispatch
  simp only [hisHelp, hisClear, hisEcho, hisCreate, hisCat, hisLs]
  by_cases hhelp : wordHelp <+: l
  · rw [if_pos hhelp]
    exact iff_of_true (contained_unchanged s _) (hneither
      (not_starts_of_starts hhelp _ (by decide)) (not_starts_of_starts hhelp _ (by decide)))
  rw [if_neg hhelp]
  by_cases hclear : wordClear <+: l
  · rw [if_pos hclear]
    exact iff_of_true (contained_unchanged s _) (hneither
      (not_starts_of_starts hclear _ (by decide)) (not_starts_of_starts hclear _ (by decide)))
  rw [if_neg hclear]
  by_cases hecho : wordEcho <+: l
  · rw [if_pos hecho]
    exact iff_of_true (contained_unchanged s _) (hneither
      (not_starts_of_starts hecho _ (by decide)) (not_starts_of_starts hecho _ (by decide)))
  rw [if_neg hecho]
  by_cases hcreate : wordCreate <+: l
  · have hcat := not_starts_of_starts hcreate wordCat (by decide)
    rw [if_pos hcreate, cmdCreateFile_contained s _ hne page page']
    exact ⟨fun h ↦ ⟨fun _ ↦ h, fun hcat' ↦ absurd hcat' hcat⟩, fun h ↦ h.1 hcreate⟩
  rw [if_neg hcreate]
  by_cases hcat : wordCat <+: l
  · rw [if_pos hcat, cmdCat_contained s _ hne page]
    exact ⟨fun h ↦ ⟨fun hcreate' ↦ absurd hcreate' hcreate, fun _ ↦ h⟩, fun h ↦ h.2 hcat⟩
  rw [if_neg hcat]
  refine iff_of_true ?_ (hneither hcreate hcat)
  split
  · exact contained_unchanged _ _
  · -- the unknown word is printed; its NUL is in the array
    have hnul : ∃ i, i < 20 ∧ stack.cmd i = 0 := by
      refine ⟨l.length, hlen, ?_⟩
      rw [hcmd _ hlen, List.getD_eq_default _ _ (Nat.le_refl _)]
    rw [asString, dif_pos hnul]
    exact contained_unchanged s _

/-- A line is handled within bounds exactly when it fits. -/
theorem processCmd_contained (s : FsState D) (stack : Stack) (line : CString) (page page' : Bool) :
    Contained stack (processCmd s stack line page page') ↔ LineFits line := by
  by_cases hlen : (firstWord line).length < 20
  · rw [processCmd_of_short s stack hlen, ← contained_cmd fun a ha ↦ cmdArray_behind stack hlen ha,
      dispatch_contained s (fun i hi ↦ cmdArray_inside stack line hi) hlen
        (fun c ↦ argsOf_ne_zero) page page']
    exact ⟨fun h ↦ ⟨hlen, h.1, h.2⟩, fun h ↦ ⟨h.create, h.cat⟩⟩
  · obtain ⟨e, herr⟩ := processCmd_of_long s stack hlen page page'
    rw [herr]
    exact iff_of_false (not_contained_error stack e) fun h ↦ hlen h.cmd

/-! Two lines of the documented forms: `cat test.txt`, and `create document.txt Hi` with a name of
eight and three characters. -/

def catLine : CString := CString.ofList
  [0x63, 0x61, 0x74, 0x20, 0x74, 0x65, 0x73, 0x74, 0x2E, 0x74, 0x78, 0x74] (by decide)

def createLine : CString := CString.ofList
  [0x63, 0x72, 0x65, 0x61, 0x74, 0x65, 0x20, 0x64, 0x6F, 0x63, 0x75, 0x6D, 0x65, 0x6E, 0x74, 0x2E,
    0x74, 0x78, 0x74, 0x20, 0x48, 0x69] (by decide)

def zeroStack : Stack := ⟨fun _ ↦ 0, fun _ ↦ 0, fun _ ↦ 0⟩

theorem not_contained_documented :
    ¬ Contained zeroStack (processCmd blankVolume zeroStack catLine true true) ∧
      ¬ Contained zeroStack (processCmd blankVolume zeroStack createLine true true) := by
  have hcat : processCmd blankVolume zeroStack catLine true true = .error .pastNul := rfl
  have hcreate : processCmd blankVolume zeroStack createLine true true = .error .noNul := rfl
  rw [hcat, hcreate]
  exact ⟨not_contained_error zeroStack .pastNul, not_contained_error zeroStack .noNul⟩

end TenOs.Cpu
