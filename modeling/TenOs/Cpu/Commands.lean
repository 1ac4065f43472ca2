import TenOs.Cpu.Dispatch
import TenOs.Fs.Messages
import TenOs.Fs.NameCodec

/-!
# The commands with what they print

`process_cmd` and its handlers once more, now with the text they put on the console.  `StoreCommand`
below is what a line asks of a store of files; on a well formed volume every line does just that.
-/

namespace TenOs.Cpu.Commands

open TenOs.Base TenOs.Lib TenOs.Fs TenOs.Drivers

/-! ## The handlers -/

/-- The table `commands[]`: the name and the description of each. -/
def commands : List (CString × CString) :=
  [(literal "help" (by decide +kernel), literal "show all the commands" (by decide +kernel)),
    (literal "clear" (by decide +kernel), literal "Clear screen" (by decide +kernel)),
    (literal "echo" (by decide +kernel), literal "Echo text" (by decide +kernel)),
    (literal "create" (by decide +kernel), literal "Create a new file" (by decide +kernel)),
    (literal "ls" (by decide +kernel), literal "List files" (by decide +kernel)),
    (literal "cat" (by decide +kernel), literal "Display file contents" (by decide +kernel)),
    (literal "meminfo" (by decide +kernel), literal "Show memory info" (by decide +kernel))]

def fmtTitle : CString :=
  literal "\n==============Available Commands=============\n" (by decide +kernel)
def fmtRule : CString :=
  literal "---------------------------------------------------\n" (by decide +kernel)
def fmtName : CString := literal "Name of the cmd -----> %s\n" (by decide +kernel)
def fmtDescription : CString := literal "Description of the cmd ------> %s\n" (by decide +kernel)
def fmtEcho : CString := literal "%s\n" (by decide +kernel)
def fmtCreated : CString := literal "\nFile %s Created\n" (by decide +kernel)
def fmtContents : CString := literal "\nFile %s Contents :- \n" (by decide +kernel)
def fmtEnded : CString := literal "\nFile Ended\n" (by decide +kernel)
def fmtUnknown : CString := literal "\n %s cmd not implemented\n" (by decide +kernel)

section Handlers

variable (pr : Printer)

def cmdHelp : Console :=
  pr.printkColor VGA_COLOR_MAGENTA fmtTitle [] ++ pr.printkColor VGA_COLOR_GREEN fmtRule [] ++
    commands.flatMap fun c ↦
      pr.printkColor VGA_COLOR_CYAN fmtName [.str c.1] ++
        pr.printkColor VGA_COLOR_CYAN fmtDescription [.str c.2] ++
        pr.printkColor VGA_COLOR_GREEN fmtRule []

def cmdClear : Console := [.clearScreen]

def cmdEcho (args : List u8) : Console :=
  pr.printk fmtNewline [] ++ pr.printk fmtEcho [.str (cstr args)]

/-- The volume, the arrays and what has been printed. -/
structure CmdRun (D : Type) where
  fs : FsState D
  stack : Stack
  console : Console

variable {D : Type} [SectorDevice D]

def cmdCreateFile (s : FsState D) (stack : Stack) (args : List u8) (page page' : Bool) :
    Except Fault (CmdRun D) := do
  let (name, _, args) ← copyName 12 (zeroed stack.name 12) 0 args
  let (buff, _, _) ← copyContent 256 (zeroed stack.buff 256) 0 args.tail
  let file ← asString 12 name
  let created := (fat12Create s file 256 page).1
  let r := fat12Open created file page'
  let w := fat12Write r.1 r.2 buff 256
  .ok { fs := w.1
        stack := { stack with name, buff }
        console := fat12OpenLog pr s file ++ fat12OpenLog pr created file ++ fat12WriteLog pr r.2 ++
          pr.printkColor VGA_COLOR_YELLOW fmtCreated [.str file] }

def cmdCat (s : FsState D) (stack : Stack) (args : List u8) (page : Bool) :
    Except Fault (CmdRun D) := do
  let (name, _, _) ← copyName 12 (zeroed stack.name 12) 0 args
  let file ← asString 12 name
  let opened := fat12Open s file page
  let r := fat12Read opened.1 opened.2 (zeroed stack.buff 256) 256
  let contents ← asString 256 r.buffer
  .ok { fs := r.fs
        stack := { stack with name, buff := r.buffer }
        console := fat12OpenLog pr s file ++ pr.printk fmtContents [.str file] ++
          pr.printk fmtString [.str contents] ++ pr.printk fmtEnded [] }

def cmdLs (s : FsState D) (stack : Stack) : CmdRun D where
  fs := (fat12ListRoot s).1
  stack := stack
  console := pr.printk fmtNewline [] ++ fat12ListRootText pr s ++ pr.printk fmtNewline []

/-- `process_cmd`. -/
def processCmd (s : FsState D) (stack : Stack) (line : CString) (page page' : Bool) :
    Except Fault (CmdRun D) := do
  let (cmd, i, buff) ← copyCmd 20 (zeroed stack.cmd 20) 0 (skipSpaces (chars line))
  let buff := skipSpaces buff
  let cmd ← setChar 20 cmd i 0
  let stack := { stack with cmd }
  if cmdIs cmd wordHelp then .ok ⟨s, stack, cmdHelp pr⟩
  else if cmdIs cmd wordClear then .ok ⟨s, stack, cmdClear⟩
  else if cmdIs cmd wordEcho then .ok ⟨s, stack, cmdEcho pr buff⟩
  else if cmdIs cmd wordCreate then cmdCreateFile pr s stack buff page page'
  else if cmdIs cmd wordCat then cmdCat pr s stack buff page
  else if cmdIs cmd wordLs then .ok (cmdLs pr s stack)
  else do
    let word ← asString 20 cmd
    .ok ⟨s, stack, pr.printkColor VGA_COLOR_RED fmtUnknown [.str word]⟩

end Handlers

/-! ## What a line asks for -/

section StoreCommand

variable (pr : Printer)

def white (l : List u8) : Console := putAll WHITE_ON_BLACK l

/-- The text of the listing. -/
def listing (st : Store) : Console :=
  white (ascii "\nRoot directory contents:\nName                   Size\n" ++
    (st.rows.flatMap fun row ↦ row.1.takeWhile (· ≠ 0) ++ ascii "                    " ++
      shownInt row.2 ++ ascii "\n") ++
    ascii "\nTotal files: " ++ shownInt (BitVec.ofNat 32 st.rows.length) ++ ascii "\n\n")

/-- The text of a file ends at its first zero; a file of 256 bytes without one has no end. -/
def shownText (l : List u8) : Option (List u8) :=
  if l.length < 256 ∨ 0 ∈ l then some (l.takeWhile (· ≠ 0)) else none

def nameOf (args : List u8) : List u8 := args.takeWhile (· ≠ charSpace)

def created (st : Store) (args : List u8) : Console :=
  let name := nameOf args
  let found := pr.logged .debug "FS" "FILE FOUND\n"
  (if (st.find (dosName (cstr name))).isSome then found ++ found
    else if st.HasRoom then found
    else pr.logged .err "FS" "No File Found \n") ++
  putAll VGA_COLOR_YELLOW (ascii "\nFile " ++ name ++ ascii " Created\n")

def catted (st : Store) (args : List u8) (contents : List u8) : Console :=
  let name := nameOf args
  (if (st.find (dosName (cstr name))).isSome then pr.logged .debug "FS" "FILE FOUND\n" else []) ++
  white (ascii "\nFile " ++ name ++ ascii " Contents :- \n" ++ contents ++ ascii "\nFile Ended\n")

def helpText : Console :=
  let rule := putAll VGA_COLOR_GREEN
    (ascii "---------------------------------------------------\n")
  putAll VGA_COLOR_MAGENTA (ascii "\n==============Available Commands=============\n") ++ rule ++
    ([("help", "show all the commands"), ("clear", "Clear screen"), ("echo", "Echo text"),
      ("create", "Create a new file"), ("ls", "List files"), ("cat", "Display file contents"),
      ("meminfo", "Show memory info")].flatMap fun c ↦
        putAll VGA_COLOR_CYAN (ascii "Name of the cmd -----> " ++ ascii c.1 ++
          ascii "\nDescription of the cmd ------> " ++ ascii c.2 ++ ascii "\n") ++ rule)

/-- The command whose name the word starts with. -/
def commandFor (word : List u8) : Option Command :=
  [.help, .clear, .echo, .create, .cat, .ls].find? fun c ↦ decide (c.word <+: word)

instance (args : List u8) : Decidable (NameFits args) := inferInstanceAs (Decidable (_ ∧ _))

/-- What a line does to a store, and what it shows; `none` where the line or a file does not fit the
arrays of the command. -/
def storeCommand (st : Store) (line : CString) : Option (Store × Console) :=
  let args := argsOf line
  if (firstWord line).length < 20 then
    match commandFor (firstWord line) with
    | some .help => some (st, helpText)
    | some .clear => some (st, [.clearScreen])
    | some .echo => some (st, white (ascii "\n" ++ args ++ ascii "\n"))
    | some .create =>
        if NameFits args ∧ (contentOf args).length ≤ 256 then
          some (st.save (dosName (cstr (nameOf args))) (contentOf args), created pr st args)
        else none
    | some .cat =>
        if NameFits args then
          (shownText (st.load (dosName (cstr (nameOf args))))).map fun contents ↦
            (st, catted pr st args contents)
        else none
    | some .ls => some (st, listing st)
    | none => some (st, putAll VGA_COLOR_RED
        (ascii "\n " ++ firstWord line ++ ascii " cmd not implemented\n"))
  else none

end StoreCommand

/-! ## What is printed -/

section Printed

variable (pr : Printer)

theorem cmdHelp_eq : cmdHelp pr = helpText := by
  have hname (name : CString) : pr.printkColor VGA_COLOR_CYAN fmtName [.str name] =
      putAll VGA_COLOR_CYAN (ascii "Name of the cmd -----> " ++ name.chars ++ ascii "\n") :=
    pr.printkColor_string VGA_COLOR_CYAN (chars_literal _ _) (by decide +kernel)
      (by decide +kernel) name
  have hdescription (text : CString) : pr.printkColor VGA_COLOR_CYAN fmtDescription [.str text] =
      putAll VGA_COLOR_CYAN
        (ascii "Description of the cmd ------> " ++ text.chars ++ ascii "\n") :=
    pr.printkColor_string VGA_COLOR_CYAN (chars_literal _ _) (by decide +kernel)
      (by decide +kernel) text
  have hrule : pr.printkColor VGA_COLOR_GREEN fmtRule [] = putAll VGA_COLOR_GREEN
      (ascii "---------------------------------------------------\n") := by
    rw [pr.printkColor_plain _ (by rw [fmtRule, chars_literal]; decide +kernel), fmtRule,
      chars_literal]
  have htitle : pr.printkColor VGA_COLOR_MAGENTA fmtTitle [] = putAll VGA_COLOR_MAGENTA
      (ascii "\n==============Available Commands=============\n") := by
    rw [pr.printkColor_plain _ (by rw [fmtTitle, chars_literal]; decide +kernel), fmtTitle,
      chars_literal]
  simp only [cmdHelp, helpText, commands, hname, hdescription, hrule, htitle, List.flatMap_cons,
    List.flatMap_nil, chars_literal, putAll_append, List.append_assoc]
  rfl

theorem printk_plain {text : String} (h : 0 ∉ ascii text)
    (hplain : 0x25 ∉ ascii text) : pr.printk (literal text h) [] = white (ascii text) := by
  have hchars := chars_literal text h
  rw [Printer.printk, pr.printkColor_plain _ (by rw [hchars]; exact hplain), hchars]
  rfl

theorem printk_newline : pr.printk fmtNewline [] = white (ascii "\n") :=
  printk_plain pr (by decide +kernel) (by decide +kernel)

theorem cmdEcho_eq {args : List u8} (hne : ∀ c ∈ args, c ≠ 0) :
    cmdEcho pr args = white (ascii "\n" ++ args ++ ascii "\n") := by
  have hargs : (cstr args).chars = args := by
    rw [chars_cstr, List.takeWhile_eq_self_iff]
    exact fun c hc ↦ decide_eq_true (hne c hc)
  have htext : pr.printk fmtEcho [.str (cstr args)] =
      white ([] ++ (cstr args).chars ++ ascii "\n") :=
    pr.printkColor_string WHITE_ON_BLACK (chars_literal _ _) (by decide +kernel)
      (by decide +kernel) (cstr args)
  rw [cmdEcho, printk_newline, htext, hargs, white, white, white, ← putAll_append, List.nil_append,
    List.append_assoc]

theorem listRow_eq (row : List u8 × u32) : listRow pr row =
    white (row.1.takeWhile (· ≠ 0) ++ ascii "                    " ++ shownInt row.2 ++
      ascii "\n") := by
  have hname : pr.printk fmtString [.str (cstr row.1)] = white ([] ++ (cstr row.1).chars ++ []) :=
    pr.printkColor_string WHITE_ON_BLACK (chars_literal _ _) (by decide +kernel)
      (by decide +kernel) (cstr row.1)
  have hsize : pr.printk fmtInt [.int row.2] = white ([] ++ shownInt row.2 ++ []) :=
    pr.printkColor_int WHITE_ON_BLACK (chars_literal _ _) (by decide +kernel)
      (by decide +kernel) row.2
  have hgap : pr.printk fmtGap [] = white (ascii "                    ") :=
    printk_plain pr (by decide +kernel) (by decide +kernel)
  rw [listRow, hgap, printk_newline, hname, hsize, chars_cstr]
  simp only [white, ← putAll_append, List.nil_append, List.append_nil]

theorem cmdLs_eq (s : FsState Disk) (stack : Stack) :
    (cmdLs pr s stack).console = listing (storeOf s) := by
  have hroot : pr.printk fmtRoot [] = white (ascii "Root directory contents:\n") :=
    printk_plain pr (by decide +kernel) (by decide +kernel)
  have hheads : pr.printk fmtHeads [] = white (ascii "Name                   Size\n") :=
    printk_plain pr (by decide +kernel) (by decide +kernel)
  have htotal (n : u32) : pr.printk fmtTotal [.int n] =
      white (ascii "\nTotal files: " ++ shownInt n ++ ascii "\n") :=
    pr.printkColor_int WHITE_ON_BLACK (chars_literal _ _) (by decide +kernel) (by decide +kernel) n
  have hrows := putAll_flatMap WHITE_ON_BLACK (storeOf s).rows fun row ↦
    row.1.takeWhile (· ≠ 0) ++ ascii "                    " ++ shownInt row.2 ++ ascii "\n"
  have hlist : (storeOf s).rows.flatMap (listRow pr) = white ((storeOf s).rows.flatMap fun row ↦
      row.1.takeWhile (· ≠ 0) ++ ascii "                    " ++ shownInt row.2 ++ ascii "\n") := by
    rw [white, hrows]
    exact congrArg (fun f ↦ (storeOf s).rows.flatMap f) (funext fun row ↦ listRow_eq pr row)
  have hfront : ascii "\nRoot directory contents:\nName                   Size\n" =
      ascii "\n" ++ ascii "Root directory contents:\n" ++ ascii "Name                   Size\n" := rfl
  have hback : ascii "\n\n" = ascii "\n" ++ ascii "\n" := rfl
  rw [cmdLs, fat12ListRootText, storeOf_rows, printk_newline, hroot, hheads, hlist, htotal,
    listing, hfront, hback]
  simp only [white, putAll_append, List.append_assoc]

end Printed

/-! ## Strings in arrays -/

-- The string in an array is what stands before its first zero.
theorem chars_eq_takeWhile {str : CString} {l : List u8} (h : ∀ i ≤ str.len, str.byte i = l.getD i 0) :
    str.chars = l.takeWhile (· ≠ 0) := by
  have hle : str.len ≤ l.length := by
    by_contra hlt
    refine str.ne_nul l.length (by omega) ?_
    rw [h _ (by omega), List.getD_eq_default _ _ (Nat.le_refl _)]
  have htake : str.chars = l.take str.len := by
    refine List.ext_getElem (by simp [CString.chars, hle]) fun i hi hi' ↦ ?_
    have hlt : i < str.len := by simpa [CString.chars] using hi
    rw [List.getElem_take]
    simp only [CString.chars, List.getElem_map, List.getElem_range]
    rw [h i (Nat.le_of_lt hlt), List.getD_eq_getElem _ _ (by omega)]
  have hfront : ∀ c ∈ l.take str.len, (decide (c ≠ 0)) = true := by
    intro c hc
    rw [← htake] at hc
    obtain ⟨i, hi, rfl⟩ := List.mem_map.mp hc
    exact decide_eq_true (str.ne_nul i (List.mem_range.mp hi))
  have hback : (l.drop str.len).takeWhile (fun c ↦ decide (c ≠ 0)) = [] := by
    rcases Nat.eq_or_lt_of_le hle with heq | hlt
    · rw [heq, List.drop_length, List.takeWhile_nil]
    · have hzero : l[str.len] = 0 := by
        rw [← List.getD_eq_getElem l 0 hlt, ← h _ (Nat.le_refl _), str.nul]
      rw [List.drop_eq_getElem_cons hlt, List.takeWhile_cons_of_neg (by simp [hzero])]
  have hwhole : (l.take str.len ++ l.drop str.len).takeWhile (fun c ↦ decide (c ≠ 0)) =
      l.take str.len ++ (l.drop str.len).takeWhile fun c ↦ decide (c ≠ 0) :=
    List.takeWhile_append_of_pos hfront
  rw [List.take_append_drop, hback, List.append_nil] at hwhole
  rw [htake, hwhole]

theorem asString_of_list {a : Bytes} {l : List u8} {size : Nat} (ha : ∀ i < size, a i = l.getD i 0)
    (hlen : l.length ≤ size) :
    (l.length < size ∨ 0 ∈ l →
      ∃ str, asString size a = .ok str ∧ str.chars = l.takeWhile (· ≠ 0)) ∧
    (¬ (l.length < size ∨ 0 ∈ l) → asString size a = .error .noNul) := by
  have hnul : (∃ i, i < size ∧ a i = 0) ↔ l.length < size ∨ 0 ∈ l := by
    constructor
    · rintro ⟨i, hi, hzero⟩
      rw [ha i hi] at hzero
      rcases Nat.lt_or_ge i l.length with hlt | hge
      · rw [List.getD_eq_getElem _ _ hlt] at hzero
        exact Or.inr (hzero ▸ List.getElem_mem hlt)
      · exact Or.inl (by omega)
    · rintro (hlt | hmem)
      · exact ⟨l.length, hlt, by rw [ha _ hlt, List.getD_eq_default _ _ (Nat.le_refl _)]⟩
      · obtain ⟨i, hi, hzero⟩ := List.mem_iff_getElem.mp hmem
        exact ⟨i, by omega, by rw [ha i (by omega), List.getD_eq_getElem _ _ hi, hzero]⟩
  unfold asString
  constructor
  · intro h
    have hex := hnul.mpr h
    refine ⟨_, dif_pos hex, chars_eq_takeWhile fun i hi ↦ ha i ?_⟩
    obtain ⟨j, hj, hzero⟩ := hex
    have hmin := Nat.find_min' (⟨j, hzero⟩ : ∃ i, a i = 0) hzero
    exact Nat.lt_of_le_of_lt hi (Nat.lt_of_le_of_lt hmin hj)
  · intro h
    exact dif_neg (mt hnul.mp h)

-- A name that fits comes to stand in its array as a string.
theorem copyName_fits (m : Bytes) {args : List u8} (hne : ∀ c ∈ args, c ≠ 0) (hfits : NameFits args) :
    ∃ name n file, copyName 12 (zeroed m 12) 0 args =
        .ok (name, n, args.dropWhile fun c ↦ c ≠ charSpace) ∧ asString 12 name = .ok file ∧
      file.chars = nameOf args := by
  have hcopy := copyWhile_ok (copyFits_name.mpr ⟨hfits.1, Nat.le_of_lt hfits.2⟩) (zeroed m 12)
  have hstored : ∀ i < 12, storeAll (zeroed m 12) 0 (nameOf args) i = (nameOf args).getD i 0 :=
    fun i hi ↦ storeAll_zeroed m (nameOf args) hi
  obtain ⟨hok, -⟩ := asString_of_list hstored (Nat.le_of_lt hfits.2)
  obtain ⟨file, hfile, hchars⟩ := hok (Or.inl hfits.2)
  refine ⟨_, _, file, hcopy, hfile, ?_⟩
  rw [hchars, List.takeWhile_eq_self_iff]
  exact fun c hc ↦ decide_eq_true (hne c (List.takeWhile_subset _ hc))

theorem dosName_of_chars {file : CString} {name : List u8} (h : file.chars = name)
    (hne : ∀ c ∈ name, c ≠ 0) : dosName file = dosName (cstr name) := by
  refine dosName_congr ?_
  have hself : name.takeWhile (fun c ↦ decide (c ≠ 0)) = name := by
    rw [List.takeWhile_eq_self_iff]
    exact fun c hc ↦ decide_eq_true (hne c hc)
  exact h.trans (hself.symm.trans (chars_cstr name).symm)

/-! ## Every line -/

section Line

variable {bpb : BPB} {s : FsState Disk} (pr : Printer) (stack : Stack)

/-- What a run of the code has to do with the answer of the store: both fail, or the volume stays well
formed, holds that store, and the same is printed. -/
def Agrees (bpb : BPB) (r : Except Fault (CmdRun Disk)) : Option (Store × Console) → Prop
  | none => ∃ e, r = .error e
  | some (st, out) =>
      ∃ t, r = .ok t ∧ WellFormed bpb t.fs ∧ storeOf t.fs = st ∧ t.console = out

-- The three ways in which the handles come out decide what is logged.
theorem createLog_eq (h : WellFormed bpb s) (hfats : bpb.numFats = 2) (file : CString) :
    let t := (fat12Create s file 256 true).1
    fat12OpenLog pr s file ++ fat12OpenLog pr t file ++ fat12WriteLog pr (fat12Open t file true).2 =
      if ((storeOf s).find (dosName file)).isSome then
        pr.logged .debug "FS" "FILE FOUND\n" ++ pr.logged .debug "FS" "FILE FOUND\n"
      else if (storeOf s).HasRoom then pr.logged .debug "FS" "FILE FOUND\n"
      else pr.logged .err "FS" "No File Found \n" := by
  intro t
  have hfound : pr.printkCore .debug moduleFs fmtFound [] = pr.logged .debug "FS" "FILE FOUND\n" :=
    pr.printkCore_literal .debug (by decide +kernel) (by decide +kernel)
      (by decide +kernel) (by decide +kernel)
  have hnoFile : pr.printkCore .err moduleFs fmtNoFile [] = pr.logged .err "FS" "No File Found \n" :=
    pr.printkCore_literal .err (by decide +kernel) (by decide +kernel)
      (by decide +kernel) (by decide +kernel)
  have hopen := (fat12Open_spec t file true).2
  rw [if_pos rfl] at hopen
  have hiff : (lookup t (dosName file)).isSome ↔ _ := lookup_of_create h hfats file
  rw [fat12OpenLog_eq, fat12OpenLog_eq, hfound, storeOf_find, hopen]
  by_cases hold : (lookup s (dosName file)).isSome
  · have hnew := hiff.mpr (Or.inl hold)
    obtain ⟨n, hn⟩ := Option.isSome_iff_exists.mp hnew
    rw [if_pos hold, if_pos hold, if_pos hnew, hn]
    exact List.append_nil _
  · rw [if_neg hold, if_neg hold]
    by_cases hroom : (storeOf s).HasRoom
    · have hnew := hiff.mpr (Or.inr hroom)
      obtain ⟨n, hn⟩ := Option.isSome_iff_exists.mp hnew
      rw [if_pos hroom, if_pos hnew, hn]
      exact List.append_nil _
    · have hnew : ¬ (lookup t (dosName file)).isSome := fun hsome ↦
        (hiff.mp hsome).elim hold hroom
      have hnone := Option.not_isSome_iff_eq_none.mp hnew
      rw [if_neg hroom, if_neg hnew, hnone]
      exact hnoFile

theorem cmdCreateFile_agrees (h : WellFormed bpb s) (hspc : bpb.sectorsPerCluster = 1)
    (hfats : bpb.numFats = 2) {args : List u8} (hne : ∀ c ∈ args, c ≠ 0) :
    Agrees bpb (cmdCreateFile pr s stack args true true)
      (if NameFits args ∧ (contentOf args).length ≤ 256 then
        some ((storeOf s).save (dosName (cstr (nameOf args))) (contentOf args),
          created pr (storeOf s) args)
      else none) := by
  have hcontent : ∀ c ∈ contentOf args, c ≠ 0 := fun c hc ↦
    hne c (List.dropWhile_subset _ (List.mem_of_mem_tail hc))
  have hname : ∀ c ∈ nameOf args, c ≠ 0 := fun c hc ↦ hne c (List.takeWhile_subset _ hc)
  have hall : (contentOf args).takeWhile (fun c ↦ decide (c ≠ 0)) = contentOf args := by
    rw [List.takeWhile_eq_self_iff]
    exact fun c hc ↦ decide_eq_true (hcontent c hc)
  have hfitsIff : CopyFits (fun c ↦ c ≠ 0) 256 0 (contentOf args) ↔
      (contentOf args).length ≤ 256 := by
    rw [CopyFits, hall, Nat.zero_add]
    exact and_iff_left fun h ↦ absurd h (by decide)
  have hrest : (args.dropWhile fun c ↦ c ≠ charSpace).tail = contentOf args := rfl
  unfold cmdCreateFile
  by_cases hfits : NameFits args
  · obtain ⟨name, n, file, hcopy, hfile, hchars⟩ := copyName_fits stack.name hne hfits
    have hdos := dosName_of_chars hchars hname
    rw [hcopy]
    simp only [bind, Except.bind, hfile, hrest]
    by_cases hlen : (contentOf args).length ≤ 256
    · have hok := copyWhile_ok (hfitsIff.mpr hlen) (zeroed stack.buff 256)
      rw [copyContent, hok, if_pos ⟨hfits, hlen⟩, hall]
      obtain ⟨hwf, hstore⟩ := storeOf_saveFile h hspc hfats file
        (storeAll (zeroed stack.buff 256) 0 (contentOf args))
      have hpad := padded_of_getD (l := contentOf args) hlen fun i hi ↦
        storeAll_zeroed stack.buff (contentOf args) hi
      rw [Store.save_congr _ _ hpad, hdos] at hstore
      have hlog := createLog_eq pr h hfats file
      have htext : pr.printkColor VGA_COLOR_YELLOW fmtCreated [.str file] =
          putAll VGA_COLOR_YELLOW (ascii "\nFile " ++ file.chars ++ ascii " Created\n") :=
        pr.printkColor_string _ (chars_literal _ _) (by decide +kernel) (by decide +kernel) file
      refine ⟨_, rfl, hwf, hstore, ?_⟩
      dsimp only at hlog ⊢
      rw [hlog, htext, hchars, hdos]
      rfl
    · obtain ⟨e, herr⟩ := copyWhile_error (mt hfitsIff.mp hlen) (zeroed stack.buff 256)
        (Nat.zero_le 256)
      rw [copyContent, herr, if_neg fun hboth ↦ hlen hboth.2]
      exact ⟨e, rfl⟩
  · rw [if_neg fun hboth ↦ hfits hboth.1]
    rcases copyName_cases stack.name hne with ⟨hcon, -⟩ | ⟨-, hfail⟩
    · exact absurd hcon hfits
    rcases hfail with ⟨e, herr⟩ | ⟨name, n, rest, e, hcopy, herr⟩
    · rw [herr]
      exact ⟨e, rfl⟩
    · -- the content is copied before the name is used as a string
      rw [hcopy]
      simp only [bind, Except.bind]
      cases hbuff : copyContent 256 (zeroed stack.buff 256) 0 rest.tail with
      | error e' => exact ⟨e', rfl⟩
      | ok r =>
        simp only [herr]
        exact ⟨e, rfl⟩

theorem cmdCat_agrees (h : WellFormed bpb s) {args : List u8} (hne : ∀ c ∈ args, c ≠ 0) :
    Agrees bpb (cmdCat pr s stack args true)
      (if NameFits args then
        (shownText ((storeOf s).load (dosName (cstr (nameOf args))))).map fun contents ↦
          (storeOf s, catted pr (storeOf s) args contents)
      else none) := by
  have hname : ∀ c ∈ nameOf args, c ≠ 0 := fun c hc ↦ hne c (List.takeWhile_subset _ hc)
  unfold cmdCat
  by_cases hfits : NameFits args
  · obtain ⟨name, n, file, hcopy, hfile, hchars⟩ := copyName_fits stack.name hne hfits
    have hdos := dosName_of_chars hchars hname
    obtain ⟨hsame, hbuffer⟩ := storeOf_loadFile h file (zeroed stack.buff 256)
    have hload : ∀ i < 256, (loadFile s file (zeroed stack.buff 256)).buffer i =
        ((storeOf s).load (dosName file)).getD i 0 := by
      intro i hi
      rw [hbuffer]
      split_ifs with hin
      · rfl
      · rw [zeroed_apply, if_pos hi, List.getD_eq_default _ _ (Nat.le_of_not_lt hin)]
    obtain ⟨hok, hfault⟩ := asString_of_list hload (Store.load_length _ _)
    have hread : fat12Read (fat12Open s file true).1 (fat12Open s file true).2
        (zeroed stack.buff 256) 256 = loadFile s file (zeroed stack.buff 256) := rfl
    rw [hcopy, if_pos hfits, ← hdos, shownText]
    simp only [bind, Except.bind, hfile, hread]
    by_cases hend : ((storeOf s).load (dosName file)).length < 256 ∨
        0 ∈ (storeOf s).load (dosName file)
    · obtain ⟨contents, hcontents, htext⟩ := hok hend
      have hfound : pr.printkCore .debug moduleFs fmtFound [] = pr.logged .debug "FS" "FILE FOUND\n" :=
        pr.printkCore_literal .debug (by decide +kernel) (by decide +kernel)
          (by decide +kernel) (by decide +kernel)
      have hfront : pr.printk fmtContents [.str file] =
          white (ascii "\nFile " ++ file.chars ++ ascii " Contents :- \n") :=
        pr.printkColor_string _ (chars_literal _ _) (by decide +kernel) (by decide +kernel) file
      have hmiddle : pr.printk fmtString [.str contents] = white ([] ++ contents.chars ++ []) :=
        pr.printkColor_string _ (chars_literal _ _) (by decide +kernel) (by decide +kernel) contents
      have hback : pr.printk fmtEnded [] = white (ascii "\nFile Ended\n") :=
        printk_plain pr (by decide +kernel) (by decide +kernel)
      rw [if_pos hend, hcontents]
      refine ⟨_, rfl, h.of_sameRoot hsame.sameRoot hsame.fatBuffer, hsame.storeOf, ?_⟩
      dsimp only
      rw [fat12OpenLog_eq, hfound, hfront, hmiddle, hback, htext, hchars, ← storeOf_find, catted, hdos]
      simp only [white, putAll_append, List.append_assoc, List.nil_append, List.append_nil]
    · rw [if_neg hend, hfault hend]
      exact ⟨.noNul, rfl⟩
  · rw [if_neg hfits]
    rcases copyName_cases stack.name hne with ⟨hcon, -⟩ | ⟨-, hfail⟩
    · exact absurd hcon hfits
    rcases hfail with ⟨e, herr⟩ | ⟨name, n, rest, e, hcopy, herr⟩
    · rw [herr]
      exact ⟨e, rfl⟩
    · rw [hcopy]
      simp only [bind, Except.bind, herr]
      exact ⟨e, rfl⟩

theorem commandFor_eq_some_iff (word : List u8) (c : Command) :
    commandFor word = some c ↔ c.word <+: word := by
  have hmem : c ∈ [Command.help, .clear, .echo, .create, .cat, .ls] := by cases c <;> simp
  have hstarts (c' : Command) (h : commandFor word = some c') : c'.word <+: word := by
    rw [commandFor] at h
    simpa using List.find?_some h
  constructor
  · exact hstarts c
  · intro h
    have hsome : (commandFor word).isSome := List.find?_isSome.mpr ⟨c, hmem, decide_eq_true h⟩
    obtain ⟨c', hc'⟩ := Option.isSome_iff_exists.mp hsome
    rw [hc', Command.eq_of_starts (hstarts c' hc') h]

theorem commandOf_cmdArray (line : CString) :
    commandOf (cmdArray stack line) = commandFor (firstWord line) :=
  Option.ext fun c ↦
    (commandOf_eq_some_iff (fun _ hi ↦ cmdArray_inside stack line hi) c).trans
      (commandFor_eq_some_iff (firstWord line) c).symm

-- The word is in its array, and what is left is the chain of comparisons.
theorem processCmd_of_short (s : FsState Disk) {line : CString}
    (hlen : (firstWord line).length < 20) :
    processCmd pr s stack line true true =
      let stack : Stack := { stack with cmd := cmdArray stack line }
      match commandFor (firstWord line) with
      | some .help => .ok ⟨s, stack, cmdHelp pr⟩
      | some .clear => .ok ⟨s, stack, cmdClear⟩
      | some .echo => .ok ⟨s, stack, cmdEcho pr (argsOf line)⟩
      | some .create => cmdCreateFile pr s stack (argsOf line) true true
      | some .cat => cmdCat pr s stack (argsOf line) true
      | some .ls => .ok (cmdLs pr s stack)
      | none => (asString 20 stack.cmd).bind fun word ↦
          .ok ⟨s, stack, pr.printkColor VGA_COLOR_RED fmtUnknown [.str word]⟩ := by
  obtain ⟨htake, hdrop⟩ := takeWhile_cmd line
  have hok := copyWhile_ok ((copyFits_cmd line).mpr (Nat.le_of_lt hlen)) (zeroed stack.cmd 20)
  rw [htake, hdrop, Nat.zero_add] at hok
  have harray : Function.update (storeAll (zeroed stack.cmd 20) 0 (firstWord line))
      (firstWord line).length 0 = cmdArray stack line := rfl
  have hargs : skipSpaces ((skipSpaces (chars line)).dropWhile fun c ↦ c ≠ charSpace) =
      argsOf line := rfl
  rw [← commandOf_cmdArray stack line]
  unfold processCmd
  rw [copyCmd, hok]
  simp only [bind, Except.bind, setChar, if_pos hlen, harray, hargs, commandOf]
  split_ifs <;> rfl

/-- Every line does to a well formed volume what it asks of the store. -/
theorem processCmd_agrees (h : WellFormed bpb s) (hspc : bpb.sectorsPerCluster = 1)
    (hfats : bpb.numFats = 2) (line : CString) :
    Agrees bpb (processCmd pr s stack line true true) (storeCommand pr (storeOf s) line) := by
  have hne : ∀ c ∈ argsOf line, c ≠ 0 := fun c ↦ argsOf_ne_zero
  rw [storeCommand]
  by_cases hlen : (firstWord line).length < 20
  · rw [if_pos hlen, processCmd_of_short pr stack s hlen]
    dsimp only
    cases hcommand : commandFor (firstWord line) with
    | none =>
      obtain ⟨hok, -⟩ := asString_of_list (a := cmdArray stack line) (l := firstWord line)
        (fun i hi ↦ cmdArray_inside stack line hi) (Nat.le_of_lt hlen)
      obtain ⟨word, hword, hchars⟩ := hok (Or.inl hlen)
      have hself : (firstWord line).takeWhile (fun c ↦ decide (c ≠ 0)) = firstWord line := by
        rw [List.takeWhile_eq_self_iff]
        exact fun c hc ↦ decide_eq_true (mem_chars (List.takeWhile_subset _ hc))
      have htext : pr.printkColor VGA_COLOR_RED fmtUnknown [.str word] = putAll VGA_COLOR_RED
          (ascii "\n " ++ word.chars ++ ascii " cmd not implemented\n") :=
        pr.printkColor_string _ (chars_literal _ _) (by decide +kernel) (by decide +kernel) word
      simp only [Except.bind, hword]
      exact ⟨_, rfl, h, rfl, by rw [htext, hchars, hself]⟩
    | some c =>
      cases c with
      | help => exact ⟨_, rfl, h, rfl, cmdHelp_eq pr⟩
      | clear => exact ⟨_, rfl, h, rfl, rfl⟩
      | echo => exact ⟨_, rfl, h, rfl, cmdEcho_eq pr hne⟩
      | create => exact cmdCreateFile_agrees pr _ h hspc hfats hne
      | cat => exact cmdCat_agrees pr _ h hne
      | ls =>
        have hsame := fat12ListRoot_spec s
        exact ⟨_, rfl, h.of_sameRoot hsame.sameRoot hsame.fatBuffer, hsame.storeOf, cmdLs_eq pr s _⟩
  · rw [if_neg hlen]
    unfold processCmd
    by_cases hcopy : (firstWord line).length ≤ 20
    · have htake := (takeWhile_cmd line).1
      have hok := copyWhile_ok ((copyFits_cmd line).mpr hcopy) (zeroed stack.cmd 20)
      rw [htake, Nat.zero_add] at hok
      rw [copyCmd, hok]
      simp only [bind, Except.bind, setChar, if_neg hlen]
      exact ⟨.outside, rfl⟩
    · obtain ⟨e, herr⟩ := copyWhile_error (mt (copyFits_cmd line).mp hcopy) (zeroed stack.cmd 20)
        (Nat.zero_le 20)
      rw [copyCmd, herr]
      exact ⟨e, rfl⟩

end Line

/-! ## The commands without their text -/

section Silent

variable {D : Type} [SectorDevice D] (pr : Printer) {s : FsState D} {stack : Stack}

theorem cmdCreateFile_silent {args : List u8} {page page' : Bool} {r : CmdRun D}
    (h : cmdCreateFile pr s stack args page page' = .ok r) :
    Cpu.cmdCreateFile s stack args page page' = .ok (r.fs, r.stack) := by
  unfold cmdCreateFile at h
  unfold Cpu.cmdCreateFile
  cases hname : copyName 12 (zeroed stack.name 12) 0 args with
  | error e => rw [hname] at h; cases h
  | ok name =>
    rw [hname] at h
    simp only [bind, Except.bind] at h ⊢
    cases hbuff : copyContent 256 (zeroed stack.buff 256) 0 name.2.2.tail with
    | error e => rw [hbuff] at h; cases h
    | ok buff =>
      rw [hbuff] at h
      simp only at h ⊢
      cases hfile : asString 12 name.1 with
      | error e => rw [hfile] at h; cases h
      | ok file =>
        rw [hfile] at h
        cases h
        rfl

theorem cmdCat_silent {args : List u8} {page : Bool} {r : CmdRun D}
    (h : cmdCat pr s stack args page = .ok r) :
    Cpu.cmdCat s stack args page = .ok (r.fs, r.stack) := by
  unfold cmdCat at h
  unfold Cpu.cmdCat
  cases hname : copyName 12 (zeroed stack.name 12) 0 args with
  | error e => rw [hname] at h; cases h
  | ok name =>
    rw [hname] at h
    simp only [bind, Except.bind] at h ⊢
    cases hfile : asString 12 name.1 with
    | error e => rw [hfile] at h; cases h
    | ok file =>
      rw [hfile] at h
      simp only at h ⊢
      split at h
      · cases h
      · cases h
        rfl

/-- Where the command comes to its end, it does what it does without its text. -/
theorem processCmd_silent {line : CString} {page page' : Bool} {r : CmdRun D}
    (h : processCmd pr s stack line page page' = .ok r) :
    Cpu.processCmd s stack line page page' = .ok (r.fs, r.stack) := by
  unfold processCmd at h
  unfold Cpu.processCmd
  cases hcmd : copyCmd 20 (zeroed stack.cmd 20) 0 (skipSpaces (chars line)) with
  | error e => rw [hcmd] at h; cases h
  | ok cmd =>
    rw [hcmd] at h
    simp only [bind, Except.bind] at h ⊢
    cases hset : setChar 20 cmd.1 cmd.2.1 0 with
    | error e => rw [hset] at h; cases h
    | ok array =>
      rw [hset] at h
      simp only at h ⊢
      split_ifs at h ⊢
      · cases h; rfl
      · cases h; rfl
      · cases h; rfl
      · exact cmdCreateFile_silent pr h
      · exact cmdCat_silent pr h
      · cases h; rfl
      · cases hword : asString 20 array with
        | error e => rw [hword] at h; cases h
        | ok word =>
          rw [hword] at h
          cases h
          rfl

end Silent

end TenOs.Cpu.Commands
