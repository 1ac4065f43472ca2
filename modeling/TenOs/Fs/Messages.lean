import TenOs.Fs.Store
import TenOs.Lib.Printk

/-!
# `fs/fs.c`: messages

What the calls of `fs.c` put on the console.
-/

namespace TenOs.Fs

open TenOs.Base TenOs.Lib TenOs.Drivers

variable {D : Type} [SectorDevice D] (pr : Printer)

def moduleFs : CString := literal "FS" (by decide +kernel)
def fmtFound : CString := literal "FILE FOUND\n" (by decide +kernel)
def fmtNoFile : CString := literal "No File Found \n" (by decide +kernel)
def fmtRoot : CString := literal "Root directory contents:\n" (by decide +kernel)
def fmtHeads : CString := literal "Name                   Size\n" (by decide +kernel)
def fmtString : CString := literal "%s" (by decide +kernel)
def fmtGap : CString := literal "                    " (by decide +kernel)
def fmtInt : CString := literal "%d" (by decide +kernel)
def fmtNewline : CString := literal "\n" (by decide +kernel)
def fmtTotal : CString := literal "\nTotal files: %d\n" (by decide +kernel)

/-- `fat12_open` logs that it found the file. -/
def fat12OpenLog (s : FsState D) (filename : CString) : Console :=
  match (scanRoot (openBody (toDosFilename filename fun _ ↦ 0)) s).2.join with
  | some _ => pr.printkCore .debug moduleFs fmtFound []
  | none => []

/-- `fat12_write` logs a null handle. -/
def fat12WriteLog : Option FAT12File → Console
  | none => pr.printkCore .err moduleFs fmtNoFile []
  | some _ => []

/-- One row of the listing. -/
def listRow (row : List u8 × u32) : Console :=
  pr.printk fmtString [.str (cstr row.1)] ++ pr.printk fmtGap [] ++
    pr.printk fmtInt [.int row.2] ++ pr.printk fmtNewline []

/-- What `fat12_list_root` prints; `count` is the number of rows. -/
def fat12ListRootText (s : FsState D) : Console :=
  let rows := (fat12ListRoot s).2
  pr.printk fmtRoot [] ++ pr.printk fmtHeads [] ++ rows.flatMap (listRow pr) ++
    pr.printk fmtTotal [.int (BitVec.ofNat 32 rows.length)]

-- A file is found whether or not there is a page for its handle.
theorem fat12OpenLog_eq (pr : Printer) (s : FsState Disk) (filename : CString) :
    fat12OpenLog pr s filename = if (lookup s (dosName filename)).isSome then
      pr.printkCore .debug moduleFs fmtFound [] else [] := by
  have hopen := (fat12Open_spec s filename true).2
  rw [if_pos rfl] at hopen
  unfold fat12Open at hopen
  unfold fat12OpenLog
  cases hjoin : (scanRoot (openBody (toDosFilename filename fun _ ↦ 0)) s).2.join with
  | none =>
    simp only [hjoin] at hopen
    have hnone := Option.map_eq_none_iff.mp hopen.symm
    rw [hnone]
    rfl
  | some e =>
    simp only [hjoin, if_true] at hopen
    obtain ⟨n, hn, -⟩ := Option.map_eq_some_iff.mp hopen.symm
    rw [hn]
    rfl

end TenOs.Fs
