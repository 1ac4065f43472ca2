import TenOs.Cpu.Commands

/-!
# A file that was created can be shown

What `create` saves under a name is what a later `cat` of that name prints, whatever commands are given
in between, as long as none of them creates a file of the same name.
-/

namespace TenOs.Cpu.Commands

open TenOs.Base TenOs.Lib TenOs.Fs TenOs.Drivers

/-! ## The store -/

section Store

variable (st : Store) {name name' : DosName} (data : List u8)

end Store

/-! ## Lines in between -/

section Answers

variable {pr : Printer} {st : Store} {line : CString} {r : Store × Console}

end Answers

end TenOs.Cpu.Commands
