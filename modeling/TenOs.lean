import TenOs.Base.Run
import TenOs.Base.Chain
import TenOs.Base.Bitmap
import TenOs.Fs.File
import TenOs.Fs.Create
import TenOs.Fs.Transfer
import TenOs.Fs.Coherence
import TenOs.Fs.CachePage
import TenOs.Fs.Session
import TenOs.Fs.Sequential
import TenOs.Base.Ledger
import TenOs.Mm.Frames
import TenOs.Base.TwoLevel
import TenOs.Kernel.MemoryMap
import TenOs.Mm.Paging
import TenOs.Mm.PageAccess
import TenOs.Mm.BootTables
import TenOs.Mm.AddressSpace
import TenOs.Kernel.OwnMemory
import TenOs.Mm.PageMapping
import TenOs.Mm.SingleFrames
import TenOs.Mm.MapSequence
import TenOs.Base.Ring
import TenOs.Drivers.Keyboard
import TenOs.Drivers.LineQueue
import TenOs.Drivers.LineEditor
import TenOs.Drivers.Screen
import TenOs.Drivers.Terminal
import TenOs.Fs.RootMap
import TenOs.Fs.UniqueNames
import TenOs.Fs.DeletedEntries
import TenOs.Cpu.Syscall
import TenOs.Fs.Faults
import TenOs.Fs.FaultyRead
import TenOs.Fs.FaultyCreate
import TenOs.Base.While
import TenOs.Fs.Handle
import TenOs.Mm.FullRequests
import TenOs.Drivers.VideoBounds
import TenOs.Fs.NameCodec
import TenOs.Cpu.Dispatch
import TenOs.Fs.Overwrite
import TenOs.Fs.DataSectors
import TenOs.X86.Machine
import TenOs.X86.Stack
import TenOs.Cpu.Interrupt
import TenOs.Mm.InitCounter
import TenOs.Mm.EntryCodec
import TenOs.Mm.TableFailure
import TenOs.Fs.ClusterBounds
import TenOs.Fs.BootGeometry
import TenOs.Base.Numeral
import TenOs.Lib.Ascii
import TenOs.Lib.Print
import TenOs.Lib.Format
import TenOs.Drivers.AtaPolling
import TenOs.Boot.E820
import TenOs.Cpu.Commands
import TenOs.Cpu.SavedFiles
import TenOs.User.Shell
import TenOs.Base.Returns
import TenOs.Cpu.Irq
import TenOs.Cpu.Tables
import TenOs.Drivers.AtaPio
import TenOs.Drivers.BlockingRead
import TenOs.Drivers.Echo
import TenOs.Kernel.UserMode
