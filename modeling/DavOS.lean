import DavOS.Lib.Lfsr
import DavOS.Serial.Frame
import DavOS.Serial.Codec
import DavOS.Serial.Checksum
import DavOS.Bridge.Protocol
import DavOS.Serial.Corruption
import DavOS.Serial.Transport
import DavOS.Bridge.Serve
import DavOS.Bridge.Session
import DavOS.Agent.Runtime
import DavOS.Agent.Gate
import DavOS.Agent.Containment
import DavOS.Agent.Confirmation
import DavOS.Agent.Isolation
import DavOS.Lib.Words
import DavOS.Shell.Line
import DavOS.Shell.Output
import DavOS.Shell.Execute
import DavOS.Shell.Confirmation
import DavOS.Lib.PackedBits
import DavOS.Mem.Allocator
import DavOS.Mem.FreeSet
import DavOS.Mem.Init
import DavOS.Lib.FreePool
import DavOS.Mem.Refinement
import DavOS.Mem.HandedOut
import DavOS.Boot.PageTables
import DavOS.Boot.AddressSpace
import DavOS.Kernel.UserWindow
import DavOS.Mem.PageAccess
import DavOS.Kernel.Scheduler
import DavOS.Kernel.SchedulerRuns
import DavOS.Fs.Table
import DavOS.Fs.Directory
import DavOS.Fs.Ownership
import DavOS.Lib.ByteBlock
import DavOS.Fat16.Volume
import DavOS.Fat16.Mount
import DavOS.Lib.RowSearch
import DavOS.Fat16.Image
import DavOS.Fat16.Layout
import DavOS.Fat16.Formatted
import DavOS.Fat16.Frame
import DavOS.Fat16.Damage
import DavOS.Fat16.Bounds
import DavOS.Kernel.RoundRobin
import DavOS.Kernel.Dispatch
import DavOS.Fat16.Refusal
import DavOS.Fat16.Listing
import DavOS.Fat16.Unreliable
import DavOS.Fat16.Phantom
import DavOS.Lib.JsonText
import DavOS.Bridge.Plan
import DavOS.Bridge.Response
import DavOS.Bridge.GuestAccepts
import DavOS.Bridge.Transport
import DavOS.Bridge.Service
import DavOS.Lib.Amd64
import DavOS.Lib.Runs
import DavOS.Kernel.ContextSwitch
import DavOS.Kernel.SwitchRuns
import DavOS.Lib.Ring
import DavOS.Keyboard.Buffer
import DavOS.Agent.Execution
import DavOS.Shell.History
import DavOS.Lib.Grid
import DavOS.Lib.Wrap
import DavOS.Terminal.Screen
import DavOS.Terminal.Layout
import DavOS.Terminal.RowMajor
import DavOS.Shell.Editing
import DavOS.Lib.LittleEndian
import DavOS.Mem.Multiboot
import DavOS.Mem.BootInformation
import DavOS.Agent.Deterministic
import DavOS.Bridge.Delivery
import DavOS.Bridge.FakeProvider
import DavOS.Lib.Numeral
import DavOS.Terminal.Decimal
import DavOS.Ata.Drive
import DavOS.Shell.Numbers
import DavOS.Lib.EditDistance
import DavOS.Shell.Suggestions
import DavOS.Shell.Commands
import DavOS.Shell.Tokens
import DavOS.Shell.Disk
import DavOS.Fat16.SectorNumbers
import DavOS.Lib.Interrupts
import DavOS.Lib.StackFaults
import DavOS.Lib.SystemCode
import DavOS.Kernel.Descriptors
import DavOS.Kernel.Vectors
import DavOS.Kernel.TrapEntry
import DavOS.Kernel.SyscallEntry
import DavOS.Kernel.SystemCalls
import DavOS.Kernel.UserTask
import DavOS.Kernel.UserRuns
import DavOS.Kernel.Containment
import DavOS.Kernel.SyscallFlags
import DavOS.Lib.Pic8259
import DavOS.Kernel.DeviceInterrupts
