import ApoptOS.Memory.Virtual.PageRights
import ApoptOS.Memory.Physical.PmmUsedCount
import ApoptOS.Memory.Dynamic.SlabRoom
import ApoptOS.Memory.Dynamic.SlabHome
import ApoptOS.Memory.Dynamic.SlabCursors
import ApoptOS.Libk.ReallocContents
import ApoptOS.Libk.MallocRefused
import ApoptOS.Libk.MallocWindow
import ApoptOS.Libk.SpinlockInterrupts
import ApoptOS.Libk.Logging
import ApoptOS.Tables.IsrFrame
import ApoptOS.Hardware.Acpi.MadtEntries
import ApoptOS.Hardware.Apic.ApicInit
import ApoptOS.Hardware.Hpet.Hpet
import ApoptOS.Proc.SmpStartup
import ApoptOS.Libk.PrintfCalls
import ApoptOS.Libk.SerialCalls
import ApoptOS.Libk.SerialDrain
import ApoptOS.Libk.MallocPaging
import ApoptOS.Libk.MallocCaching
import ApoptOS.Hardware.Pic.PicRuns
import ApoptOS.Tables.IsrRuns
import ApoptOS.Libk.SerialRefines
import ApoptOS.Libk.MallocCalls
