import RustSbi.Target
import RustSbi.Lib.Bits
import RustSbi.Lib.Checked
import RustSbi.Lib.HalfOpen
import RustSbi.Lib.Transition
import RustSbi.Memory.Region
import RustSbi.Memory.Registry
import RustSbi.Memory.Mmio
import RustSbi.Firmware.Pmp
import RustSbi.Sbi.Pmu
import RustSbi.Sbi.PmuSafety
import RustSbi.Hart.Lifecycle
import RustSbi.Hart.Handoff
import RustSbi.Hart.ExactlyOnce
import RustSbi.Hart.Exit
import RustSbi.Sbi.HartMask
import RustSbi.Lib.Ledger
import RustSbi.Sbi.Rfence
import RustSbi.Sbi.RfenceAccounting
import RustSbi.Trap.Emulate
import RustSbi.Trap.Precise
import RustSbi.DeviceTree.Format
import RustSbi.DeviceTree.Plan
import RustSbi.DeviceTree.Patch
import RustSbi.Sbi.HartSet
import RustSbi.Hart.SystemSuspend
import RustSbi.Hart.InstructionFence
import RustSbi.Sbi.RemoteFenceI
import RustSbi.Sbi.RfencePending
import RustSbi.Sbi.PmuCounting
import RustSbi.Smm.Enclave
import RustSbi.Ecall.Abi
import RustSbi.Ecall.Client
import RustSbi.Ecall.Derive
import RustSbi.Ecall.ProbeDispatch
import RustSbi.DeviceTree.Compose
import RustSbi.DeviceTree.Discovery
import RustSbi.DeviceTree.Grammar
import RustSbi.DeviceTree.Outcome
import RustSbi.DeviceTree.MemoryRanges
import RustSbi.Memory.Order
import RustSbi.Sbi.PmuAllocation
import RustSbi.Sbi.RfenceRange
import RustSbi.Smm.Exclusive
import RustSbi.Sbi.HartTraversal
import RustSbi.Sbi.PmuFailure
import RustSbi.Hart.SuspendFailure
import RustSbi.Trap.FastTime
import RustSbi.Memory.Acceptance
import RustSbi.Smm.Napot
import RustSbi.Sbi.Console
import RustSbi.Smm.Memory
import RustSbi.Smm.Residue
import RustSbi.Platform.Imsic
import RustSbi.Sbi.PmuEventMap
import RustSbi.Driver.SplitTimer
import RustSbi.Sbi.Fwft
import RustSbi.Sbi.PmuNumbering
import RustSbi.Driver.TimerDevice
import RustSbi.Trap.SupervisorTimer
import RustSbi.Sbi.SupervisorIpi
import RustSbi.Driver.MachineIpi
import RustSbi.Firmware.Entry
import RustSbi.Firmware.Publication
import RustSbi.Driver.Console
import RustSbi.Driver.ConsoleSetup
