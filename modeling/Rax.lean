import Rax.Aarch64.BitmaskImm
import Rax.Aarch64.WalkIndices
import Rax.CortexM.Branches
import Rax.CortexM.ExceptionReturns
import Rax.CortexM.MpuReadback
import Rax.CortexM.Priority
import Rax.Debug.Hex
import Rax.Debug.Receive
import Rax.Devices.E1000Transmit
import Rax.Devices.HpetTimers
import Rax.Devices.I8042Streams
import Rax.Devices.IoApicEdges
import Rax.Devices.LapicTimer
import Rax.Devices.NvmeCompletions
import Rax.Devices.PciRouting
import Rax.Devices.PicNesting
import Rax.Devices.PitLatch
import Rax.Devices.PitTicks
import Rax.Devices.RtcCalendar
import Rax.Devices.SerialFilters
import Rax.Devices.StickyRegisters
import Rax.Devices.VirtioBlkRequests
import Rax.Devices.VirtioSelectors
import Rax.Hexagon.CircularBuffer
import Rax.Jit.ExitEdges
import Rax.Machine.Fdt
import Rax.Riscv.Clmul
import Rax.Riscv.Rounding
import Rax.Smir.EagerFlags
import Rax.Smir.Interpret.RotateCarry
import Rax.Smir.Interpret.Scan
import Rax.Smir.Lower.Operand
import Rax.Smir.Optimize.BranchFolding
import Rax.Smir.Optimize.ConstantPropagation
import Rax.Smir.Optimize.CopyPropagation
import Rax.Smir.Optimize.Defines
import Rax.Smir.Optimize.Liveness
import Rax.Smir.Optimize.LoadElimination
import Rax.Smir.Optimize.MergedRuns
import Rax.Smir.Optimize.VectorAlignment
import Rax.X86.Alu
import Rax.X86.Bmi
import Rax.X86.Flags
import Rax.X86.Tlb
import Rax.X86.TypedAccess
