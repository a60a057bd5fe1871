import RCoreKernel.Lib.Components
import RCoreKernel.Lib.Vec
import RCoreKernel.Mm.Demand
import RCoreKernel.Mm.Difference
import RCoreKernel.Mm.Codec
import RCoreKernel.Mm.Entry
import RCoreKernel.Mm.Peek
import RCoreKernel.Mm.ReadOnly
import RCoreKernel.Mm.Segment
import RCoreKernel.Mm.Spaces
import RCoreKernel.Mm.Contents
import RCoreKernel.Mm.Headers
import RCoreKernel.Sync.Spin
import RCoreKernel.Syscall.History
import RCoreKernel.Syscall.Protection
import RCoreKernel.Syscall.Isolation
import RCoreKernel.Syscall.Mmap
import RCoreKernel.Syscall.Touch
import RCoreKernel.Trap.Handlers
import RCoreKernel.Task.Apps
import RCoreKernel.Task.LockOrder
import RCoreKernel.Task.Order
import RCoreKernel.Task.Programs
import RCoreKernel.Task.Stats
import RCoreKernel.Task.SyscallCounts
import RCoreKernel.Task.Satp
import RCoreKernel.Syscall.Io
import RCoreKernel.Trap.Syscalls
import RCoreKernel.Trap.Use
import RCoreKernel.Trap.Scratch
import RCoreKernel.Trap.Context
import RCoreKernel.Trap.Harts
import RCoreKernel.Trap.Simulation
