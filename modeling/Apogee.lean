import Apogee.Lib.Sys
import Apogee.Lib.Word
import Apogee.Lib.Span
import Apogee.Lib.Map
import Apogee.Lib.Queue
import Apogee.Lib.Stack
import Apogee.Lib.Mailbox
import Apogee.Lib.Window
import Apogee.Lib.Links
import Apogee.Lib.Utf8
import Apogee.Lib.Nodes
import Apogee.Lib.Progress
import Apogee.Lib.Radix
import Apogee.Lib.LockFlow
import Apogee.Lib.Idt
import Apogee.Allocator.Layout
import Apogee.Allocator.Runs
import Apogee.Allocator.LinkedList
import Apogee.Allocator.LinkedListSpec
import Apogee.Allocator.Coalesce
import Apogee.Allocator.FirstFit
import Apogee.Allocator.Recovery
import Apogee.Allocator.Canonical
import Apogee.Allocator.FixedSizeBlock
import Apogee.Allocator.FixedSizeBlockSpec
import Apogee.Allocator.Accounting
import Apogee.Allocator.Bump
import Apogee.Allocator.Overflow
import Apogee.Allocator.InMemory
import Apogee.Allocator.MemoryRuns
import Apogee.Allocator.BlocksInMemory
import Apogee.Allocator.HighWater
import Apogee.Thread.Scheduler
import Apogee.Thread.Threads
import Apogee.Thread.Invariant
import Apogee.Thread.Operations
import Apogee.Thread.Consistency
import Apogee.Thread.RoundRobin
import Apogee.Thread.Quiescence
import Apogee.Thread.SwitchContext
import Apogee.Thread.Start
import Apogee.Thread.HeapStacks
import Apogee.Kernel.Abi
import Apogee.Kernel.Vga
import Apogee.Kernel.Screen
import Apogee.Kernel.Kernel
import Apogee.Kernel.Authorization
import Apogee.Kernel.Noninterference
import Apogee.Kernel.Ledger
import Apogee.Kernel.Logger
import Apogee.Kernel.SerialLines
import Apogee.User.Paging
import Apogee.User.Frames
import Apogee.User.Userland
import Apogee.User.Syscall
import Apogee.User.SetupSpec
import Apogee.User.Window
import Apogee.User.Sequential
import Apogee.User.EndProcess
import Apogee.User.Boot
import Apogee.User.FourLevel
import Apogee.User.Isolation
import Apogee.User.DemoRun
import Apogee.Task.Executor
import Apogee.Task.Wakeup
import Apogee.Task.Capacity
import Apogee.Task.Drain
import Apogee.Task.Executors
import Apogee.Task.Keyboard
import Apogee.Task.KeyboardSpec
import Apogee.Task.Delivery
import Apogee.Task.WakerRefs
import Apogee.Task.Settling
import Apogee.Task.Echo
import Apogee.Machine.Trap
import Apogee.Machine.Machine
import Apogee.Machine.SharedStack
import Apogee.Machine.Switch
import Apogee.Machine.InterruptFlag
import Apogee.Machine.HostThreads
import Apogee.Machine.Transport
import Apogee.Machine.Locks
import Apogee.Machine.Interrupts
