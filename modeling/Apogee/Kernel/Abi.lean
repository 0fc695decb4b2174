import Apogee.Thread.Threads

/-!
# The kernel's call ABI (`kernel/abi.rs`, `process.rs`)

Process descriptors, callers, requests and responses. A request carries its values; the function
pointer of `ThreadSpawn` is its address, and the console buffer is its bytes.
-/

namespace Apogee

/-- `VirtAddr`: a canonical 64-bit address. -/
structure VirtAddr where
  asU64 : UInt64
  canonical : asU64.toNat < 2 ^ 47 ∨ 2 ^ 64 - 2 ^ 47 ≤ asU64.toNat
  deriving DecidableEq

/-- `ProcessState`. -/
inductive ProcessState where
  | ready
  | running
  | exited (code : Int32)
  deriving DecidableEq

/-- `Process`. -/
structure Process where
  pid : ProcessId
  /-- `None` means the kernel address space. -/
  pageTableRoot : Option UInt64
  userEntry : VirtAddr
  userStackTop : VirtAddr
  state : ProcessState
  deriving DecidableEq

/-- `Process::new`, with the id that `ProcessId::new` gave. -/
def Process.new (pid : ProcessId) (userEntry userStackTop : VirtAddr) : Process where
  pid := pid
  pageTableRoot := none
  userEntry := userEntry
  userStackTop := userStackTop
  state := .ready

/-- `ProcessSnapshot`. -/
structure ProcessSnapshot where
  pid : ProcessId
  userEntry : VirtAddr
  userStackTop : VirtAddr
  state : ProcessState
  deriving DecidableEq

/-- `Caller`. -/
inductive Caller where
  | kernel
  | user (pid : ProcessId)
  | irq
  deriving DecidableEq

/-- The check of `ProcessExit` and `ProcessSnapshot`: a user process other than `pid`. -/
def Caller.isForeign (caller : Caller) (pid : ProcessId) : Bool :=
  match caller with
  | .user callerPid => callerPid ≠ pid
  | .kernel | .irq => false

/-- `SysError`. -/
inductive SysError where
  | badHandle
  | denied
  | badPointer
  | wouldBlock
  | noResources
  | unsupported
  deriving DecidableEq, Repr

/-- `SysError::errno`. -/
def SysError.errno : SysError → Int64
  | badHandle => -1
  | denied => -2
  | badPointer => -3
  | wouldBlock => -4
  | noResources => -5
  | unsupported => -6

/-- `SchedulerStats`. -/
structure SchedulerStats where
  ticks : UInt64
  processesAlive : UInt64
  processesSpawned : UInt64
  threadsAlive : UInt64
  threadsSpawned : UInt64
  tasksAlive : UInt64
  tasksSpawned : UInt64
  tasksCompleted : UInt64
  deriving DecidableEq, Repr

/-- `MemoryStats`. -/
structure MemoryStats where
  heapSize : Nat
  heapFree : Nat
  deriving DecidableEq, Repr

/-- `Request`. -/
inductive Request where
  | processCreate (entry stackTop : VirtAddr)
  | processExit (pid : ProcessId) (code : Int32)
  | processSnapshot (pid : ProcessId)
  | processCount
  | threadSpawn (entry : UInt64) (process : ProcessId)
  | threadYield
  | threadExit
  | schedulerStats
  | memoryStats
  | timerTicks
  | inputReadByte
  | consoleWrite (bytes : List UInt8)

/-- `Response`. -/
inductive Response where
  | ok
  | written (n : Nat)
  | byte (b : Option UInt8)
  | process (pid : ProcessId)
  | snapshot (s : Option ProcessSnapshot)
  | thread (id : ThreadId)
  | count (n : Nat)
  | stats (s : SchedulerStats)
  | memory (s : MemoryStats)
  | ticks (n : UInt64)
  | err (e : SysError)
  deriving DecidableEq

end Apogee
