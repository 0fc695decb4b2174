import Apogee.Allocator.FixedSizeBlock
import Apogee.Lib.Queue
import Apogee.Kernel.Abi
import Apogee.Kernel.Vga

/-!
# The kernel object (`kernel/mod.rs`, `kernel/service.rs`)

`Kernel` is the state that the services reach: the process registry, the counter behind
`ProcessId::new`, the threads with the liveness counters, the heap, the queue of decoded keys and
the console. `call` routes one request, with each request's own check of the caller.

* `Env` has what a call takes from its surroundings: the address of a new stack buffer, and the
  stack pointer of a yielding thread.
* The answer of a call is `none` if it never returns. That is `ThreadExit`. A call of `ThreadYield`
  answers when its thread runs again; the state here is the one right after the switch.
-/

namespace Apogee

open Verif

/-- `KEY_QUEUE_CAPACITY`. -/
def keyQueueCapacity : Nat := 100

/-- The state that the kernel's services reach. -/
structure Kernel where
  processes : FMap ProcessId Process
  /-- `NEXT` in `ProcessId::new`. -/
  nextPid : UInt64
  threads : Threads
  heap : FixedSizeBlockAllocator
  /-- `KEY_QUEUE`: `none` until the keyboard task starts. -/
  keyQueue : Option (BQueue UInt8 keyQueueCapacity)
  console : Writer

/-- What a call takes from its surroundings. -/
structure Env where
  /-- The address that `Box::new` gets for a new stack. -/
  stack : UInt64
  /-- The stack pointer that `switch_context` saves. -/
  rsp : UInt64
  deriving Inhabited

namespace Kernel

/-- The kernel at boot, over the given heap and console. -/
def boot (heap : FixedSizeBlockAllocator) (console : Writer) : Kernel where
  processes := ∅
  nextPid := 1
  threads := .boot
  heap := heap
  keyQueue := none
  console := console

/-- The kernel after an update of the liveness counters. -/
def note (k : Kernel) (f : Scheduler → Scheduler) : Kernel :=
  { k with threads := { k.threads with scheduler := f k.threads.scheduler } }

/-! ## Services -/

/-- `ProcessService::register`. -/
def register (k : Kernel) (process : Process) : Kernel × ProcessId :=
  (note { k with processes := k.processes.insert process.pid process } .noteProcessSpawned,
    process.pid)

/-- `ProcessService::create`. -/
def create (k : Kernel) (entry stackTop : VirtAddr) : Kernel × ProcessId :=
  let (pid, nextPid) := ProcessId.new k.nextPid
  register { k with nextPid := nextPid } (.new pid entry stackTop)

/-- `ProcessService::exit`. The exit code is not stored. -/
def exit (k : Kernel) (pid : ProcessId) (_code : Int32) : Kernel × Bool :=
  match k.processes.get? pid with
  | some _ => (note { k with processes := k.processes.erase pid } .noteProcessExited, true)
  | none => (k, false)

/-- `ProcessService::snapshot`. -/
def snapshot (k : Kernel) (pid : ProcessId) : Option ProcessSnapshot :=
  (k.processes.get? pid).map fun process =>
    ⟨process.pid, process.userEntry, process.userStackTop, process.state⟩

/-- `ProcessService::count`. -/
def count (k : Kernel) : Nat := k.processes.size

/-- `SchedulerService::stats`. -/
def schedulerStats (k : Kernel) : SchedulerStats :=
  let s := k.threads.scheduler
  { ticks := s.tickCount
    processesAlive := s.processesAlive
    processesSpawned := s.processesSpawned
    threadsAlive := s.threadsAlive
    threadsSpawned := s.threadsSpawned
    tasksAlive := s.tasksAlive
    tasksSpawned := s.tasksSpawned
    tasksCompleted := s.tasksCompleted }

/-- `MemoryService::stats`. -/
def memoryStats (k : Kernel) : MemoryStats :=
  let s := k.heap.stats
  ⟨s.heapSize, s.freeBytes⟩

/-- `InputService::read_byte`. -/
def readByte (k : Kernel) : Kernel × Option UInt8 :=
  match k.keyQueue.bind (·.pop) with
  | some (byte, queue) => ({ k with keyQueue := some queue }, some byte)
  | none => (k, none)

/-! ## The call boundary -/

/-- `Kernel::call`. -/
def call (p : Profile) (env : Env) (caller : Caller) (request : Request) (k : Kernel) :
    Panics (Kernel × Option Response) :=
  match request with
  | .processCreate entry stackTop =>
    if caller ≠ .kernel then
      pure (k, some (.err .denied))
    else
      let (k, pid) := k.create entry stackTop
      pure (k, some (.process pid))
  | .processExit pid code =>
    if caller.isForeign pid then
      pure (k, some (.err .denied))
    else
      match k.exit pid code with
      | (k, true) => pure (k, some .ok)
      | (k, false) => pure (k, some (.err .badHandle))
  | .processSnapshot pid =>
    if caller.isForeign pid then
      pure (k, some (.err .denied))
    else
      pure (k, some (.snapshot (k.snapshot pid)))
  | .processCount =>
    if caller ≠ .kernel then
      pure (k, some (.err .denied))
    else
      pure (k, some (.count k.count))
  | .threadSpawn _entry process =>
    if caller ≠ .kernel then
      pure (k, some (.err .denied))
    else do
      let (threads, id) ← k.threads.spawn p process env.stack
      pure ({ k with threads := threads }, some (.thread id))
  | .threadYield => do
    let (threads, _) ← k.threads.yieldNow env.rsp
    pure ({ k with threads := threads }, some .ok)
  | .threadExit => do
    let (threads, _) ← k.threads.exitThread p
    pure ({ k with threads := threads }, none)
  | .schedulerStats => pure (k, some (.stats k.schedulerStats))
  | .memoryStats => pure (k, some (.memory k.memoryStats))
  | .timerTicks => pure (k, some (.ticks k.threads.scheduler.tickCount))
  | .inputReadByte =>
    let (k, byte) := k.readByte
    pure (k, some (.byte byte))
  | .consoleWrite bytes => do
    let console ← k.console.writeBytes bytes
    pure ({ k with console := console }, some (.written bytes.length))

end Kernel

end Apogee
