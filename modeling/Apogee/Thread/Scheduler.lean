import Apogee.Lib.Word

/-!
# Identifiers and liveness counters

`ThreadId` and `ProcessId` are 64-bit numbers from two global counters. `SCHEDULER` holds the
liveness counters of threads, tasks and processes. Every counter is an atomic 64-bit word whose
`fetch_add` and `fetch_sub` wrap, so the fields are `UInt64`.
-/

namespace Apogee

open Verif

/-- Identifies a kernel thread. -/
structure ThreadId where
  asU64 : UInt64
  deriving DecidableEq, Repr

/-- `BOOTSTRAP_ID`: the control flow that booted the kernel. -/
def bootstrapId : ThreadId := ⟨0⟩

/-- `ThreadId::new`: the id, and the counter `NEXT` after it. -/
def ThreadId.new (next : UInt64) : ThreadId × UInt64 := (⟨next⟩, next + 1)

/-- Identifies a process. -/
structure ProcessId where
  asU64 : UInt64
  deriving DecidableEq, Repr

/-- `ProcessId::KERNEL`: the implicit process of every kernel thread. -/
def ProcessId.kernel : ProcessId := ⟨0⟩

/-- `ProcessId::new`: the id, and the counter `NEXT` after it. -/
def ProcessId.new (next : UInt64) : ProcessId × UInt64 := (⟨next⟩, next + 1)

/-- The counters of `SCHEDULER`. -/
structure Scheduler where
  tickCount : UInt64 := 0
  threadsAlive : UInt64 := 0
  threadsSpawned : UInt64 := 0
  tasksAlive : UInt64 := 0
  tasksSpawned : UInt64 := 0
  tasksCompleted : UInt64 := 0
  processesAlive : UInt64 := 0
  processesSpawned : UInt64 := 0
  deriving DecidableEq, Repr

namespace Scheduler

/-- `Scheduler::new`. -/
def new : Scheduler := {}

/-- `tick`. The counter wraps; the `+ 1` on the value read back does not in a `dev` build. -/
def tick (p : Profile) (s : Scheduler) : Panics Scheduler := do
  let _ticks ← Word.add p s.tickCount.toNat 1
  pure { s with tickCount := s.tickCount + 1 }

def noteThreadSpawned (s : Scheduler) : Scheduler :=
  { s with threadsAlive := s.threadsAlive + 1, threadsSpawned := s.threadsSpawned + 1 }

def noteThreadExited (s : Scheduler) : Scheduler :=
  { s with threadsAlive := s.threadsAlive - 1 }

def noteTaskSpawned (s : Scheduler) : Scheduler :=
  { s with tasksAlive := s.tasksAlive + 1, tasksSpawned := s.tasksSpawned + 1 }

def noteTaskCompleted (s : Scheduler) : Scheduler :=
  { s with tasksAlive := s.tasksAlive - 1, tasksCompleted := s.tasksCompleted + 1 }

def noteProcessSpawned (s : Scheduler) : Scheduler :=
  { s with processesAlive := s.processesAlive + 1, processesSpawned := s.processesSpawned + 1 }

def noteProcessExited (s : Scheduler) : Scheduler :=
  { s with processesAlive := s.processesAlive - 1 }

end Scheduler

end Apogee
