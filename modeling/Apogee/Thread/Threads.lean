import Apogee.Lib.Map
import Apogee.Thread.Scheduler

/-!
# Kernel threads (`thread.rs`)

`Threads` is the state behind the module-level functions: the `THREADS` scheduler, the counter
behind `ThreadId::new` and the liveness counters.

* `spawn`, `yieldNow`, `exitThread`, `drainReaper` and `currentProcess` follow the functions of
  those names. Their `expect`s and debug assertions are explicit panics.
* `switch_context` stores the outgoing stack pointer in one `Context` and loads the incoming one
  from another. `yieldNow` gets the outgoing `rsp`; `yieldNow` and `exitThread` return the incoming
  one. What the switch does to the stacks is not part of this state.
* The address of a new thread's stack buffer is the allocator's choice, so it is a parameter.
-/

namespace Apogee

open Verif

/-- `STACK_SIZE`. -/
def stackSize : UInt64 := 16 * 1024

/-- `Context`: the saved stack pointer. -/
structure Context where
  rsp : UInt64 := 0
  deriving DecidableEq, Repr

/-- A kernel thread. `stack` is the address of the stack buffer it owns. -/
structure KernelThread where
  id : ThreadId
  process : ProcessId
  context : Context
  stack : UInt64
  deriving DecidableEq, Repr

/-- The top of the stack buffer at `stack`, rounded down to 16. -/
def stackTop (stack : UInt64) : UInt64 := (stack + stackSize) &&& ~~~0xF

/-- `KernelThread::new`: the entry address and six zero words lie between `rsp` and the top. -/
def KernelThread.new (id : ThreadId) (process : ProcessId) (stack : UInt64) : KernelThread where
  id := id
  process := process
  context := ⟨stackTop stack - 8 - 6 * 8⟩
  stack := stack

/-- `ThreadScheduler`. -/
structure ThreadScheduler where
  threads : FMap ThreadId KernelThread
  ready : List ThreadId
  current : ThreadId
  bootstrapContext : Context
  reaper : Option KernelThread

namespace ThreadScheduler

/-- `ThreadScheduler::new`. -/
def new : ThreadScheduler where
  threads := ∅
  ready := []
  current := bootstrapId
  bootstrapContext := {}
  reaper := none

/-- The `Context` of a thread: `bootstrap_context`, or the one in its map entry. -/
def contextAt (s : ThreadScheduler) (id : ThreadId) : Option Context :=
  if id = bootstrapId then some s.bootstrapContext else (s.threads.get? id).map (·.context)

/-- The scheduler after a store through the pointer to the `Context` of `id`. -/
def setContext (s : ThreadScheduler) (id : ThreadId) (c : Context) : ThreadScheduler :=
  if id = bootstrapId then { s with bootstrapContext := c }
  else { s with threads := s.threads.adjust id fun t => { t with context := c } }

/-- The scheduler after `current` and `ready` are written. -/
def setCurrent (s : ThreadScheduler) (current : ThreadId) (ready : List ThreadId) :
    ThreadScheduler :=
  { s with current := current, ready := ready }

def threadCount (s : ThreadScheduler) : Nat := s.threads.size

def readyCount (s : ThreadScheduler) : Nat := s.ready.length

end ThreadScheduler

/-- The statics that `thread.rs` works on. -/
structure Threads where
  /-- `THREADS`. -/
  sched : ThreadScheduler
  /-- `NEXT` in `ThreadId::new`. -/
  nextId : UInt64
  /-- `SCHEDULER`. -/
  scheduler : Scheduler

namespace Threads

/-- The statics at boot. -/
def boot : Threads where
  sched := .new
  nextId := 1
  scheduler := .new

/-- `spawn`. -/
def spawn (p : Profile) (process : ProcessId) (stack : UInt64) (t : Threads) :
    Panics (Threads × ThreadId) := do
  let (id, nextId) := ThreadId.new t.nextId
  let thread := KernelThread.new id process stack
  p.debugAssert (.ok !(t.sched.threads.get? id).isSome)
    ("spawned thread id " ++ toString id.asU64 ++ " is already tracked")
  let sched := { t.sched with
    threads := t.sched.threads.insert id thread
    ready := t.sched.ready ++ [id] }
  pure (⟨sched, nextId, t.scheduler.noteThreadSpawned⟩, id)

/-- `spawn_kernel`. -/
def spawnKernel (p : Profile) (stack : UInt64) (t : Threads) : Panics (Threads × ThreadId) :=
  t.spawn p .kernel stack

/-- `drain_reaper`. -/
def drainReaper (t : Threads) : Threads :=
  match t.sched.reaper with
  | some _ =>
    { t with sched := { t.sched with reaper := none }, scheduler := t.scheduler.noteThreadExited }
  | none => t

/-- `yield_now`, called with the stack pointer that `switch_context` would save. The result has the
stack pointer that it loads, or `none` when nothing else is ready. -/
def yieldNow (rsp : UInt64) (t : Threads) : Panics (Threads × Option UInt64) :=
  let t := t.drainReaper
  match t.sched.ready with
  | [] => pure (t, none)
  | nextId :: ready => do
    let prevId := t.sched.current
    let sched := t.sched.setCurrent nextId (ready ++ [prevId])
    let _prevCtx ← expect (sched.contextAt prevId) "yield_now: current thread missing from map"
    let nextCtx ← expect (sched.contextAt nextId) "yield_now: next ready thread missing from map"
    -- `switch_context` stores before it loads, so one pointer for both gives the stored value.
    pure ({ t with sched := sched.setContext prevId ⟨rsp⟩ },
      some (if nextId = prevId then rsp else nextCtx.rsp))

/-- The locked section of `exit_thread` up to the store into the reaper slot. -/
def parkCurrent (p : Profile) (s : ThreadScheduler) : Panics ThreadScheduler :=
  if s.current = bootstrapId then pure s
  else
    match s.threads.get? s.current with
    | none => pure s
    | some boxed => do
      p.debugAssert (.ok s.reaper.isNone) "reaper slot should have been drained"
      pure { s with threads := s.threads.erase s.current, reaper := some boxed }

/-- `exit_thread`. The result has the stack pointer that `switch_context` loads. -/
def exitThread (p : Profile) (t : Threads) : Panics (Threads × UInt64) := do
  let t := t.drainReaper
  let s ← parkCurrent p t.sched
  match s.ready with
  | [] => throw "exit_thread: no other thread to switch into"
  | nextId :: ready =>
    let s := s.setCurrent nextId ready
    let nextCtx ← expect (s.contextAt nextId) "exit_thread: next ready thread missing from map"
    pure ({ t with sched := s }, nextCtx.rsp)

/-- `current_process`. -/
def currentProcess (t : Threads) : ProcessId :=
  if t.sched.current = bootstrapId then .kernel
  else ((t.sched.threads.get? t.sched.current).map (·.process)).getD .kernel

end Threads

end Apogee
