import Mathlib.Data.Finset.Basic
import Apogee.Lib.Map
import Apogee.Lib.Queue
import Apogee.Lib.Sys
import Apogee.Thread.Scheduler

/-!
# The cooperative executor (`task/mod.rs`, `task/executor.rs`)

`CoopExecutor` owns tasks and polls those whose id is in its ready queue. A waker puts an id there.

* `CoopExecutor.spawn`, `TaskWaker.wakeTask`, `CoopExecutor.cacheWaker`: the parts of the code that
  change the executor.
* `ExecutorState.Step`: the code of `run_ready_tasks` and `sleep_if_idle`, one step for each access
  to shared state, with `ExecutorPos` as the program counter. A poll may answer anything.
* A `wake` step is a call of any waker, from an interrupt or from inside a poll. It can come at
  every point, except while interrupts are off in `sleep_if_idle`, and while the CPU is halted:
  there the interrupt ends the `hlt` first (`interrupt`).

A step that would overflow the queue is a panic in the code and is not a step here.
-/

namespace Apogee

open Verif

/-- Identifies a task. -/
structure TaskId where
  asU64 : UInt64
  deriving DecidableEq, Repr

/-- `TaskId::new`: the id, and the counter `NEXT_ID` after it. -/
def TaskId.new (next : UInt64) : TaskId × UInt64 := (⟨next⟩, next + 1)

/-- A task. `F` is the type of its future. -/
structure Task (F : Type) where
  id : TaskId
  future : F

/-- `Task::new`: the task, and the counter `NEXT_ID` after it. -/
def Task.new {F : Type} (future : F) (next : UInt64) : Task F × UInt64 :=
  let (id, next) := TaskId.new next
  (⟨id, future⟩, next)

/-- `TASK_QUEUE_CAPACITY`. -/
def taskQueueCapacity : Nat := 100

/-- `TaskWaker`. Its queue is the one of the executor that made it. -/
structure TaskWaker where
  taskId : TaskId
  deriving DecidableEq

/-- `CoopExecutor`. -/
structure CoopExecutor (F : Type) where
  tasks : FMap TaskId (Task F)
  taskQueue : BQueue TaskId taskQueueCapacity
  wakerCache : FMap TaskId TaskWaker
  startedTasks : Finset TaskId

namespace CoopExecutor

variable {F : Type}

/-- `CoopExecutor::new`. -/
def new : CoopExecutor F := ⟨∅, .empty, ∅, ∅⟩

/-- `spawn`. -/
def spawn (p : Profile) (task : Task F) (scheduler : Scheduler) (x : CoopExecutor F) :
    Panics (CoopExecutor F × Scheduler) := do
  let taskId := task.id
  p.debugAssert (.ok !(x.tasks.get? taskId).isSome) "task with same ID already in tasks"
  if (x.tasks.get? taskId).isSome then
    throw "task with same ID already in tasks"
  let taskQueue ← expect (x.taskQueue.push taskId) "queue full"
  pure ({ x with tasks := x.tasks.insert taskId task, taskQueue := taskQueue },
    scheduler.noteTaskSpawned)

/-- `task_count`. -/
def taskCount (x : CoopExecutor F) : Nat := x.tasks.size

/-- The entry of a task in the waker cache, made if there is none. -/
def cacheWaker (taskId : TaskId) (x : CoopExecutor F) : CoopExecutor F :=
  match x.wakerCache.get? taskId with
  | some _ => x
  | none => { x with wakerCache := x.wakerCache.insert taskId ⟨taskId⟩ }

end CoopExecutor

/-- `wake_task`, for the queue of `x`. -/
def TaskWaker.wakeTask {F : Type} (w : TaskWaker) (x : CoopExecutor F) :
    Panics (CoopExecutor F) := do
  let taskQueue ← expect (x.taskQueue.push w.taskId) "task_queue full"
  pure { x with taskQueue := taskQueue }

/-! ## The run loop -/

/-- Where the code of the executor is. -/
inductive ExecutorPos where
  /-- In neither `run_ready_tasks` nor `sleep_if_idle`. -/
  | outside
  /-- At the head of the loop in `run_ready_tasks`. -/
  | popping
  /-- The id has been popped. -/
  | popped (id : TaskId)
  /-- The task has a cached waker. -/
  | cached (id : TaskId)
  /-- Inside `task.poll`. -/
  | polling (id : TaskId)
  /-- The poll has returned `Ready`. -/
  | ready (id : TaskId)
  /-- The task has been removed from `tasks`. -/
  | removed (id : TaskId)
  /-- And its waker from `waker_cache`. -/
  | uncached (id : TaskId)
  /-- In `sleep_if_idle`, with interrupts off. -/
  | checking
  /-- At the `hlt`. -/
  | halted
  deriving DecidableEq

/-- The task in whose poll the executor is. A poll begins when the id is popped. -/
def ExecutorPos.task : ExecutorPos → Option TaskId
  | popped id | cached id | polling id | ready id | removed id | uncached id => some id
  | outside | popping | checking | halted => none

/-- The steps of the executor. -/
inductive ExecutorEvent (F : Type) where
  | spawn (task : Task F)
  | runReadyTasks
  | popNone
  | pop (id : TaskId)
  | skip
  | cacheWaker
  | poll
  | pending (future : F)
  | ready
  | removeTask
  | removeWaker
  | removeStarted
  | wake (waker : TaskWaker)
  | disable
  | halt
  | enable
  | interrupt

/-- The executor with the history that the properties speak of. -/
structure ExecutorState (F : Type) where
  exec : CoopExecutor F
  scheduler : Scheduler
  pos : ExecutorPos
  /-- The task was spawned or woken since its last poll began. -/
  woken : TaskId → Bool
  /-- How many tasks were spawned. The tasks are told apart by this number: an id can come back
  when the counter wraps. -/
  spawns : Nat
  /-- The number of the last task with an id. -/
  owner : TaskId → Nat
  /-- The task with a number has returned `Ready`. -/
  finished : Nat → Bool

namespace ExecutorState

variable {F : Type}

/-- One step. -/
inductive Step (p : Profile) : ExecutorState F → ExecutorEvent F → ExecutorState F → Prop
  | spawn {st : ExecutorState F} {task : Task F} {x : CoopExecutor F} {scheduler : Scheduler} :
      st.pos = .outside → st.exec.spawn p task st.scheduler = .ok (x, scheduler) →
      Step p st (.spawn task) { st with
        exec := x
        scheduler := scheduler
        woken := Function.update st.woken task.id true
        spawns := st.spawns + 1
        owner := Function.update st.owner task.id st.spawns }
  | runReadyTasks {st : ExecutorState F} : st.pos = .outside →
      Step p st .runReadyTasks { st with pos := .popping }
  | popNone {st : ExecutorState F} : st.pos = .popping → st.exec.taskQueue.pop = none →
      Step p st .popNone { st with pos := .outside }
  | pop {st : ExecutorState F} {id : TaskId} {q : BQueue TaskId taskQueueCapacity} :
      st.pos = .popping → st.exec.taskQueue.pop = some (id, q) →
      Step p st (.pop id) { st with
        exec := { st.exec with taskQueue := q }
        pos := .popped id
        woken := Function.update st.woken id false }
  /-- The task has finished and been removed. -/
  | skip {st : ExecutorState F} {id : TaskId} : st.pos = .popped id →
      st.exec.tasks.get? id = none → Step p st .skip { st with pos := .popping }
  | cacheWaker {st : ExecutorState F} {id : TaskId} {task : Task F} : st.pos = .popped id →
      st.exec.tasks.get? id = some task →
      Step p st .cacheWaker { st with exec := st.exec.cacheWaker id, pos := .cached id }
  | poll {st : ExecutorState F} {id : TaskId} : st.pos = .cached id →
      Step p st .poll { st with
        exec := { st.exec with startedTasks := insert id st.exec.startedTasks }
        pos := .polling id }
  | pending {st : ExecutorState F} {id : TaskId} {future : F} : st.pos = .polling id →
      Step p st (.pending future) { st with
        exec := { st.exec with
          tasks := FMap.adjust id (fun task => { task with future := future }) st.exec.tasks }
        pos := .popping }
  | ready {st : ExecutorState F} {id : TaskId} : st.pos = .polling id →
      Step p st .ready { st with
        pos := .ready id
        finished := Function.update st.finished (st.owner id) true }
  | removeTask {st : ExecutorState F} {id : TaskId} : st.pos = .ready id →
      Step p st .removeTask { st with
        exec := { st.exec with tasks := st.exec.tasks.erase id }
        pos := .removed id }
  | removeWaker {st : ExecutorState F} {id : TaskId} : st.pos = .removed id →
      Step p st .removeWaker { st with
        exec := { st.exec with wakerCache := st.exec.wakerCache.erase id }
        pos := .uncached id }
  | removeStarted {st : ExecutorState F} {id : TaskId} : st.pos = .uncached id →
      Step p st .removeStarted { st with
        exec := { st.exec with startedTasks := st.exec.startedTasks.erase id }
        scheduler := st.scheduler.noteTaskCompleted
        pos := .popping }
  | wake {st : ExecutorState F} {waker : TaskWaker} {x : CoopExecutor F} : st.pos ≠ .checking →
      st.pos ≠ .halted → waker.wakeTask st.exec = .ok x →
      Step p st (.wake waker) { st with
        exec := x
        woken := Function.update st.woken waker.taskId true }
  | disable {st : ExecutorState F} : st.pos = .outside →
      Step p st .disable { st with pos := .checking }
  | halt {st : ExecutorState F} : st.pos = .checking → st.exec.taskQueue.isEmpty = true →
      Step p st .halt { st with pos := .halted }
  | enable {st : ExecutorState F} : st.pos = .checking → st.exec.taskQueue.isEmpty = false →
      Step p st .enable { st with pos := .outside }
  | interrupt {st : ExecutorState F} : st.pos = .halted →
      Step p st .interrupt { st with pos := .outside }

/-- A new executor, with any liveness counters. -/
def system (p : Profile) (F : Type) : Sys (ExecutorState F) (ExecutorEvent F) where
  init st := ∃ scheduler owner,
    st = ⟨.new, scheduler, .outside, fun _ => false, 0, owner, fun _ => false⟩
  step := Step p

end ExecutorState

end Apogee
