import Apogee.Task.Wakeup

/-!
# One call of `run_ready_tasks`

The loop as a function: it pops an id, polls the task if there is one, and goes on until the queue
is empty. A poll is any function of the task and of a state that the tasks share; it answers with
the wakers it called, in order, and with the future it leaves, or none if it returned `Ready`. The
loop may not end, so `runReadyTasks` has fuel.

* `runReadyTasks_reach`: the calls are runs of `ExecutorState`, with the wakes inside the polls.
* `turns_spec`: what the first turns of the loop do, as many as ids were queued at entry. What the
  polls wake goes behind these ids, into the same queue, and the loop goes on with it.
* `readyPolls`: the polls that the documentation promises, read off the entry queue and the tasks'
  behaviour: each ready task once, in order. `turns_of_readyPolls` and `readyPolls_of_turns` compare
  them with the loop.
* `drains_once_iff`: a call polls each ready task once, and leaves what was woken to the next call,
  if and only if these polls meet `PollsOnce`.
* `self_waker_never_returns`: a task that wakes itself in each poll.
-/

namespace Apogee

open Verif

variable {W F : Type} {p : Profile}

/-- What a poll did. -/
structure PollOutcome (W F : Type) where
  wakes : List TaskWaker
  /-- The future that a pending task goes on with. -/
  future : Option F
  world : W

/-- How the tasks behave. They share a state. -/
abbrev PollBehaviour (W F : Type) := W → Task F → PollOutcome W F

/-- The state of a call, with the tasks that it polled and the ids that it woke, in order. -/
structure Drain (W F : Type) where
  exec : CoopExecutor F
  scheduler : Scheduler
  world : W
  polled : List TaskId
  woken : List TaskId

/-- The executor after a task returned `Ready`. -/
def CoopExecutor.finishTask (id : TaskId) (x : CoopExecutor F) : CoopExecutor F :=
  { x with
    tasks := x.tasks.erase id
    wakerCache := x.wakerCache.erase id
    startedTasks := x.startedTasks.erase id }

namespace Drain

/-- A call begins. -/
def start (x : CoopExecutor F) (scheduler : Scheduler) (world : W) : Drain W F :=
  ⟨x, scheduler, world, [], []⟩

/-- The ids that are queued. -/
abbrev queue (s : Drain W F) : List TaskId := s.exec.taskQueue.elems

/-- The part of the loop's body from the lookup of the waker on. -/
def pollTask (poll : PollBehaviour W F) (id : TaskId) (task : Task F) (s : Drain W F) :
    Panics (Drain W F) := do
  let x := s.exec.cacheWaker id
  let x := { x with startedTasks := insert id x.startedTasks }
  let outcome := poll s.world task
  let x ← outcome.wakes.foldlM (fun x waker => waker.wakeTask x) x
  let s := { s with
    world := outcome.world
    polled := s.polled ++ [id]
    woken := s.woken ++ outcome.wakes.map TaskWaker.taskId }
  match outcome.future with
  | none => pure { s with exec := x.finishTask id, scheduler := s.scheduler.noteTaskCompleted }
  | some future =>
    pure { s with exec := { x with
      tasks := FMap.adjust id (fun task => { task with future := future }) x.tasks } }

/-- One turn of the loop, or `none` if the queue is empty. -/
def turn (poll : PollBehaviour W F) (s : Drain W F) : Panics (Option (Drain W F)) :=
  match s.exec.taskQueue.pop with
  | none => pure none
  | some (id, taskQueue) =>
    let s := { s with exec := { s.exec with taskQueue := taskQueue } }
    match s.exec.tasks.get? id with
    -- The task has finished and been removed.
    | none => pure (some s)
    | some task => do pure (some (← s.pollTask poll id task))

/-- `run_ready_tasks`, up to a number of turns. -/
def runReadyTasks (poll : PollBehaviour W F) : Nat → Drain W F → Panics (Option (Drain W F))
  | 0, _ => pure none
  | fuel + 1, s => do
    match ← s.turn poll with
    | none => pure (some s)
    | some s => runReadyTasks poll fuel s

/-- The first `n` turns. -/
def turns (poll : PollBehaviour W F) : Nat → Drain W F → Panics (Drain W F)
  | 0, s => pure s
  | n + 1, s => do
    match ← s.turn poll with
    | none => pure s
    | some s => turns poll n s

variable {poll : PollBehaviour W F} {s s' t : Drain W F} {id : TaskId} {n fuel : Nat}

/-! ## One turn -/

/-- What a poll of the task `task` did. -/
structure Polled (poll : PollBehaviour W F) (s : Drain W F) (id : TaskId) (task : Task F)
    (s' : Drain W F) : Prop where
  polled : s'.polled = s.polled ++ [id]
  world : s'.world = (poll s.world task).world
  others : ∀ a, a ≠ id → s'.exec.tasks.get? a = s.exec.tasks.get? a
  /-- A task that returned `Ready` is gone. -/
  own : id ∈ s'.exec.tasks ↔ (poll s.world task).future ≠ none

/-- What a turn that popped `id` did. `wakes` are the ids that it woke. -/
structure Turned (poll : PollBehaviour W F) (s : Drain W F) (id : TaskId)
    (rest wakes : List TaskId) (s' : Drain W F) : Prop where
  queue : s.queue = id :: rest
  queue' : s'.queue = rest ++ wakes
  woken : s'.woken = s.woken ++ wakes
  /-- Only a live task is polled. -/
  body : (s.exec.tasks.get? id = none ∧ wakes = [] ∧ s'.polled = s.polled ∧ s'.world = s.world ∧
      s'.exec.tasks = s.exec.tasks) ∨
    ∃ task, s.exec.tasks.get? id = some task ∧
      wakes = (poll s.world task).wakes.map TaskWaker.taskId ∧ Polled poll s id task s'

section

variable {task : Task F} {a : TaskId}

theorem Polled.mem_of_mem (h : Polled poll s id task s') (hid : id ∈ s.exec.tasks)
    (ha : a ∈ s'.exec.tasks) : a ∈ s.exec.tasks := by
  by_cases hne : a = id
  · rwa [hne]
  · obtain ⟨task', htask⟩ := FMap.mem_iff.mp ha
    rw [h.others a hne] at htask
    exact FMap.mem_of_get? htask

theorem Polled.mem_of_ne (h : Polled poll s id task s') (ha : a ∈ s.exec.tasks) (hne : a ≠ id) :
    a ∈ s'.exec.tasks := by
  obtain ⟨task', htask⟩ := FMap.mem_iff.mp ha
  rw [← h.others a hne] at htask
  exact FMap.mem_of_get? htask

end

/-- The wakes of a poll push their ids onto the queue. -/
theorem foldlM_wakeTask {wakes : List TaskWaker} {x x' : CoopExecutor F}
    (h : wakes.foldlM (fun x waker => waker.wakeTask x) x = .ok x') :
    x'.taskQueue.elems = x.taskQueue.elems ++ wakes.map TaskWaker.taskId ∧ x'.tasks = x.tasks := by
  induction wakes generalizing x with
  | nil =>
    obtain rfl := Except.ok.inj h
    exact ⟨by simp, rfl⟩
  | cons waker wakes ih =>
    rw [List.foldlM_cons] at h
    obtain ⟨x₁, hwake, h⟩ := Panics.bind_eq_ok.mp h
    obtain ⟨q, hpush, rfl⟩ := TaskWaker.wakeTask_ok hwake
    obtain ⟨hq, ht⟩ := ih h
    refine ⟨?_, ht⟩
    rw [hq, BQueue.push_elems hpush, List.map_cons, List.append_assoc]
    rfl

/-- They fit if there is room for all of them. -/
theorem foldlM_wakeTask_ok {x : CoopExecutor F} (wakes : List TaskWaker)
    (h : x.taskQueue.elems.length + wakes.length ≤ taskQueueCapacity) :
    ∃ x', wakes.foldlM (fun x waker => waker.wakeTask x) x = .ok x' := by
  induction wakes generalizing x with
  | nil => exact ⟨x, rfl⟩
  | cons waker wakes ih =>
    rw [List.length_cons] at h
    obtain ⟨q, hpush⟩ := x.taskQueue.push_of_lt waker.taskId (by omega)
    have hwake : waker.wakeTask x = .ok { x with taskQueue := q } := by
      unfold TaskWaker.wakeTask
      rw [hpush]
      rfl
    rw [List.foldlM_cons, hwake, Panics.bind_ok]
    apply ih
    show q.elems.length + _ ≤ _
    rw [BQueue.push_elems hpush, List.length_append, List.length_singleton]
    omega

theorem pollTask_ok {task : Task F} (id : TaskId)
    (hfit : s.queue.length + (poll s.world task).wakes.length ≤ taskQueueCapacity) :
    ∃ s', s.pollTask poll id task = .ok s' := by
  obtain ⟨x, hx⟩ := foldlM_wakeTask_ok (x := { s.exec.cacheWaker id with
      startedTasks := insert id (s.exec.cacheWaker id).startedTasks }) (poll s.world task).wakes
    (by rw [CoopExecutor.cacheWaker_taskQueue]; exact hfit)
  simp only [pollTask, hx, Panics.bind_ok]
  split
  · exact ⟨_, rfl⟩
  · exact ⟨_, rfl⟩

/-- What a poll leaves. -/
theorem pollTask_cases {task : Task F} (hget : s.exec.tasks.get? id = some task)
    (h : s.pollTask poll id task = .ok s') :
    s'.queue = s.queue ++ (poll s.world task).wakes.map TaskWaker.taskId ∧
      s'.woken = s.woken ++ (poll s.world task).wakes.map TaskWaker.taskId ∧
      Polled poll s id task s' := by
  obtain ⟨x, hx, h⟩ := Panics.bind_eq_ok.mp h
  obtain ⟨hq, ht⟩ := foldlM_wakeTask hx
  simp only [CoopExecutor.cacheWaker_taskQueue, CoopExecutor.cacheWaker_tasks] at hq ht
  simp only at h
  split at h
  · next hready =>
    obtain rfl := Except.ok.inj h
    refine ⟨hq, rfl, rfl, rfl, fun a hne => ?_, ?_⟩
    · simp only [CoopExecutor.finishTask, FMap.get?_erase, if_neg hne, ht]
    · simp [CoopExecutor.finishTask, hready]
  · next future hpending =>
    obtain rfl := Except.ok.inj h
    refine ⟨hq, rfl, rfl, rfl, fun a hne => ?_, ?_⟩
    · simp only [FMap.get?_adjust, if_neg hne, ht]
    · simp only [FMap.mem_adjust, ht, FMap.mem_of_get? hget, hpending]
      simp

theorem turn_cases {r : Option (Drain W F)} (h : s.turn poll = .ok r) :
    (r = none ∧ s.queue = []) ∨
      ∃ id rest wakes s', r = some s' ∧ Turned poll s id rest wakes s' := by
  unfold turn at h
  split at h
  · next hpop =>
    obtain rfl := Except.ok.inj h
    exact .inl ⟨rfl, BQueue.pop_eq_none.mp hpop⟩
  · next id q hpop =>
    right
    have hqueue := BQueue.pop_elems hpop
    simp only at h
    split at h
    · next hget =>
      obtain rfl := Except.ok.inj h
      exact ⟨id, q.elems, [], _, rfl, hqueue, by simp, by simp, .inl ⟨hget, rfl, rfl, rfl, rfl⟩⟩
    · next task hget =>
      obtain ⟨s', hs', h⟩ := Panics.bind_eq_ok.mp h
      obtain rfl := Except.ok.inj h
      obtain ⟨hq, hw, hp⟩ := pollTask_cases
        (s := { s with exec := { s.exec with taskQueue := q } }) hget hs'
      exact ⟨id, q.elems, _, s', rfl, hqueue, hq, hw, .inr ⟨task, hget, rfl, ⟨hp.polled, hp.world,
        hp.others, hp.own⟩⟩⟩

/-- A turn with a queue that is not empty. -/
theorem turn_cons {rest : List TaskId} {r : Option (Drain W F)} (hq : s.queue = id :: rest)
    (h : s.turn poll = .ok r) : ∃ wakes s', r = some s' ∧ Turned poll s id rest wakes s' := by
  obtain ⟨-, hnil⟩ | ⟨id', rest', wakes, s', hr, hs'⟩ := turn_cases h
  · rw [hq] at hnil
    cases hnil
  · obtain ⟨rfl, rfl⟩ := List.cons.inj (hs'.queue.symm.trans hq)
    exact ⟨wakes, s', hr, hs'⟩

/-- A turn does not panic if there is room for what it wakes. -/
theorem turn_ok {rest : List TaskId} (hq : s.queue = id :: rest)
    (hfit : ∀ task, s.exec.tasks.get? id = some task →
      rest.length + (poll s.world task).wakes.length ≤ taskQueueCapacity) :
    ∃ s', s.turn poll = .ok (some s') := by
  cases hpop : s.exec.taskQueue.pop with
  | none =>
    rw [queue, BQueue.pop_eq_none.mp hpop] at hq
    cases hq
  | some popped =>
    obtain ⟨id', q⟩ := popped
    obtain ⟨rfl, rfl⟩ := List.cons.inj ((BQueue.pop_elems hpop).symm.trans hq)
    unfold turn
    rw [hpop]
    simp only
    cases hget : s.exec.tasks.get? id' with
    | none => exact ⟨_, rfl⟩
    | some task =>
      obtain ⟨s', hs'⟩ := pollTask_ok (s := { s with exec := { s.exec with taskQueue := q } }) id'
        (hfit task hget)
      exact ⟨s', by simp only [hs', Panics.bind_ok, Panics.pure_eq]⟩

/-! ## The turns for the ids queued at entry -/

/-- One turn, then `n` more. -/
theorem turns_succ {s₁ : Drain W F} (hturn : s.turn poll = .ok (some s₁))
    (ht : turns poll n s₁ = .ok t) : turns poll (n + 1) s = .ok t := by
  rw [turns, hturn, Panics.bind_ok]
  exact ht

/-- What the turns for `ids` did. `ps` and `ws` are what they polled and woke. -/
structure Passed (s : Drain W F) (ids rest ps ws : List TaskId) (t : Drain W F) : Prop where
  queue : t.queue = rest ++ ws
  woken : t.woken = s.woken ++ ws
  polled : t.polled = s.polled ++ ps
  /-- A live task among `ids` is polled, and no other task is. -/
  mem_polled : ∀ a, a ∈ ps ↔ a ∈ ids ∧ a ∈ s.exec.tasks
  tasks : ∀ a ∈ t.exec.tasks, a ∈ s.exec.tasks

theorem turns_spec {ids rest : List TaskId} (hq : s.queue = ids ++ rest)
    (h : turns poll ids.length s = .ok t) : ∃ polled wakes, Passed s ids rest polled wakes t := by
  induction ids generalizing s rest with
  | nil =>
    obtain rfl := Except.ok.inj h
    exact ⟨[], [], by simpa using hq, by simp, by simp, by simp, fun _ ha => ha⟩
  | cons id ids ih =>
    obtain ⟨r, hturn, h⟩ := Panics.bind_eq_ok.mp h
    rw [List.cons_append] at hq
    obtain ⟨wakes, s₁, rfl, hs₁⟩ := turn_cons hq hturn
    have hq₁ := hs₁.queue'
    rw [List.append_assoc] at hq₁
    obtain ⟨polled, wakes', hp⟩ := ih hq₁ h
    obtain ⟨hdead, rfl, hpolled, -, htasks⟩ | ⟨task, hget, -, hpoll⟩ := hs₁.body
    · have hdead := FMap.get?_eq_none.mp hdead
      refine ⟨polled, wakes', ?_, ?_, ?_, fun a => ?_, fun a ha => htasks ▸ hp.tasks a ha⟩
      · rw [hp.queue, List.append_nil]
      · rw [hp.woken, hs₁.woken, List.append_nil]
      · rw [hp.polled, hpolled]
      · rw [hp.mem_polled, htasks, List.mem_cons]
        constructor
        · rintro ⟨ha, hm⟩
          exact ⟨.inr ha, hm⟩
        · rintro ⟨rfl | ha, hm⟩
          · exact absurd hm hdead
          · exact ⟨ha, hm⟩
    · have hlive := FMap.mem_of_get? hget
      refine ⟨id :: polled, wakes ++ wakes', ?_, ?_, ?_, fun a => ?_,
        fun a ha => hpoll.mem_of_mem hlive (hp.tasks a ha)⟩
      · rw [hp.queue, List.append_assoc]
      · rw [hp.woken, hs₁.woken, List.append_assoc]
      · rw [hp.polled, hpoll.polled, List.append_assoc]
        rfl
      · rw [List.mem_cons, hp.mem_polled, List.mem_cons]
        constructor
        · rintro (rfl | ⟨ha, hm⟩)
          · exact ⟨.inl rfl, hlive⟩
          · exact ⟨.inr ha, hpoll.mem_of_mem hlive hm⟩
        · rintro ⟨rfl | ha, hm⟩
          · exact .inl rfl
          · by_cases hne : a = id
            · exact .inl hne
            · exact .inr ⟨ha, hpoll.mem_of_ne hm hne⟩

/-! ## Whole calls -/

/-- A call that ends goes through its first turns. -/
theorem turns_of_runReadyTasks (n : Nat) (h : runReadyTasks poll fuel s = .ok (some s')) :
    ∃ t, turns poll n s = .ok t ∧ ∃ fuel, runReadyTasks poll fuel t = .ok (some s') := by
  induction n generalizing s fuel with
  | zero => exact ⟨s, rfl, fuel, h⟩
  | succ n ih =>
    cases fuel with
    | zero => cases h
    | succ fuel =>
      have h' := h
      obtain ⟨r, hturn, h'⟩ := Panics.bind_eq_ok.mp h'
      rw [turns, hturn, Panics.bind_ok]
      cases r with
      | none => exact ⟨s, rfl, fuel + 1, h⟩
      | some s₁ => exact ih h'

/-- And the first turns lead to a call that ends. -/
theorem runReadyTasks_of_turns (ht : turns poll n s = .ok t)
    (h : runReadyTasks poll fuel t = .ok (some s')) :
    ∃ fuel, runReadyTasks poll fuel s = .ok (some s') := by
  induction n generalizing s with
  | zero =>
    obtain rfl := Except.ok.inj ht
    exact ⟨fuel, h⟩
  | succ n ih =>
    obtain ⟨r, hturn, ht⟩ := Panics.bind_eq_ok.mp ht
    cases r with
    | none =>
      obtain rfl := Except.ok.inj ht
      exact ⟨fuel, h⟩
    | some s₁ =>
      obtain ⟨fuel', h'⟩ := ih ht
      refine ⟨fuel' + 1, ?_⟩
      rw [runReadyTasks, hturn]
      exact h'

/-- A call ends with an empty queue. If it polls nothing, no queued task was alive. -/
theorem runReadyTasks_spec (h : runReadyTasks poll fuel s = .ok (some s')) :
    s'.queue = [] ∧ s.polled <+: s'.polled ∧
      (s'.polled = s.polled → ∀ id ∈ s.queue, id ∉ s.exec.tasks) := by
  induction fuel generalizing s with
  | zero => cases h
  | succ fuel ih =>
    obtain ⟨r, hturn, h⟩ := Panics.bind_eq_ok.mp h
    obtain ⟨rfl, hnil⟩ | ⟨id, rest, wakes, s₁, rfl, hs₁⟩ := turn_cases hturn
    · obtain rfl := Option.some.inj (Except.ok.inj h)
      exact ⟨hnil, List.prefix_refl _, fun _ id hid => by rw [hnil] at hid; cases hid⟩
    obtain ⟨hq, hpre, hdead⟩ := ih h
    obtain ⟨hid, rfl, hpolled, -, htasks⟩ | ⟨task, -, -, hpoll⟩ := hs₁.body
    · rw [hpolled] at hpre hdead
      refine ⟨hq, hpre, fun hsame a ha => ?_⟩
      rw [hs₁.queue] at ha
      obtain rfl | ha := List.mem_cons.mp ha
      · exact FMap.get?_eq_none.mp hid
      · rw [← htasks]
        exact hdead hsame a (by rw [hs₁.queue', List.append_nil]; exact ha)
    · rw [hpoll.polled] at hpre
      refine ⟨hq, (List.prefix_append _ _).trans hpre, fun hsame => ?_⟩
      have hle := hpre.length_le
      rw [hsame, List.length_append, List.length_singleton] at hle
      omega

/-- If no queued task is alive, the call ends and polls nothing. -/
theorem runReadyTasks_dead (h : ∀ id ∈ s.queue, id ∉ s.exec.tasks) :
    ∃ fuel s', runReadyTasks poll fuel s = .ok (some s') ∧ s'.polled = s.polled ∧
      s'.woken = s.woken ∧ s'.exec.tasks = s.exec.tasks := by
  obtain ⟨n, hn⟩ : ∃ n, s.queue.length = n := ⟨_, rfl⟩
  induction n generalizing s with
  | zero =>
    have hpop : s.exec.taskQueue.pop = none :=
      BQueue.pop_eq_none.mpr (List.length_eq_zero_iff.mp hn)
    exact ⟨1, s, by simp [runReadyTasks, turn, hpop], rfl, rfl, rfl⟩
  | succ n ih =>
    cases hpop : s.exec.taskQueue.pop with
    | none =>
      rw [queue, BQueue.pop_eq_none.mp hpop] at hn
      cases hn
    | some popped =>
      obtain ⟨id, q⟩ := popped
      have hqueue : s.queue = id :: q.elems := BQueue.pop_elems hpop
      have hget := FMap.get?_eq_none.mpr (h id (by rw [hqueue]; exact .head _))
      obtain ⟨fuel, s', hrun, hp, hw, ht⟩ :=
        ih (s := { s with exec := { s.exec with taskQueue := q } })
          (fun a ha => h a (by rw [hqueue]; exact .tail _ ha))
          (by rw [hqueue] at hn; exact Nat.succ.inj hn)
      refine ⟨fuel + 1, s', ?_, hp, hw, ht⟩
      rw [runReadyTasks, turn, hpop]
      simp only [hget, Panics.pure_eq, Panics.bind_ok]
      exact hrun

/-! ## Each ready task once -/

/-- A poll of a task that was ready at entry. -/
structure ReadyPoll (W F : Type) where
  id : TaskId
  /-- The ids that were queued behind it. -/
  behind : List TaskId
  outcome : PollOutcome W F

/-- The ids that the poll wakes. -/
def ReadyPoll.wakes (r : ReadyPoll W F) : List TaskId := r.outcome.wakes.map TaskWaker.taskId

/-- The polls of the tasks with an id in the queue: each task once, in the order of the queue. -/
def readyPolls (poll : PollBehaviour W F) (tasks : FMap TaskId (Task F)) (world : W) :
    List TaskId → List (ReadyPoll W F)
  | [] => []
  | id :: behind =>
    match tasks.get? id with
    | none => readyPolls poll tasks world behind
    | some task =>
      let outcome := poll world task
      ⟨id, behind, outcome⟩ :: readyPolls poll (tasks.erase id) outcome.world behind

/-- There is room for what the polls wake, behind the ids that are still queued. `n` ids were woken
before. -/
def WakesFit : Nat → List (ReadyPoll W F) → Prop
  | _, [] => True
  | n, r :: rest =>
    r.behind.length + n + r.wakes.length ≤ taskQueueCapacity ∧ WakesFit (n + r.wakes.length) rest

/-- What a call needs of the queue and the tasks at entry, and of how the tasks behave. -/
structure PollsOnce (poll : PollBehaviour W F) (x : CoopExecutor F) (world : W) : Prop where
  /-- No live task is queued twice, unless its first poll finishes it. -/
  once : ∀ r ∈ readyPolls poll x.tasks world x.taskQueue.elems, r.id ∈ r.behind →
    r.outcome.future = none
  /-- No poll wakes a task that is alive after the polls. -/
  wakes : ∀ r ∈ readyPolls poll x.tasks world x.taskQueue.elems, ∀ id ∈ r.wakes, id ∈ x.tasks →
    ∃ r' ∈ readyPolls poll x.tasks world x.taskQueue.elems, r'.id = id ∧ r'.outcome.future = none
  fits : WakesFit 0 (readyPolls poll x.tasks world x.taskQueue.elems)

theorem readyPolls_live {tasks : FMap TaskId (Task F)} {world : W} {ids : List TaskId}
    {r : ReadyPoll W F} (h : r ∈ readyPolls poll tasks world ids) : r.id ∈ tasks := by
  induction ids generalizing tasks world with
  | nil => cases h
  | cons id ids ih =>
    unfold readyPolls at h
    split at h
    · exact ih h
    · next task hget =>
      obtain rfl | h := List.mem_cons.mp h
      · exact FMap.mem_of_get? hget
      · exact (Finmap.mem_erase.mp (ih h)).2

theorem readyPolls_nodup (poll : PollBehaviour W F) (tasks : FMap TaskId (Task F)) (world : W)
    (ids : List TaskId) : ((readyPolls poll tasks world ids).map ReadyPoll.id).Nodup := by
  induction ids generalizing tasks world with
  | nil => exact List.nodup_nil
  | cons id ids ih =>
    unfold readyPolls
    split
    · exact ih tasks world
    · refine List.nodup_cons.mpr ⟨fun hmem => ?_, ih _ _⟩
      obtain ⟨r, hr, hid⟩ := List.mem_map.mp hmem
      exact (Finmap.mem_erase.mp (readyPolls_live hr)).1 hid

/-- The state `t` after the polls `polls` from `s`, with `woken` in the queue before them. -/
structure After (s : Drain W F) (woken : List TaskId) (polls : List (ReadyPoll W F))
    (t : Drain W F) : Prop where
  queue : t.queue = woken ++ polls.flatMap ReadyPoll.wakes
  polled : t.polled = s.polled ++ polls.map ReadyPoll.id
  tasks : ∀ a, a ∈ t.exec.tasks ↔
    a ∈ s.exec.tasks ∧ ¬ ∃ r ∈ polls, r.id = a ∧ r.outcome.future = none

/-- The first poll, then the others. -/
theorem After.cons {task : Task F} {s₁ : Drain W F} {behind woken : List TaskId}
    {polls : List (ReadyPoll W F)} (hget : s.exec.tasks.get? id = some task)
    (hs₁ : Polled poll s id task s₁)
    (h : After s₁ (woken ++ (poll s.world task).wakes.map TaskWaker.taskId) polls t) :
    After s woken (⟨id, behind, poll s.world task⟩ :: polls) t where
  queue := by rw [h.queue, List.append_assoc]; rfl
  polled := by rw [h.polled, hs₁.polled, List.append_assoc]; rfl
  tasks a := by
    have hlive := FMap.mem_of_get? hget
    rw [h.tasks]
    constructor
    · rintro ⟨ha, hnot⟩
      refine ⟨hs₁.mem_of_mem hlive ha, ?_⟩
      rintro ⟨r, hr, rfl, hready⟩
      obtain rfl | hr := List.mem_cons.mp hr
      · exact hs₁.own.mp ha hready
      · exact hnot ⟨r, hr, rfl, hready⟩
    · rintro ⟨ha, hnot⟩
      refine ⟨?_, fun ⟨r, hr, hid, hready⟩ => hnot ⟨r, .tail _ hr, hid, hready⟩⟩
      by_cases hne : a = id
      · rw [hne]
        exact hs₁.own.mpr fun hready => hnot ⟨_, .head _, hne.symm, hready⟩
      · exact hs₁.mem_of_ne ha hne

/-- After a poll, the ids still queued from the entry find the tasks that were not polled yet: the
task that was polled is gone, or its id is not among them. -/
theorem agree_of_polled {task : Task F} {s₁ : Drain W F} {tasks : FMap TaskId (Task F)}
    {ids : List TaskId} (hs₁ : Polled poll s id task s₁)
    (hagree : ∀ a ∈ ids, s.exec.tasks.get? a = tasks.get? a)
    (honce : id ∈ ids → (poll s.world task).future = none) :
    ∀ a ∈ ids, s₁.exec.tasks.get? a = FMap.get? (tasks.erase id) a := by
  intro a ha
  rw [FMap.get?_erase]
  by_cases hne : a = id
  · rw [if_pos hne, hne]
    exact FMap.get?_eq_none.mpr fun hmem => hs₁.own.mp hmem (honce (hne ▸ ha))
  · rw [if_neg hne, hs₁.others a hne, hagree a ha]

/-- The turns for `ids` make the polls of the ready tasks among them, if no task is polled twice
that way and the wakes fit. -/
theorem turns_of_readyPolls {tasks : FMap TaskId (Task F)} {ids woken : List TaskId}
    (hq : s.queue = ids ++ woken) (hagree : ∀ a ∈ ids, s.exec.tasks.get? a = tasks.get? a)
    (honce : ∀ r ∈ readyPolls poll tasks s.world ids, r.id ∈ r.behind → r.outcome.future = none)
    (hfits : WakesFit woken.length (readyPolls poll tasks s.world ids)) :
    ∃ t, turns poll ids.length s = .ok t ∧ After s woken (readyPolls poll tasks s.world ids) t := by
  induction ids generalizing s tasks woken with
  | nil => exact ⟨s, rfl, by simpa [readyPolls] using hq, by simp [readyPolls],
      by simp [readyPolls]⟩
  | cons id ids ih =>
    rw [List.cons_append] at hq
    have hid := hagree id (.head _)
    have hrest : ∀ a ∈ ids, s.exec.tasks.get? a = tasks.get? a :=
      fun a ha => hagree a (.tail _ ha)
    unfold readyPolls at honce hfits ⊢
    have hroom : ∀ task, s.exec.tasks.get? id = some task →
        (ids ++ woken).length + (poll s.world task).wakes.length ≤ taskQueueCapacity := by
      intro task htask
      simp only [← hid, htask] at hfits
      have hroom := hfits.1
      simp only [ReadyPoll.wakes, List.length_map] at hroom
      rw [List.length_append]
      exact hroom
    obtain ⟨s₁, hturn⟩ := turn_ok hq hroom
    obtain ⟨wakes, s', hs', hs₁⟩ := turn_cons hq hturn
    obtain rfl := Option.some.inj hs'
    have hq₁ := hs₁.queue'
    rw [List.append_assoc] at hq₁
    obtain ⟨hnone, rfl, hpolled, hworld, htasks⟩ | ⟨task, htask, rfl, hpoll⟩ := hs₁.body
    · simp only [← hid, hnone] at honce hfits ⊢
      rw [← htasks] at hrest
      rw [List.append_nil] at hq₁
      rw [← hworld] at honce hfits ⊢
      obtain ⟨t, ht, hafter⟩ := ih hq₁ hrest honce hfits
      exact ⟨t, turns_succ hturn ht, hafter.queue, hpolled ▸ hafter.polled,
        htasks ▸ hafter.tasks⟩
    · simp only [← hid, htask] at honce hfits ⊢
      have hagree₁ := agree_of_polled hpoll hrest (honce _ (.head _))
      have hworld := hpoll.world
      have hfits₁ := hfits.2
      rw [← hworld, ← List.length_append] at hfits₁
      obtain ⟨t, ht, hafter⟩ := ih hq₁ hagree₁
        (by rw [hworld]; exact fun r hr => honce r (.tail _ hr)) hfits₁
      rw [hworld] at hafter
      exact ⟨t, turns_succ hturn ht, hafter.cons htask hpoll⟩

/-- Turns that poll no task twice are the polls of the ready tasks. -/
theorem readyPolls_of_turns {tasks : FMap TaskId (Task F)} {ids woken : List TaskId}
    (hq : s.queue = ids ++ woken) (hagree : ∀ a ∈ ids, s.exec.tasks.get? a = tasks.get? a)
    (ht : turns poll ids.length s = .ok t) (hnodup : t.polled.Nodup) :
    (∀ r ∈ readyPolls poll tasks s.world ids, r.id ∈ r.behind → r.outcome.future = none) ∧
      WakesFit woken.length (readyPolls poll tasks s.world ids) ∧
      After s woken (readyPolls poll tasks s.world ids) t := by
  induction ids generalizing s tasks woken with
  | nil =>
    obtain rfl := Except.ok.inj ht
    exact ⟨nofun, trivial, by simpa [readyPolls] using hq, by simp [readyPolls],
      by simp [readyPolls]⟩
  | cons id ids ih =>
    rw [List.cons_append] at hq
    have hid := hagree id (.head _)
    have hrest : ∀ a ∈ ids, s.exec.tasks.get? a = tasks.get? a :=
      fun a ha => hagree a (.tail _ ha)
    obtain ⟨r, hturn, hturns⟩ := Panics.bind_eq_ok.mp ht
    obtain ⟨wakes, s₁, rfl, hs₁⟩ := turn_cons hq hturn
    have hq₁ := hs₁.queue'
    rw [List.append_assoc] at hq₁
    unfold readyPolls
    obtain ⟨hnone, rfl, hpolled, hworld, htasks⟩ | ⟨task, htask, rfl, hpoll⟩ := hs₁.body
    · simp only [← hid, hnone]
      rw [← htasks] at hrest
      rw [List.append_nil] at hq₁
      obtain ⟨honce, hfits, hafter⟩ := ih hq₁ hrest hturns
      rw [hworld] at honce hfits hafter
      exact ⟨honce, hfits, hafter.queue, hpolled ▸ hafter.polled, htasks ▸ hafter.tasks⟩
    · simp only [← hid, htask]
      -- A second turn for the task would poll it again, if it were still alive.
      have honce₁ : id ∈ ids → (poll s.world task).future = none := by
        intro hmem
        obtain ⟨polled, wakes, hpassed⟩ := turns_spec hq₁ hturns
        by_contra hpending
        have hagain := (hpassed.mem_polled id).mpr ⟨hmem, hpoll.own.mpr hpending⟩
        rw [hpassed.polled, hpoll.polled, List.append_assoc, List.nodup_append] at hnodup
        exact (List.nodup_cons.mp hnodup.2.1).1 hagain
      have hworld := hpoll.world
      obtain ⟨honce, hfits, hafter⟩ := ih hq₁ (agree_of_polled hpoll hrest honce₁) hturns
      rw [hworld] at honce hfits hafter
      refine ⟨?_, ⟨?_, ?_⟩, hafter.cons htask hpoll⟩
      · intro r hr
        obtain rfl | hr := List.mem_cons.mp hr
        · exact honce₁
        · exact honce r hr
      · have hle : s₁.queue.length ≤ taskQueueCapacity := s₁.exec.taskQueue.length_le
        rw [hq₁, List.length_append, List.length_append, ← Nat.add_assoc] at hle
        exact hle
      · rw [List.length_append] at hfits
        exact hfits

/-- The call ends. It polls each live task that was queued once and no other task, and a task that
was woken during the call is queued at its end. -/
def DrainsOnce (poll : PollBehaviour W F) (s : Drain W F) : Prop :=
  ∃ fuel s', runReadyTasks poll fuel s = .ok (some s') ∧
    (∀ id ∈ s.queue, id ∈ s.exec.tasks → s'.polled.count id = 1) ∧
    (∀ id ∈ s'.polled, id ∈ s.queue ∧ id ∈ s.exec.tasks) ∧
    ∀ id ∈ s'.woken, id ∈ s'.exec.tasks → id ∈ s'.queue

/-- By the turns for the ids queued at entry: after them no live task is queued, and they poll none
twice. -/
theorem drainsOnce_iff_turns (poll : PollBehaviour W F) (x : CoopExecutor F)
    (scheduler : Scheduler) (world : W) : DrainsOnce poll (start x scheduler world) ↔
      ∃ t, turns poll x.taskQueue.elems.length (start x scheduler world) = .ok t ∧
        (∀ id ∈ t.queue, id ∉ t.exec.tasks) ∧ t.polled.Nodup := by
  have hpass : ∀ {t}, turns poll x.taskQueue.elems.length (start x scheduler world) = .ok t →
      ∃ wakes, Passed (start x scheduler world) x.taskQueue.elems [] t.polled wakes t := by
    intro t ht
    have hq : (start x scheduler world).queue = x.taskQueue.elems ++ [] := (List.append_nil _).symm
    obtain ⟨polled, wakes, hp⟩ := turns_spec hq ht
    obtain rfl : t.polled = polled := hp.polled
    exact ⟨wakes, hp⟩
  constructor
  · rintro ⟨fuel, s', hrun, hcount, honly, -⟩
    obtain ⟨t, ht, fuel', hrun'⟩ := turns_of_runReadyTasks x.taskQueue.elems.length hrun
    obtain ⟨-, hpre, hdead⟩ := runReadyTasks_spec hrun'
    obtain ⟨wakes, hp⟩ := hpass ht
    -- A task that is polled after these turns was polled in them.
    have hnodup : s'.polled.Nodup := by
      rw [List.nodup_iff_count_le_one]
      intro a
      by_cases ha : a ∈ s'.polled
      · exact (hcount a (honly a ha).1 (honly a ha).2).le
      · rw [List.count_eq_zero_of_not_mem ha]
        exact Nat.zero_le _
    obtain ⟨more, hmore⟩ := hpre
    rw [← hmore, List.nodup_append] at hnodup
    refine ⟨t, ht, hdead ?_, hnodup.1⟩
    cases more with
    | nil => rw [← hmore, List.append_nil]
    | cons a more =>
      have ha := honly a (by rw [← hmore]; simp)
      exact absurd rfl (hnodup.2.2 a ((hp.mem_polled a).mpr ha) a (.head _))
  · rintro ⟨t, ht, hdead, hnodup⟩
    obtain ⟨wakes, hp⟩ := hpass ht
    obtain ⟨fuel, s', hrun, hpolled, hwoken, htasks⟩ :
        ∃ fuel s', runReadyTasks poll fuel t = .ok (some s') ∧ s'.polled = t.polled ∧
          s'.woken = t.woken ∧ s'.exec.tasks = t.exec.tasks := runReadyTasks_dead hdead
    obtain ⟨fuel', hrun'⟩ := runReadyTasks_of_turns ht hrun
    refine ⟨fuel', s', hrun', fun id hid hlive => ?_, fun id hid => ?_, fun id hid hlive => ?_⟩
    · rw [hpolled]
      exact List.count_eq_one_of_mem hnodup ((hp.mem_polled id).mpr ⟨hid, hlive⟩)
    · rw [hpolled] at hid
      exact (hp.mem_polled id).mp hid
    · rw [hwoken, hp.woken] at hid
      rw [htasks] at hlive
      exact absurd hlive (hdead id (by rw [hp.queue]; exact hid))

/-- For every executor and every behaviour of its tasks: one call polls each ready task once and
leaves the tasks woken meanwhile to the next call if and only if the polls of the ready tasks, taken
once each in the order of the queue, meet `PollsOnce`. -/
theorem drains_once_iff (poll : PollBehaviour W F) (x : CoopExecutor F) (scheduler : Scheduler)
    (world : W) : DrainsOnce poll (start x scheduler world) ↔ PollsOnce poll x world := by
  have hq : (start x scheduler world).queue = x.taskQueue.elems ++ [] := (List.append_nil _).symm
  rw [drainsOnce_iff_turns]
  constructor
  · rintro ⟨t, ht, hdead, hnodup⟩
    obtain ⟨honce, hfits, hafter⟩ := readyPolls_of_turns hq (fun _ _ => rfl) ht hnodup
    refine ⟨honce, fun r hr id hid hlive => ?_, hfits⟩
    have hgone := hdead id (by rw [hafter.queue]; exact List.mem_flatMap.mpr ⟨r, hr, hid⟩)
    by_contra hnot
    exact hgone ((hafter.tasks id).mpr ⟨hlive, hnot⟩)
  · intro h
    obtain ⟨t, ht, hafter⟩ := turns_of_readyPolls hq (fun _ _ => rfl) h.once h.fits
    refine ⟨t, ht, fun id hid hlive => ?_, ?_⟩
    · rw [hafter.queue] at hid
      obtain ⟨r, hr, hwakes⟩ := List.mem_flatMap.mp hid
      obtain ⟨hentry, hnot⟩ := (hafter.tasks id).mp hlive
      exact hnot (h.wakes r hr id hwakes hentry)
    · rw [hafter.polled]
      exact readyPolls_nodup poll x.tasks world x.taskQueue.elems

/-- The first of two tasks wakes the second, which is queued already, and stays pending. The second
wakes itself and finishes. -/
def handsOver : PollBehaviour Unit Unit := fun _ task =>
  if task.id = ⟨0⟩ then ⟨[⟨⟨1⟩⟩], some (), ()⟩ else ⟨[⟨⟨1⟩⟩], none, ()⟩

/-- Both are polled once, though both wakes are of the second. -/
theorem drains_once_iff_two : ∃ (x : CoopExecutor Unit) (scheduler : Scheduler),
    (do
      let (x, scheduler) ← CoopExecutor.new.spawn .dev ⟨⟨0⟩, ()⟩ .new
      x.spawn .dev ⟨⟨1⟩, ()⟩ scheduler) = .ok (x, scheduler) ∧
    DrainsOnce handsOver (start x scheduler ()) := by
  refine ⟨_, _, rfl, (drains_once_iff _ _ _ _).mpr ?_⟩
  have hpolls : ∀ x : CoopExecutor Unit, readyPolls handsOver x.tasks () x.taskQueue.elems =
      [⟨⟨0⟩, [⟨1⟩], ⟨[⟨⟨1⟩⟩], some (), ()⟩⟩, ⟨⟨1⟩, [], ⟨[⟨⟨1⟩⟩], none, ()⟩⟩] →
      PollsOnce handsOver x () := by
    intro x hx
    constructor
    · rw [hx]
      simp
    · rw [hx]
      simp [ReadyPoll.wakes]
    · rw [hx]
      simp [WakesFit, ReadyPoll.wakes, taskQueueCapacity]
  exact hpolls _ rfl

/-! ## The calls as runs of the executor -/

/-- A run of the executor reaches this executor with these counters, at this point of the code. -/
def ReachAt (p : Profile) (x : CoopExecutor F) (scheduler : Scheduler) (pos : ExecutorPos) : Prop :=
  ∃ st, (ExecutorState.system p F).Reach st ∧ st.exec = x ∧ st.scheduler = scheduler ∧ st.pos = pos

section

variable {x x' : CoopExecutor F} {scheduler : Scheduler} {task : Task F}

theorem ReachAt.pop {q : BQueue TaskId taskQueueCapacity} (h : ReachAt p x scheduler .popping)
    (hpop : x.taskQueue.pop = some (id, q)) :
    ReachAt p { x with taskQueue := q } scheduler (.popped id) := by
  obtain ⟨st, hr, rfl, rfl, hpos⟩ := h
  exact ⟨_, hr.step (.pop hpos hpop), rfl, rfl, rfl⟩

theorem ReachAt.skip (h : ReachAt p x scheduler (.popped id)) (hget : x.tasks.get? id = none) :
    ReachAt p x scheduler .popping := by
  obtain ⟨st, hr, rfl, rfl, hpos⟩ := h
  exact ⟨_, hr.step (.skip hpos hget), rfl, rfl, rfl⟩

theorem ReachAt.beginPoll (h : ReachAt p x scheduler (.popped id))
    (hget : x.tasks.get? id = some task) :
    ReachAt p { x.cacheWaker id with
      startedTasks := insert id (x.cacheWaker id).startedTasks } scheduler (.polling id) := by
  obtain ⟨st, hr, rfl, rfl, hpos⟩ := h
  exact ⟨_, (hr.step (.cacheWaker hpos hget)).step (.poll rfl), rfl, rfl, rfl⟩

theorem ReachAt.wakes {wakes : List TaskWaker} (h : ReachAt p x scheduler (.polling id))
    (hw : wakes.foldlM (fun x waker => waker.wakeTask x) x = .ok x') :
    ReachAt p x' scheduler (.polling id) := by
  induction wakes generalizing x with
  | nil =>
    obtain rfl := Except.ok.inj hw
    exact h
  | cons waker wakes ih =>
    rw [List.foldlM_cons] at hw
    obtain ⟨x₁, hwake, hrest⟩ := Panics.bind_eq_ok.mp hw
    obtain ⟨st, hr, rfl, rfl, hpos⟩ := h
    refine ih ⟨_, hr.step (.wake ?_ ?_ hwake), rfl, rfl, hpos⟩ hrest
    · simp [hpos]
    · simp [hpos]

theorem ReachAt.pending (future : F) (h : ReachAt p x scheduler (.polling id)) :
    ReachAt p { x with
      tasks := FMap.adjust id (fun task => { task with future := future }) x.tasks }
      scheduler .popping := by
  obtain ⟨st, hr, rfl, rfl, hpos⟩ := h
  exact ⟨_, hr.step (.pending hpos), rfl, rfl, rfl⟩

theorem ReachAt.ready (h : ReachAt p x scheduler (.polling id)) :
    ReachAt p (x.finishTask id) scheduler.noteTaskCompleted .popping := by
  obtain ⟨st, hr, rfl, rfl, hpos⟩ := h
  have h₁ := (hr.step (.ready hpos)).step (.removeTask rfl)
  exact ⟨_, (h₁.step (.removeWaker rfl)).step (.removeStarted rfl), rfl, rfl, rfl⟩

end

theorem ReachAt.turn (h : ReachAt p s.exec s.scheduler .popping)
    (ht : s.turn poll = .ok (some s')) : ReachAt p s'.exec s'.scheduler .popping := by
  unfold Drain.turn at ht
  split at ht
  · cases ht
  next id q hpop =>
  have hpopped := h.pop hpop
  simp only at ht
  split at ht
  · next hget =>
    obtain rfl := Option.some.inj (Except.ok.inj ht)
    exact hpopped.skip hget
  next task hget =>
  obtain ⟨s₁, hpoll, ht⟩ := Panics.bind_eq_ok.mp ht
  obtain rfl := Option.some.inj (Except.ok.inj ht)
  obtain ⟨x, hwakes, hpoll⟩ := Panics.bind_eq_ok.mp hpoll
  have hpolling := (hpopped.beginPoll hget).wakes hwakes
  simp only at hpoll
  split at hpoll
  · obtain rfl := Except.ok.inj hpoll
    exact hpolling.ready
  · obtain rfl := Except.ok.inj hpoll
    exact hpolling.pending _

/-- A call that ends is a run of the executor from the call to the return. -/
theorem runReadyTasks_reach (h : ReachAt p s.exec s.scheduler .outside)
    (hrun : runReadyTasks poll fuel s = .ok (some s')) :
    ReachAt p s'.exec s'.scheduler .outside := by
  have hpopping : ReachAt p s.exec s.scheduler .popping := by
    obtain ⟨st, hr, hx, hs, hpos⟩ := h
    exact ⟨_, hr.step (.runReadyTasks hpos), hx, hs, rfl⟩
  clear h
  induction fuel generalizing s with
  | zero => cases hrun
  | succ fuel ih =>
    obtain ⟨r, hturn, hrun⟩ := Panics.bind_eq_ok.mp hrun
    cases r with
    | none =>
      obtain rfl := Option.some.inj (Except.ok.inj hrun)
      obtain ⟨-, hnil⟩ | ⟨_, _, _, _, hsome, -⟩ := turn_cases hturn
      · obtain ⟨st, hr, hx, hs, hpos⟩ := hpopping
        refine ⟨_, hr.step (.popNone hpos ?_), hx, hs, rfl⟩
        rw [hx]
        exact BQueue.pop_eq_none.mpr hnil
      · cases hsome
    | some s₁ => exact ih hrun (hpopping.turn hturn)

/-! ## A task that wakes itself -/

/-- Every task wakes itself and stays pending. -/
def selfWaker : PollBehaviour Unit Unit := fun _ task => ⟨[⟨task.id⟩], some (), ()⟩

/-- The only queued id is that of a live task. -/
structure Spinning (id : TaskId) (s : Drain Unit Unit) : Prop where
  queue : s.queue = [id]
  live : ∃ task, s.exec.tasks.get? id = some task ∧ task.id = id

theorem Spinning.turn {s : Drain Unit Unit} (h : Spinning id s) :
    ∃ s', s.turn selfWaker = .ok (some s') ∧ Spinning id s' := by
  obtain ⟨task, hget, rfl⟩ := h.live
  cases hpop : s.exec.taskQueue.pop with
  | none =>
    cases h.queue.symm.trans (BQueue.pop_eq_none.mp hpop)
  | some popped =>
    obtain ⟨id, q⟩ := popped
    obtain ⟨rfl, hnil⟩ := List.cons.inj ((BQueue.pop_elems hpop).symm.trans h.queue)
    obtain ⟨q', hpush⟩ := q.push_of_lt task.id (by rw [hnil]; decide)
    have helems := BQueue.push_elems hpush
    rw [hnil] at helems
    unfold Drain.turn
    rw [hpop]
    simp only [hget, pollTask, selfWaker, List.foldlM_cons, List.foldlM_nil, TaskWaker.wakeTask,
      CoopExecutor.cacheWaker_taskQueue, hpush, expect_some, Panics.bind_ok, Panics.pure_eq]
    refine ⟨_, rfl, helems, ?_⟩
    simp only [CoopExecutor.cacheWaker_tasks, FMap.get?_adjust, if_true, hget]
    exact ⟨_, rfl, rfl⟩

/-- One task is spawned. It wakes itself in each poll, so the call polls it again and again and
never returns. -/
theorem self_waker_never_returns : ∃ (x : CoopExecutor Unit) (scheduler : Scheduler),
    CoopExecutor.new.spawn .dev ⟨⟨0⟩, ()⟩ .new = .ok (x, scheduler) ∧
    (∀ fuel, runReadyTasks selfWaker fuel (start x scheduler ()) = .ok none) ∧
    ¬ DrainsOnce selfWaker (start x scheduler ()) := by
  have hspin : ∀ fuel (s : Drain Unit Unit), Spinning ⟨0⟩ s →
      runReadyTasks selfWaker fuel s = .ok none := by
    intro fuel
    induction fuel with
    | zero => exact fun _ _ => rfl
    | succ fuel ih =>
      intro s h
      obtain ⟨s', hturn, h'⟩ := h.turn
      rw [runReadyTasks, hturn]
      exact ih s' h'
  refine ⟨_, _, rfl, fun fuel => hspin fuel _ ⟨rfl, _, rfl, rfl⟩, ?_⟩
  rintro ⟨fuel, s', hrun, -⟩
  rw [hspin fuel _ ⟨rfl, _, rfl, rfl⟩] at hrun
  cases hrun

end Drain

end Apogee
