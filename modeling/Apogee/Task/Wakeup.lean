import Apogee.Task.Executor

/-!
# Wake-ups and polls of the executor

Every run of the executor, with wakes at any point, keeps three groups of facts.

* `WakeInv`: a task that was spawned or woken since its last poll began is in the ready queue, and
  the CPU is not halted with a queue that is not empty. No wake can come between the check of the
  queue and the `hlt`.
* `CacheInv`: a waker is cached, and a task noted as started, only for a task that is there, except
  in the lines that remove them one after the other.
* `TaskInv`: a task that has returned `Ready` leaves `tasks` before the next poll, so a copy of its
  id that is still queued is skipped, or means a later task with the same id.

`wakeup_safe` has the three together.
-/

namespace Apogee

open Verif

variable {F : Type} {p : Profile}

namespace CoopExecutor

variable {x x' : CoopExecutor F} {task : Task F} {scheduler scheduler' : Scheduler} {id a : TaskId}

/-- What a `spawn` that does not panic has done. -/
theorem spawn_ok (h : x.spawn p task scheduler = .ok (x', scheduler')) :
    task.id ∉ x.tasks ∧ x'.tasks = x.tasks.insert task.id task ∧
    x.taskQueue.push task.id = some x'.taskQueue ∧ x'.wakerCache = x.wakerCache ∧
    x'.startedTasks = x.startedTasks := by
  obtain ⟨-, -, h⟩ := Panics.bind_eq_ok.mp h
  simp only at h
  split at h
  · cases h
  · next hnew =>
    obtain ⟨q, hpush, h⟩ := Panics.bind_eq_ok.mp h
    obtain ⟨rfl, -⟩ := Prod.mk.inj (Except.ok.inj h)
    rw [Option.not_isSome_iff_eq_none] at hnew
    exact ⟨FMap.get?_eq_none.mp hnew, rfl, expect_eq_ok.mp hpush, rfl, rfl⟩

@[simp, grind =] theorem cacheWaker_tasks : (x.cacheWaker id).tasks = x.tasks := by
  unfold cacheWaker; split <;> rfl

@[simp, grind =] theorem cacheWaker_taskQueue : (x.cacheWaker id).taskQueue = x.taskQueue := by
  unfold cacheWaker; split <;> rfl

@[simp, grind =] theorem cacheWaker_startedTasks :
    (x.cacheWaker id).startedTasks = x.startedTasks := by
  unfold cacheWaker; split <;> rfl

/-- The cache has one more waker at most, that of the task itself. -/
theorem get?_cacheWaker {w : TaskWaker} (h : (x.cacheWaker id).wakerCache.get? a = some w) :
    x.wakerCache.get? a = some w ∨ a = id ∧ w = ⟨id⟩ := by
  unfold cacheWaker at h
  split at h
  · exact .inl h
  · simp only [FMap.get?_insert] at h
    split at h
    · next ha => exact .inr ⟨ha, (Option.some.inj h).symm⟩
    · exact .inl h

end CoopExecutor

theorem TaskWaker.wakeTask_ok {w : TaskWaker} {x x' : CoopExecutor F} (h : w.wakeTask x = .ok x') :
    ∃ q, x.taskQueue.push w.taskId = some q ∧ x' = { x with taskQueue := q } := by
  obtain ⟨q, hpush, h⟩ := Panics.bind_eq_ok.mp h
  exact ⟨q, expect_eq_ok.mp hpush, (Except.ok.inj h).symm⟩

namespace ExecutorState

variable {st st' : ExecutorState F} {e : ExecutorEvent F}

/-! ## The ready queue -/

structure WakeInv (st : ExecutorState F) : Prop where
  queued : ∀ id, st.woken id = true → id ∈ st.exec.taskQueue.elems
  halted : st.pos = .halted → st.exec.taskQueue.elems = []

/-- A push of an id, together with the note that its task is woken. -/
theorem WakeInv.push (h : WakeInv st) {id : TaskId} (hq : st.exec.taskQueue.push id =
      some st'.exec.taskQueue) (hwoken : st'.woken = Function.update st.woken id true)
    (hpos : st'.pos ≠ .halted) : WakeInv st' := by
  refine ⟨fun a ha => ?_, fun hh => absurd hh hpos⟩
  rw [BQueue.mem_push hq]
  by_cases hid : a = id
  · exact .inr hid
  · rw [hwoken, Function.update_of_ne hid] at ha
    exact .inl (h.queued a ha)

/-- A step outside the queue. -/
theorem WakeInv.keep (h : WakeInv st) (hq : st'.exec.taskQueue = st.exec.taskQueue)
    (hwoken : st'.woken = st.woken) (hpos : st'.pos ≠ .halted) : WakeInv st' := by
  refine ⟨fun a ha => ?_, fun hh => absurd hh hpos⟩
  rw [hq]
  rw [hwoken] at ha
  exact h.queued a ha

theorem WakeInv.step (h : WakeInv st) (hst : Step p st e st') : WakeInv st' := by
  cases hst with
  | spawn hpos hspawn =>
    obtain ⟨-, -, hpush, -⟩ := CoopExecutor.spawn_ok hspawn
    exact h.push hpush rfl (by simp [hpos])
  | @pop id q hpos hpop =>
    refine ⟨fun a ha => ?_, fun hh => (by cases hh)⟩
    by_cases hid : a = id
    · subst hid
      simp at ha
    · simp only [Function.update_of_ne hid] at ha
      exact BQueue.mem_of_pop hpop (h.queued a ha) hid
  | wake _ hhalt hwake =>
    obtain ⟨q, hpush, rfl⟩ := TaskWaker.wakeTask_ok hwake
    exact h.push hpush rfl hhalt
  | halt _ hempty => exact ⟨h.queued, fun _ => BQueue.isEmpty_iff.mp hempty⟩
  | cacheWaker => exact h.keep (by simp) rfl (by simp)
  | runReadyTasks | popNone | skip | poll | pending | ready | removeTask | removeWaker
  | removeStarted | disable | enable | interrupt => exact h.keep rfl rfl (by simp)

/-! ## The waker cache -/

structure CacheInv (st : ExecutorState F) : Prop where
  cached : ∀ id, id ∈ st.exec.wakerCache → id ∈ st.exec.tasks ∨ st.pos = .removed id
  started : ∀ id, id ∈ st.exec.startedTasks →
    id ∈ st.exec.tasks ∨ st.pos = .removed id ∨ st.pos = .uncached id
  waker : ∀ id w, st.exec.wakerCache.get? id = some w → w.taskId = id
  /-- The task in whose poll the executor is. -/
  polled : ∀ id, st.pos = .cached id ∨ st.pos = .polling id ∨ st.pos = .ready id →
    id ∈ st.exec.tasks

/-- A step that leaves the maps alone, from outside the lines that remove a task. -/
theorem CacheInv.keep (h : CacheInv st) (htasks : st'.exec.tasks = st.exec.tasks)
    (hcache : st'.exec.wakerCache = st.exec.wakerCache)
    (hstarted : st'.exec.startedTasks = st.exec.startedTasks)
    (hpos : ∀ id, st.pos ≠ .removed id ∧ st.pos ≠ .uncached id)
    (hpolled : ∀ id, st'.pos = .cached id ∨ st'.pos = .polling id ∨ st'.pos = .ready id →
      id ∈ st.exec.tasks) : CacheInv st' := by
  refine ⟨fun id hid => ?_, fun id hid => ?_, fun id w hw => ?_, fun id hp => ?_⟩
  · rw [hcache] at hid
    rw [htasks]
    exact .inl ((h.cached id hid).resolve_right (hpos id).1)
  · rw [hstarted] at hid
    rw [htasks]
    obtain hid | hid | hid := h.started id hid
    · exact .inl hid
    · exact absurd hid (hpos id).1
    · exact absurd hid (hpos id).2
  · rw [hcache] at hw
    exact h.waker id w hw
  · rw [htasks]
    exact hpolled id hp

theorem CacheInv.step (h : CacheInv st) (hst : Step p st e st') : CacheInv st' := by
  have hinv := h
  obtain ⟨hcached, hstarted, hwaker, hpolled⟩ := h
  cases hst with
  | spawn hpos hspawn =>
    obtain ⟨-, htasks, -, hcache, hstart⟩ := CoopExecutor.spawn_ok hspawn
    constructor <;> grind [Finmap.mem_insert]
  | wake _ _ hwake =>
    obtain ⟨q, hpush, rfl⟩ := TaskWaker.wakeTask_ok hwake
    exact ⟨hcached, hstarted, hwaker, hpolled⟩
  | @cacheWaker id task hpos htask =>
    have hmem := FMap.mem_of_get? htask
    refine ⟨fun a ha => ?_, by grind, fun a w hw => ?_, by grind⟩
    · obtain ⟨w, hw⟩ := FMap.mem_iff.mp ha
      obtain hold | ⟨rfl, -⟩ := CoopExecutor.get?_cacheWaker hw
      · grind [FMap.mem_of_get?]
      · grind
    · obtain hold | ⟨rfl, rfl⟩ := CoopExecutor.get?_cacheWaker hw
      · exact hwaker a w hold
      · rfl
  | poll => constructor <;> grind
  | @ready id hpos =>
    refine hinv.keep rfl rfl rfl (by simp [hpos]) ?_
    simpa using hpolled id (.inr (.inl hpos))
  | pending => constructor <;> grind [FMap.mem_adjust]
  | removeTask => constructor <;> grind [Finmap.mem_erase]
  | removeWaker => constructor <;> grind [Finmap.mem_erase, FMap.get?_erase]
  | removeStarted => constructor <;> grind
  | runReadyTasks hpos | popNone hpos | pop hpos | skip hpos | disable hpos | halt hpos
  | enable hpos | interrupt hpos => exact hinv.keep rfl rfl rfl (by simp [hpos]) (by simp)

/-! ## Finished tasks -/

structure TaskInv (st : ExecutorState F) : Prop where
  owner_lt : ∀ id, id ∈ st.exec.tasks → st.owner id < st.spawns
  owner_inj : ∀ id id', id ∈ st.exec.tasks → id' ∈ st.exec.tasks → st.owner id = st.owner id' →
    id = id'
  finished_lt : ∀ n, st.finished n = true → n < st.spawns
  /-- A finished task is on its way out. -/
  finished : ∀ id, id ∈ st.exec.tasks → st.finished (st.owner id) = true → st.pos = .ready id

/-- A step that leaves the tasks and their numbers alone, with no finished task in hand. -/
theorem TaskInv.keep (h : TaskInv st) (htasks : st'.exec.tasks = st.exec.tasks)
    (howner : st'.owner = st.owner) (hspawns : st'.spawns = st.spawns)
    (hfinished : st'.finished = st.finished) (hpos : ∀ id, st.pos ≠ .ready id) : TaskInv st' := by
  constructor
  · rw [htasks, howner, hspawns]
    exact h.owner_lt
  · rw [htasks, howner]
    exact h.owner_inj
  · rw [hfinished, hspawns]
    exact h.finished_lt
  · rw [htasks, hfinished, howner]
    exact fun id hid hf => absurd (h.finished id hid hf) (hpos id)

theorem TaskInv.step (h : TaskInv st) (hc : CacheInv st) (hst : Step p st e st') : TaskInv st' := by
  have hinv := h
  obtain ⟨hlt, hinj, hfin, hready⟩ := h
  cases hst with
  | spawn hpos hspawn =>
    -- The new task gets a number that no other task has had.
    obtain ⟨hnew, htasks, -⟩ := CoopExecutor.spawn_ok hspawn
    constructor <;> grind [Finmap.mem_insert, Function.update_apply]
  | wake _ _ hwake =>
    obtain ⟨q, hpush, rfl⟩ := TaskWaker.wakeTask_ok hwake
    exact ⟨hlt, hinj, hfin, hready⟩
  | @ready id hpos =>
    have hmem := hc.polled id (.inr (.inl hpos))
    constructor <;> grind [Function.update_apply]
  | pending => constructor <;> grind [FMap.mem_adjust]
  | removeTask => constructor <;> grind [Finmap.mem_erase]
  | cacheWaker hpos => exact hinv.keep (by simp) rfl rfl rfl (by simp [hpos])
  | runReadyTasks hpos | popNone hpos | pop hpos | skip hpos | poll hpos | removeWaker hpos
  | removeStarted hpos | disable hpos | halt hpos | enable hpos | interrupt hpos =>
    exact hinv.keep rfl rfl rfl rfl (by simp [hpos])

theorem inv_reach (h : (system p F).Reach st) : WakeInv st ∧ CacheInv st ∧ TaskInv st := by
  refine Sys.Preserved.reach (I := fun st => WakeInv st ∧ CacheInv st ∧ TaskInv st) ⟨?_, ?_⟩ h
  · rintro st ⟨scheduler, owner, rfl⟩
    refine ⟨⟨fun id h => (by cases h), fun _ => rfl⟩, ?_, ?_⟩
    · constructor <;> simp [CoopExecutor.new, Finmap.notMem_empty]
    · constructor <;> simp [CoopExecutor.new, Finmap.notMem_empty]
  · rintro st e st' - ⟨hw, hc, ht⟩ hst
    exact ⟨hw.step hst, hc.step hst, ht.step hc hst⟩

/-- What holds in every state of a run. -/
structure WakeSafe (st : ExecutorState F) : Prop where
  /-- A live task that was spawned or woken since its last poll began is in the ready queue. -/
  queued : ∀ id, id ∈ st.exec.tasks → st.woken id = true → id ∈ st.exec.taskQueue.elems
  /-- The CPU is not halted while there is work. -/
  halted : st.pos = .halted → st.exec.taskQueue.isEmpty = true
  /-- The task being polled has not returned `Ready` before. -/
  unfinished : ∀ id, st.pos = .polling id → id ∈ st.exec.tasks ∧ st.finished (st.owner id) = false
  /-- Between two polls, wakers are cached for live tasks only. -/
  cached : st.pos.task = none → ∀ id, id ∈ st.exec.wakerCache → id ∈ st.exec.tasks
  started : st.pos.task = none → ∀ id, id ∈ st.exec.startedTasks → id ∈ st.exec.tasks

/-- Every run of an executor, with any polls and with wakes at any point, is safe. -/
theorem wakeup_safe (p : Profile) (F : Type) (st : ExecutorState F) (h : (system p F).Reach st) :
    WakeSafe st := by
  obtain ⟨hw, hc, ht⟩ := inv_reach h
  refine ⟨fun id _ => hw.queued id, fun hh => BQueue.isEmpty_iff.mpr (hw.halted hh),
    fun id hpos => ?_, fun hpos id hid => ?_, fun hpos id hid => ?_⟩
  · have hmem := hc.polled id (.inr (.inl hpos))
    refine ⟨hmem, Bool.eq_false_iff.mpr fun hfin => ?_⟩
    have hready := ht.finished id hmem hfin
    rw [hpos] at hready
    cases hready
  · obtain hmem | hrem := hc.cached id hid
    · exact hmem
    · rw [hrem] at hpos
      cases hpos
  · obtain hmem | hrem | hunc := hc.started id hid
    · exact hmem
    · rw [hrem] at hpos
      cases hpos
    · rw [hunc] at hpos
      cases hpos

/-- One task is spawned, wakes itself in its first poll and returns `Ready`. The copy of its id that
is still queued is skipped, and the CPU halts. -/
theorem wakeup_safe_halted : ∃ st : ExecutorState Unit, (system .dev Unit).Reach st ∧
    st.pos = .halted ∧ st.finished 0 = true ∧ WakeSafe st := by
  have h0 : (system .dev Unit).Reach ⟨.new, .new, .outside, fun _ => false, 0, fun _ => 0,
      fun _ => false⟩ := .init ⟨_, _, rfl⟩
  have h1 := h0.step (@Step.spawn _ _ _ ⟨⟨0⟩, ()⟩ _ _ rfl rfl)
  have h2 := h1.step (.runReadyTasks rfl)
  have h3 := h2.step (.pop rfl rfl)
  have h4 := h3.step (.cacheWaker rfl rfl)
  have h5 := h4.step (.poll rfl)
  have h6 := h5.step (@Step.wake _ _ _ ⟨⟨0⟩⟩ _ (by decide) (by decide) rfl)
  have h7 := h6.step (.ready rfl)
  have h8 := h7.step (.removeTask rfl)
  have h9 := h8.step (.removeWaker rfl)
  have h10 := h9.step (.removeStarted rfl)
  have h11 := h10.step (.pop rfl rfl)
  have h12 := h11.step (.skip rfl rfl)
  have h13 := h12.step (.popNone rfl rfl)
  have h14 := h13.step (.disable rfl)
  have h15 := h14.step (.halt rfl rfl)
  exact ⟨_, h15, rfl, rfl, wakeup_safe _ _ _ h15⟩

end ExecutorState

end Apogee
