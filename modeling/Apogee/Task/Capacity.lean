import Apogee.Task.Wakeup

/-!
# The capacity of the ready queue

The queue has room for `TASK_QUEUE_CAPACITY` ids. A wake puts its id there whether or not the id is
queued already and whether or not its task still runs, so the ids queued are not bounded by the
tasks alive.

* `sparing`: the runs with at most so many tasks alive in which a task is woken only while it is
  alive and not queued, and returns `Ready` only while it is not queued.
* `queue_suffices`: in these runs no push fails, from a spawn or from a wake.
* `self_wake_overflows`: one task that wakes itself a hundred times in one poll fills the queue, and
  the next wake panics.
-/

namespace Apogee.ExecutorState

open Verif

variable {F : Type} {p : Profile} {st st' : ExecutorState F} {e : ExecutorEvent F}

/-- At most `TASK_QUEUE_CAPACITY` tasks are alive. -/
def Bounded (st : ExecutorState F) : ExecutorEvent F → Prop
  | .spawn _ => st.exec.taskCount < taskQueueCapacity
  | _ => True

/-- A wake is of a task that is alive and not queued, and a task returns `Ready` while it is not
queued. -/
def WakesOnce (st : ExecutorState F) : ExecutorEvent F → Prop
  | .wake w => w.taskId ∈ st.exec.tasks ∧ st.pos ≠ .ready w.taskId ∧
      w.taskId ∉ st.exec.taskQueue.elems
  | .ready => ∀ id, st.pos = .polling id → id ∉ st.exec.taskQueue.elems
  | _ => True

/-- The runs with at most `TASK_QUEUE_CAPACITY` tasks alive. -/
abbrev bounded (p : Profile) (F : Type) : Sys (ExecutorState F) (ExecutorEvent F) :=
  (system p F).restrict Bounded

/-- Those in which no wake is for nothing. -/
abbrev sparing (p : Profile) (F : Type) : Sys (ExecutorState F) (ExecutorEvent F) :=
  (system p F).restrict fun st e => Bounded st e ∧ WakesOnce st e

/-- The queue has each id once, of tasks that are alive. -/
structure QueueInv (st : ExecutorState F) : Prop where
  nodup : st.exec.taskQueue.elems.Nodup
  live : ∀ id ∈ st.exec.taskQueue.elems, id ∈ st.exec.tasks ∧ st.pos ≠ .ready id
  bound : st.exec.taskCount ≤ taskQueueCapacity

/-- A step that leaves the queue and its tasks alone. -/
theorem QueueInv.keep (h : QueueInv st) (hq : st'.exec.taskQueue = st.exec.taskQueue)
    (htasks : ∀ id ∈ st.exec.taskQueue.elems, id ∈ st'.exec.tasks)
    (hpos : ∀ id ∈ st.exec.taskQueue.elems, st'.pos ≠ .ready id)
    (hcount : st'.exec.taskCount ≤ st.exec.taskCount) : QueueInv st' := by
  refine ⟨by rw [hq]; exact h.nodup, fun id hid => ?_, hcount.trans h.bound⟩
  rw [hq] at hid
  exact ⟨htasks id hid, hpos id hid⟩

/-- A push of an id that is not queued. -/
theorem QueueInv.push (h : QueueInv st) {id : TaskId}
    (hq : st.exec.taskQueue.push id = some st'.exec.taskQueue)
    (hid : id ∉ st.exec.taskQueue.elems) (hmem : id ∈ st'.exec.tasks)
    (htasks : ∀ a ∈ st.exec.tasks, a ∈ st'.exec.tasks) (hpos : st'.pos = st.pos)
    (hready : st.pos ≠ .ready id) (hbound : st'.exec.taskCount ≤ taskQueueCapacity) :
    QueueInv st' := by
  refine ⟨?_, fun a ha => ?_, hbound⟩
  · rw [BQueue.push_elems hq]
    exact List.nodup_append_comm.mp (List.nodup_cons.mpr ⟨hid, h.nodup⟩)
  · rw [hpos]
    obtain ha | rfl := (BQueue.mem_push hq).mp ha
    · exact ⟨htasks a (h.live a ha).1, (h.live a ha).2⟩
    · exact ⟨hmem, hready⟩

theorem QueueInv.step (h : QueueInv st) (hb : Bounded st e) (hw : WakesOnce st e)
    (hst : Step p st e st') : QueueInv st' := by
  have hlive : ∀ id ∈ st.exec.taskQueue.elems, id ∈ st.exec.tasks := fun id hid => (h.live id hid).1
  cases hst with
  | @spawn task x scheduler hpos hspawn =>
    obtain ⟨hnew, htasks, hpush, -⟩ := CoopExecutor.spawn_ok hspawn
    refine h.push hpush (fun hq => hnew (hlive _ hq)) ?_ (fun a ha => ?_) rfl (by simp [hpos]) ?_
    · show task.id ∈ x.tasks
      rw [htasks]
      exact Finmap.mem_insert.mpr (.inl rfl)
    · show a ∈ x.tasks
      rw [htasks]
      exact Finmap.mem_insert.mpr (.inr ha)
    · show x.tasks.size ≤ _
      rw [htasks, FMap.size_insert task hnew]
      exact hb
  | @pop id q hpos hpop =>
    have hq := BQueue.pop_elems hpop
    have hn := h.nodup
    rw [hq, List.nodup_cons] at hn
    refine ⟨hn.2, fun a ha => ?_, h.bound⟩
    exact ⟨hlive a (by rw [hq]; exact .tail _ ha), by simp⟩
  | pending hpos =>
    refine h.keep rfl (fun a ha => ?_) (by simp) (FMap.size_adjust _).le
    exact (FMap.mem_adjust _).mpr (hlive a ha)
  | @ready id hpos =>
    refine h.keep rfl hlive (fun a ha => ?_) (Nat.le_refl _)
    rintro ⟨⟩
    exact hw id hpos ha
  | @removeTask id hpos =>
    refine h.keep rfl (fun a ha => ?_) (by simp) ?_
    · refine Finmap.mem_erase.mpr ⟨?_, hlive a ha⟩
      rintro rfl
      exact (h.live _ ha).2 hpos
    · exact Finset.card_le_card (by rw [Finmap.keys_erase]; exact Finset.erase_subset _ _)
  | @wake waker x hcheck hhalt hwake =>
    obtain ⟨q, hpush, rfl⟩ := TaskWaker.wakeTask_ok hwake
    exact h.push hpush hw.2.2 hw.1 (fun _ ha => ha) rfl hw.2.1 h.bound
  | cacheWaker =>
    exact h.keep (by simp) (by simpa using hlive) (by simp) (by simp [CoopExecutor.taskCount])
  | removeWaker hpos | removeStarted hpos =>
    exact h.keep rfl hlive (by simp) (Nat.le_refl _)
  | runReadyTasks | popNone | skip | poll | disable | halt | enable | interrupt =>
    exact h.keep rfl hlive (by simp) (Nat.le_refl _)

theorem queueInv_reach (h : (sparing p F).Reach st) : QueueInv st := by
  refine Sys.Preserved.reach (I := QueueInv) ⟨?_, ?_⟩ h
  · rintro st ⟨scheduler, owner, rfl⟩
    exact ⟨List.nodup_nil, fun id hid => absurd hid List.not_mem_nil, Nat.zero_le _⟩
  · intro st e st' _ hi hst
    exact hi.step hst.1.1 hst.1.2 hst.2

/-- The pushes that may come next all find room. -/
structure PushesFit (p : Profile) (st : ExecutorState F) : Prop where
  spawn : ∀ task : Task F, Bounded st (.spawn task) → task.id ∉ st.exec.tasks →
    ∃ r, st.exec.spawn p task st.scheduler = .ok r
  wake : ∀ w, WakesOnce st (.wake w) → ∃ x, w.wakeTask st.exec = .ok x

/-- In every run with at most `TASK_QUEUE_CAPACITY` tasks alive in which no task is woken while it
is queued or finished, and none finishes while it is queued, no push onto the queue fails. -/
theorem queue_suffices (p : Profile) (F : Type) (st : ExecutorState F)
    (h : (sparing p F).Reach st) : PushesFit p st := by
  obtain ⟨hn, hlive, hbound⟩ := queueInv_reach h
  refine ⟨fun task hb hnew => ?_, fun w hw => ?_⟩
  · have hle := FMap.length_le_size hn fun id hid => (hlive id hid).1
    obtain ⟨q, hpush⟩ := st.exec.taskQueue.push_of_lt task.id (hle.trans_lt hb)
    have hget := FMap.get?_eq_none.mpr hnew
    exact ⟨_, by simp [CoopExecutor.spawn, hget, hpush]; rfl⟩
  · -- The id and the queue together are different keys of the map.
    have hcons : (w.taskId :: st.exec.taskQueue.elems).Nodup := List.nodup_cons.mpr ⟨hw.2.2, hn⟩
    have hle := FMap.length_le_size (m := st.exec.tasks) hcons (by
      intro id hid
      obtain rfl | hid := List.mem_cons.mp hid
      · exact hw.1
      · exact (hlive id hid).1)
    obtain ⟨q, hpush⟩ := st.exec.taskQueue.push_of_lt w.taskId (hle.trans hbound)
    exact ⟨_, by simp [TaskWaker.wakeTask, hpush]; rfl⟩

/-- Of two tasks the first wakes itself and stays pending, and then the second returns `Ready`. -/
theorem queue_suffices_two : ∃ st : ExecutorState Unit, (sparing .dev Unit).Reach st ∧
    st.exec.taskQueue.elems = [⟨0⟩] ∧ st.pos = .ready ⟨1⟩ ∧ PushesFit .dev st := by
  have h0 : (sparing .dev Unit).Reach ⟨.new, .new, .outside, fun _ => false, 0, fun _ => 0,
      fun _ => false⟩ := .init ⟨_, _, rfl⟩
  have h1 := h0.step_restrict (@Step.spawn _ _ _ ⟨⟨0⟩, ()⟩ _ _ rfl rfl)
    ⟨by show CoopExecutor.taskCount _ < _; decide, trivial⟩
  have h2 := h1.step_restrict (@Step.spawn _ _ _ ⟨⟨1⟩, ()⟩ _ _ rfl rfl)
    ⟨by show CoopExecutor.taskCount _ < _; decide, trivial⟩
  have h3 := h2.step_restrict (.runReadyTasks rfl) ⟨trivial, trivial⟩
  -- The first task is polled. It is not queued, so its wake is not for nothing.
  have h4 := h3.step_restrict (.pop rfl rfl) ⟨trivial, trivial⟩
  have h5 := h4.step_restrict (.cacheWaker rfl rfl) ⟨trivial, trivial⟩
  have h6 := h5.step_restrict (.poll rfl) ⟨trivial, trivial⟩
  have h7 := h6.step_restrict (@Step.wake _ _ _ ⟨⟨0⟩⟩ _ (fun he => by cases he)
    (fun he => by cases he) rfl) ⟨trivial, by decide, (fun he => by cases he), by decide⟩
  have h8 := h7.step_restrict (@Step.pending _ _ _ _ () rfl) ⟨trivial, trivial⟩
  -- The second task.
  have h9 := h8.step_restrict (.pop rfl rfl) ⟨trivial, trivial⟩
  have h10 := h9.step_restrict (.cacheWaker rfl rfl) ⟨trivial, trivial⟩
  have h11 := h10.step_restrict (.poll rfl) ⟨trivial, trivial⟩
  have h12 := h11.step_restrict (.ready rfl) ⟨trivial, fun id hid => by cases hid; decide⟩
  exact ⟨_, h12, rfl, rfl, queue_suffices _ _ _ h12⟩

/-! ## A task that wakes itself -/

/-- The only task is being polled and has woken itself `k` times. -/
theorem self_wakes (k : Nat) (hk : k ≤ taskQueueCapacity) : ∃ st : ExecutorState Unit,
    (bounded .dev Unit).Reach st ∧ st.pos = .polling ⟨0⟩ ∧ st.exec.taskCount = 1 ∧
      st.exec.taskQueue.elems.length = k := by
  induction k with
  | zero =>
    have h0 : (bounded .dev Unit).Reach ⟨.new, .new, .outside, fun _ => false, 0, fun _ => 0,
        fun _ => false⟩ := .init ⟨_, _, rfl⟩
    have h1 := h0.step_restrict (@Step.spawn _ _ _ ⟨⟨0⟩, ()⟩ _ _ rfl rfl)
      (by show CoopExecutor.taskCount _ < _; decide)
    have h2 := h1.step_restrict (.runReadyTasks rfl) trivial
    have h3 := h2.step_restrict (.pop rfl rfl) trivial
    have h4 := h3.step_restrict (.cacheWaker rfl rfl) trivial
    have h5 := h4.step_restrict (.poll rfl) trivial
    exact ⟨_, h5, rfl, by decide, rfl⟩
  | succ k ih =>
    obtain ⟨st, h, hpos, hcount, hlen⟩ := ih (Nat.le_of_succ_le hk)
    obtain ⟨q, hpush⟩ := st.exec.taskQueue.push_of_lt ⟨0⟩ (by rw [hlen]; exact hk)
    have hwake : (⟨⟨0⟩⟩ : TaskWaker).wakeTask st.exec = .ok { st.exec with taskQueue := q } := by
      simp [TaskWaker.wakeTask, hpush]
    refine ⟨_, h.step_restrict (.wake (by simp [hpos]) (by simp [hpos]) hwake) trivial, hpos,
      hcount, ?_⟩
    show q.elems.length = k + 1
    rw [BQueue.push_elems hpush, List.length_append, hlen]
    rfl

/-- One task is alive. It wakes itself a hundred times in one poll; the next wake panics. -/
theorem self_wake_overflows : ∃ st : ExecutorState Unit, (bounded .dev Unit).Reach st ∧
    st.exec.taskCount = 1 ∧ st.pos = .polling ⟨0⟩ ∧
    (⟨⟨0⟩⟩ : TaskWaker).wakeTask st.exec = .error "task_queue full" := by
  obtain ⟨st, h, hpos, hcount, hlen⟩ := self_wakes taskQueueCapacity (Nat.le_refl _)
  refine ⟨st, h, hcount, hpos, ?_⟩
  simp [TaskWaker.wakeTask, BQueue.push_eq_none hlen, expect]
  rfl

end Apogee.ExecutorState
