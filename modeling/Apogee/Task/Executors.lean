import Mathlib.Algebra.BigOperators.Group.Finset.Basic
import Mathlib.Algebra.GroupWithZero.Nat
import Apogee.Task.Wakeup

/-!
# Several executors and the task counter

Any number of executors are created, used and dropped, each as in `ExecutorState`, and all note
their tasks in the one `SCHEDULER`. A poll of one executor may use, create and drop others, so their
steps mix in any way. Beside the executors, a run records how many tasks were spawned and how many
went away with an executor that was dropped.

* `owned_step`: one step of one executor changes the tasks it owns as it changes the counter.
* `Inv`: `tasks_alive` is the number of tasks owned plus the tasks that were dropped.
* `task_counter_iff`: so between operations it is the number of tasks owned if and only if no
  executor was dropped with tasks. `Drop` of an executor does not note its tasks as completed.
-/

namespace Apogee

open Verif

variable {F : Type} {p : Profile}

namespace ExecutorState

/-- The tasks that the counter has for an executor: those in `tasks`, and one that has been removed
but not yet noted as completed. -/
def owned (x : ExecutorState F) : Nat :=
  x.exec.taskCount + match x.pos with
    | .removed _ | .uncached _ => 1
    | _ => 0

/-- The executor with the counters as they are now. -/
def sync (x : ExecutorState F) (scheduler : Scheduler) : ExecutorState F :=
  { x with scheduler := scheduler }

variable {x x' : ExecutorState F} {e : ExecutorEvent F}

/-- How many tasks a step spawns. -/
def spawned : ExecutorEvent F → Nat
  | .spawn _ => 1
  | _ => 0

theorem spawn_scheduler {x x' : CoopExecutor F} {task : Task F} {s s' : Scheduler}
    (h : x.spawn p task s = .ok (x', s')) : s' = s.noteTaskSpawned := by
  obtain ⟨-, -, h⟩ := Panics.bind_eq_ok.mp h
  simp only at h
  split at h
  · cases h
  · obtain ⟨q, -, h⟩ := Panics.bind_eq_ok.mp h
    exact (Prod.mk.inj (Except.ok.inj h)).2.symm

/-- A step spawns a task, completes one, or leaves the tasks and the counters alone. -/
theorem owned_step (h : CacheInv x) (hst : Step p x e x') :
    (x'.owned = x.owned + 1 ∧ spawned e = 1 ∧ x'.scheduler = x.scheduler.noteTaskSpawned) ∨
    (x'.owned + 1 = x.owned ∧ spawned e = 0 ∧ x'.scheduler = x.scheduler.noteTaskCompleted) ∨
    (x'.owned = x.owned ∧ spawned e = 0 ∧ x'.scheduler = x.scheduler) := by
  cases hst with
  | @spawn task x' scheduler hpos hspawn =>
    obtain ⟨hnew, htasks, -⟩ := CoopExecutor.spawn_ok hspawn
    refine .inl ⟨?_, rfl, spawn_scheduler hspawn⟩
    have hsize : x'.taskCount = x.exec.taskCount + 1 := by
      rw [CoopExecutor.taskCount, htasks, FMap.size_insert task hnew]
      rfl
    simp [owned, hpos, hsize]
  | removeStarted hpos =>
    refine .inr (.inl ⟨?_, rfl, rfl⟩)
    simp [owned, hpos, CoopExecutor.taskCount]
  | @removeTask id hpos =>
    refine .inr (.inr ⟨?_, rfl, rfl⟩)
    simp only [owned, hpos, CoopExecutor.taskCount]
    exact FMap.size_erase (h.polled id (.inr (.inr hpos)))
  | wake _ _ hwake =>
    obtain ⟨q, -, rfl⟩ := TaskWaker.wakeTask_ok hwake
    exact .inr (.inr ⟨rfl, rfl, rfl⟩)
  | pending hpos =>
    refine .inr (.inr ⟨?_, rfl, rfl⟩)
    simp [owned, hpos, CoopExecutor.taskCount]
  | cacheWaker hpos =>
    refine .inr (.inr ⟨?_, rfl, rfl⟩)
    simp [owned, hpos, CoopExecutor.taskCount]
  | runReadyTasks hpos | popNone hpos | pop hpos | skip hpos | poll hpos | ready hpos
  | removeWaker hpos | disable hpos | halt hpos | enable hpos | interrupt hpos =>
    refine .inr (.inr ⟨?_, rfl, rfl⟩)
    simp [owned, hpos, CoopExecutor.taskCount]

/-- The counter after a step, where `n` tasks are owned by all executors before it, `m` after it,
and `d` are gone. -/
theorem count_step (h : CacheInv x) (hst : Step p x e x') {n m d : Nat}
    (hsum : m + x.owned = n + x'.owned)
    (halive : x.scheduler.tasksAlive = UInt64.ofNat (n + d)) :
    x'.scheduler.tasksAlive = UInt64.ofNat (m + d) ∧ m + d ≤ n + d + spawned e := by
  obtain ⟨ho, hs, hsched⟩ | ⟨ho, hs, hsched⟩ | ⟨ho, hs, hsched⟩ := owned_step h hst
  · have hm : m + d = n + d + 1 := by omega
    refine ⟨?_, by omega⟩
    rw [hsched, hm, UInt64.ofNat_add, ← halive]
    rfl
  · have hn : n + d = m + d + 1 := by omega
    refine ⟨?_, by omega⟩
    rw [hsched]
    show x.scheduler.tasksAlive - 1 = _
    rw [halive, hn, UInt64.ofNat_add]
    exact UInt64.add_sub_cancel _ _
  · have hm : m + d = n + d := by omega
    exact ⟨by rw [hsched, hm, halive], by omega⟩

end ExecutorState

/-- The executors by the order of their creation, with the counters they share. -/
structure Executors (F : Type) where
  execs : Nat → Option (ExecutorState F)
  created : Nat
  scheduler : Scheduler
  /-- How many tasks were spawned. -/
  spawns : Nat
  /-- How many tasks went away with an executor. -/
  dropped : Nat

inductive ExecutorsEvent (F : Type) where
  | create
  | run (i : Nat) (e : ExecutorEvent F)
  | drop (i : Nat)
  | background

namespace Executors

inductive Step (p : Profile) : Executors F → ExecutorsEvent F → Executors F → Prop
  | create {st : Executors F} {x : ExecutorState F} : (ExecutorState.system p F).init x →
      Step p st .create { st with
        execs := Function.update st.execs st.created (some x)
        created := st.created + 1 }
  | run {st : Executors F} {i : Nat} {x x' : ExecutorState F} {e : ExecutorEvent F} :
      st.execs i = some x → ExecutorState.Step p (x.sync st.scheduler) e x' →
      Step p st (.run i e) { st with
        execs := Function.update st.execs i (some x')
        scheduler := x'.scheduler
        spawns := st.spawns + ExecutorState.spawned e }
  | drop {st : Executors F} {i : Nat} {x : ExecutorState F} : st.execs i = some x →
      x.pos = .outside → Step p st (.drop i) { st with
        execs := Function.update st.execs i none
        dropped := st.dropped + x.exec.taskCount }
  /-- The rest of the kernel does not count tasks. -/
  | background {st : Executors F} {scheduler : Scheduler} :
      scheduler.tasksAlive = st.scheduler.tasksAlive →
      Step p st .background { st with scheduler := scheduler }

/-- The runs from boot. -/
def system (p : Profile) (F : Type) : Sys (Executors F) (ExecutorsEvent F) where
  init st := st = ⟨fun _ => none, 0, .new, 0, 0⟩
  step := Step p

/-- The sum of a number over the executors that exist. -/
def total (f : ExecutorState F → Nat) (st : Executors F) : Nat :=
  ∑ i ∈ Finset.range st.created, (st.execs i).elim 0 f

/-- `tasks_alive` counts the tasks owned and the tasks dropped. -/
structure Inv (st : Executors F) : Prop where
  alive : st.scheduler.tasksAlive = UInt64.ofNat (st.total ExecutorState.owned + st.dropped)
  le_spawns : st.total ExecutorState.owned + st.dropped ≤ st.spawns
  lt_created : ∀ i x, st.execs i = some x → i < st.created
  cache : ∀ i x, st.execs i = some x → x.CacheInv

variable {st st' : Executors F} {e : ExecutorsEvent F} {x : ExecutorState F} {i : Nat}

/-- How a sum changes when one executor moves from `x` to `v`. -/
theorem total_update (f : ExecutorState F → Nat) (v : Option (ExecutorState F))
    (hi : i < st.created) (hx : st.execs i = some x) :
    ∑ j ∈ Finset.range st.created, (Function.update st.execs i v j).elim 0 f + f x =
      st.total f + v.elim 0 f := by
  have hmem : i ∈ Finset.range st.created := Finset.mem_range.mpr hi
  have hnew := Finset.add_sum_erase _ (fun j => (Function.update st.execs i v j).elim 0 f) hmem
  have hold := Finset.add_sum_erase _ (fun j => (st.execs j).elim 0 f) hmem
  have hrest : ∑ j ∈ (Finset.range st.created).erase i, (Function.update st.execs i v j).elim 0 f =
      ∑ j ∈ (Finset.range st.created).erase i, (st.execs j).elim 0 f := by
    apply Finset.sum_congr rfl
    intro j hj
    rw [Function.update_of_ne (Finset.ne_of_mem_erase hj)]
  simp only [Function.update_self, hx, Option.elim_some] at hnew hold
  unfold total
  omega

/-- One executor has at most the sum. -/
theorem le_total (f : ExecutorState F → Nat) (hi : i < st.created) (hx : st.execs i = some x) :
    f x ≤ st.total f := by
  have := total_update f none hi hx
  simp only [Option.elim_none] at this
  omega

/-- A new executor at the end adds its own number. -/
theorem total_create (st : Executors F) (f : ExecutorState F → Nat) (x : ExecutorState F) :
    ∑ j ∈ Finset.range (st.created + 1), (Function.update st.execs st.created (some x) j).elim 0 f =
      st.total f + f x := by
  rw [Finset.sum_range_succ, Function.update_self, Option.elim_some]
  congr 1
  apply Finset.sum_congr rfl
  intro j hj
  rw [Function.update_of_ne (Nat.ne_of_lt (Finset.mem_range.mp hj))]

/-- What holds of each executor that exists still does after one of them moved. -/
theorem forall_update {execs : Nat → Option (ExecutorState F)}
    {P : Nat → ExecutorState F → Prop} {v : Option (ExecutorState F)}
    (h : ∀ j x, execs j = some x → P j x) (hv : ∀ x, v = some x → P i x) (j : Nat)
    (y : ExecutorState F) (hy : Function.update execs i v j = some y) : P j y := by
  by_cases hj : j = i
  · subst hj
    rw [Function.update_self] at hy
    exact hv y hy
  · rw [Function.update_of_ne hj] at hy
    exact h j y hy

theorem Inv.step (h : Inv st) (hst : Step p st e st') : Inv st' := by
  obtain ⟨halive, hle, hlt, hcache⟩ := h
  cases hst with
  | @create x hx =>
    obtain ⟨scheduler, owner, rfl⟩ := hx
    have hsum := total_create st ExecutorState.owned
      ⟨.new, scheduler, .outside, fun _ => false, 0, owner, fun _ => false⟩
    refine ⟨?_, ?_, ?_, ?_⟩
    · rw [halive]
      exact congrArg (fun n => UInt64.ofNat (n + st.dropped)) hsum.symm
    · exact (congrArg (· + st.dropped) hsum).trans_le hle
    · exact forall_update (fun j y hy => Nat.lt_succ_of_lt (hlt j y hy))
        fun y _ => Nat.lt_succ_self _
    · refine forall_update hcache ?_
      rintro y ⟨⟩
      exact (ExecutorState.inv_reach (p := p) (.init ⟨scheduler, owner, rfl⟩)).2.1
  | @run i x x' e hx hstep =>
    have hi := hlt i x hx
    have hc : (x.sync st.scheduler).CacheInv :=
      ⟨(hcache i x hx).cached, (hcache i x hx).started, (hcache i x hx).waker,
        (hcache i x hx).polled⟩
    have hsum := total_update ExecutorState.owned (some x') hi hx
    simp only [Option.elim_some] at hsum
    obtain ⟨hcount, hbound⟩ := ExecutorState.count_step hc hstep hsum halive
    refine ⟨hcount, ?_, forall_update hlt fun _ _ => hi, forall_update hcache ?_⟩
    · exact hbound.trans (Nat.add_le_add_right hle _)
    · rintro y ⟨⟩
      exact hc.step hstep
  | @drop i x hx hpos =>
    have hsum := total_update ExecutorState.owned none (hlt i x hx) hx
    have howned : x.owned = x.exec.taskCount := by simp [ExecutorState.owned, hpos]
    have hnew : ∑ j ∈ Finset.range st.created,
        (Function.update st.execs i none j).elim 0 ExecutorState.owned +
          (st.dropped + x.exec.taskCount) = st.total ExecutorState.owned + st.dropped := by
      simp only [Option.elim_none] at hsum
      omega
    have hgone (y : ExecutorState F) : none ≠ some y := nofun
    refine ⟨?_, ?_, forall_update hlt fun y hy => absurd hy (hgone y),
      forall_update hcache fun y hy => absurd hy (hgone y)⟩
    · exact halive.trans (congrArg UInt64.ofNat hnew.symm)
    · exact hnew.trans_le hle
  | background hs => exact ⟨hs.trans halive, hle, hlt, hcache⟩

theorem inv_reach (h : (system p F).Reach st) : Inv st := by
  refine Sys.Preserved.reach (I := Inv) ⟨?_, fun _ _ _ _ hi hst => hi.step hst⟩ h
  rintro st rfl
  exact ⟨rfl, Nat.le_refl _, fun _ _ h => (by cases h), fun _ _ h => (by cases h)⟩

/-- The state is between operations: no executor is inside a call. -/
def Between (st : Executors F) : Prop := ∀ i x, st.execs i = some x → x.pos = .outside

/-- The tasks that the executors own. -/
def tasksOwned (st : Executors F) : Nat := st.total fun x => x.exec.taskCount

theorem Between.total_owned (h : Between st) : st.total ExecutorState.owned = st.tasksOwned := by
  apply Finset.sum_congr rfl
  intro i _
  cases hx : st.execs i with
  | none => rfl
  | some x => simp [ExecutorState.owned, h i x hx]

/-- One executor was created and one task spawned into it. -/
theorem one_task : ∃ (st : Executors Unit) (x : ExecutorState Unit),
    (system .dev Unit).Reach st ∧ st.execs = Function.update (fun _ => none) 0 (some x) ∧
      x.pos = .outside ∧ st.scheduler.tasksAlive = 1 ∧ st.spawns = 1 ∧ st.dropped = 0 := by
  have h0 : (system .dev Unit).Reach ⟨fun _ => none, 0, .new, 0, 0⟩ := .init rfl
  have h1 := h0.step (.create ⟨.new, fun _ => 0, rfl⟩)
  have h2 := h1.step (@Step.run _ _ _ 0 _ _ _ rfl
    (@ExecutorState.Step.spawn _ _ _ ⟨⟨0⟩, ()⟩ _ _ rfl rfl))
  exact ⟨_, _, h2, Function.update_idem _ _ _, rfl, rfl, rfl, rfl⟩

/-- In a run with fewer than `2 ^ 64` tasks, `tasks_alive` is above zero whenever a completed task
is taken off it, and between operations it is the number of tasks that the executors own if and
only if no task went away with its executor. -/
theorem task_counter_iff (p : Profile) (F : Type) (st : Executors F)
    (h : (system p F).Reach st) (hn : st.spawns < 2 ^ 64) :
    (∀ i x id, st.execs i = some x → x.pos = .uncached id → 0 < st.scheduler.tasksAlive.toNat) ∧
    (Between st → (st.scheduler.tasksAlive.toNat = st.tasksOwned ↔ st.dropped = 0)) := by
  have hi := inv_reach h
  have hle := hi.le_spawns
  have halive : st.scheduler.tasksAlive.toNat = st.total ExecutorState.owned + st.dropped := by
    rw [hi.alive, UInt64.toNat_ofNat_of_lt' (Nat.lt_of_le_of_lt hle hn)]
  refine ⟨fun i x id hx hpos => ?_, fun hb => ?_⟩
  · have hone := le_total ExecutorState.owned (hi.lt_created i x hx) hx
    have : 0 < x.owned := by simp [ExecutorState.owned, hpos]
    omega
  · rw [halive, hb.total_owned]
    omega

/-- Two executors with a task each, and a third one that was dropped without tasks: both tasks are
counted. -/
theorem task_counter_iff_two : ∃ st : Executors Unit, (system .dev Unit).Reach st ∧
    st.created = 3 ∧ st.spawns < 2 ^ 64 ∧ Between st ∧ st.dropped = 0 ∧
      st.scheduler.tasksAlive.toNat = 2 ∧ st.scheduler.tasksAlive.toNat = st.tasksOwned := by
  have h0 : (system .dev Unit).Reach ⟨fun _ => none, 0, .new, 0, 0⟩ := .init rfl
  have h1 := h0.step (.create ⟨.new, fun _ => 0, rfl⟩)
  have h2 := h1.step (.create ⟨.new, fun _ => 0, rfl⟩)
  have h3 := h2.step (@Step.run _ _ _ 0 _ _ _ rfl
    (@ExecutorState.Step.spawn _ _ _ ⟨⟨0⟩, ()⟩ _ _ rfl rfl))
  have h4 := h3.step (@Step.run _ _ _ 1 _ _ _ rfl
    (@ExecutorState.Step.spawn _ _ _ ⟨⟨1⟩, ()⟩ _ _ rfl rfl))
  have h5 := h4.step (.create ⟨.new, fun _ => 0, rfl⟩)
  have h6 := h5.step (@Step.drop _ _ _ 2 _ rfl rfl)
  have hcount := task_counter_iff _ _ _ h6 (by decide)
  suffices hb : Between _ from
    ⟨_, h6, rfl, by decide, hb, rfl, rfl, (hcount.2 hb).mpr rfl⟩
  -- each step leaves the executor it touches outside run_ready_tasks
  intro i x hx
  have houtside : ∀ x y : ExecutorState Unit, x.pos = .outside → some x = some y →
      y.pos = .outside := fun x y hout hxy => Option.some.inj hxy ▸ hout
  refine forall_update (P := fun _ x => x.pos = .outside) ?_ ?_ i x hx
  · iterate 5 refine forall_update ?_ (fun y => houtside _ y rfl)
    exact fun _ _ h => nomatch h
  · exact fun _ h => nomatch h

/-- The executor is dropped with its task: no executor is left, and one task counts as alive. -/
theorem dropped_task_counts : ∃ st : Executors Unit, (system .dev Unit).Reach st ∧
    st.spawns < 2 ^ 64 ∧ (∀ i, st.execs i = none) ∧ st.tasksOwned = 0 ∧
      st.scheduler.tasksAlive.toNat = 1 := by
  obtain ⟨st, x, hr, hexecs, hpos, halive, hspawns, -⟩ := one_task
  have hx : st.execs 0 = some x := by rw [hexecs, Function.update_self]
  have hnone : Function.update st.execs 0 none = fun _ => none := by
    rw [hexecs, Function.update_idem]
    exact Function.update_eq_self 0 _
  refine ⟨_, hr.step (.drop hx hpos), ?_, fun i => congrFun hnone i, ?_, ?_⟩
  · show st.spawns < 2 ^ 64
    rw [hspawns]
    decide
  · show ∑ i ∈ Finset.range st.created, (Function.update st.execs 0 none i).elim 0 _ = 0
    rw [hnone]
    exact Finset.sum_const_zero
  · show st.scheduler.tasksAlive.toNat = 1
    rw [halive]
    rfl

end Executors

end Apogee
