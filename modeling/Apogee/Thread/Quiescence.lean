import Mathlib.Algebra.BigOperators.Group.Multiset.Basic
import Mathlib.Tactic.Abel
import Apogee.Thread.Consistency
import Apogee.Thread.Operations

/-!
# Driving threads to quiescence

The bootstrap thread spawns threads and then loops: `while ready_count() > 0 { yield_now() }`. A
thread's body is a script: yields and spawns of further scripts, then `exit_thread`. What a spawn
needs beside the scheduler, memory for the new thread and room on the stack of the thread that calls
it, comes from a `StackSource`. It is an arbitrary function of the state, as are the stack pointers
at yields.

* `Driven.next`: what the thread that runs does next. The bootstrap thread runs its loop.
* `Spawns`: the states in which a run from a state spawns a thread.
* `Drives st st'`: the loop from `st` ends in `st'`. The steps are a function, so this says that the
  loop terminates.
* `Inv`: what each thread has run and has yet to run is the script it was given, and what was
  spawned and is yet to be spawned is what the bootstrap thread's scripts contain.
* `next_decreases`: the measure. A yield of the bootstrap thread only moves control, so the actions
  that remain count twice.
* `drive_quiescent`: below `2 ^ 64` spawns, with what each spawn of the run needs, the loop ends and
  every script has run.
* `spins_after_wrap`: the thread after that takes the bootstrap thread's id. The loop never ends.
-/

namespace Apogee

open Verif

/-- The body of a thread. -/
inductive Script where
  | exitThread
  | yieldNow (rest : Script)
  | spawn (process : ProcessId) (child rest : Script)

/-- One thing that a thread does. -/
inductive Action where
  | exitThread
  | yieldNow
  | spawn (process : ProcessId) (child : Script)

namespace Script

/-- The actions of a script, in order. -/
def actions : Script → List Action
  | exitThread => [.exitThread]
  | yieldNow rest => .yieldNow :: rest.actions
  | spawn process child rest => .spawn process child :: rest.actions

/-- The scripts that a script spawns, and those that they spawn. -/
def offspring : Script → Multiset Script
  | exitThread => 0
  | yieldNow rest => rest.offspring
  | spawn _ child rest => {child} + child.offspring + rest.offspring

/-- The actions of a script and of its offspring. -/
def size : Script → Nat
  | exitThread => 1
  | yieldNow rest => rest.size + 1
  | spawn _ child rest => child.size + rest.size + 1

end Script

/-- The threads, with the scripts they run. -/
structure Driven where
  threads : Threads
  /-- What each thread has yet to run. -/
  scripts : ThreadId → Script
  /-- What each thread has run. -/
  ran : ThreadId → List Action
  /-- The threads spawned so far with their scripts, newest first. -/
  spawned : List (ThreadId × Script)

/-- What a call of `spawn` depends on beside the scheduler. -/
structure StackSource where
  /-- The address of the new stack, or none if one of the call's allocations fails. -/
  alloc : Driven → Option UInt64
  /-- The stack of the thread that runs has room for the call. In a dev build `KernelThread::new`
  makes the 16 KiB array there before it is moved to the heap. -/
  room : Driven → Bool

namespace StackSource

/-- A call of `spawn` gets its stack. A call without room writes below the caller's stack, and the
model says nothing about what follows. -/
def take (src : StackSource) (st : Driven) : Panics UInt64 :=
  if src.room st then expect (src.alloc st) "memory allocation of 16384 bytes failed"
  else throw "stack overflow"

/-- A call in this state gets what it needs. -/
def Supplies (src : StackSource) (st : Driven) : Prop :=
  (src.alloc st).isSome = true ∧ src.room st = true

theorem Supplies.take {src : StackSource} {st : Driven} (h : src.Supplies st) :
    ∃ stack, src.take st = .ok stack := by
  obtain ⟨stack, hstack⟩ := Option.isSome_iff_exists.mp h.1
  refine ⟨stack, ?_⟩
  unfold StackSource.take
  rw [if_pos h.2, hstack]
  rfl

end StackSource

namespace Driven

/-- No thread has been spawned yet. -/
def start (t : Threads) : Driven := ⟨t, fun _ => .exitThread, fun _ => [], []⟩

abbrev current (st : Driven) : ThreadId := st.threads.sched.current

/-- The thread that runs spawns a thread with a script, if it gets a stack. -/
def spawn (p : Profile) (stack : Panics UInt64) (process : ProcessId) (script : Script)
    (st : Driven) : Panics Driven := do
  let stack ← stack
  let (t, id) ← st.threads.spawn p process stack
  pure ⟨t, Function.update st.scripts id script, Function.update st.ran id [],
    (id, script) :: st.spawned⟩

/-- The thread that runs has done `action`, and `rest` remains. -/
def advance (st : Driven) (action : Action) (rest : Script) : Driven :=
  { st with
    scripts := Function.update st.scripts st.current rest
    ran := Function.update st.ran st.current (st.ran st.current ++ [action]) }

section

variable (p : Profile) (src : StackSource) (rsp : Driven → UInt64)

/-- `yield_now`. -/
def yieldNow (st : Driven) : Panics Driven := do
  let (t, _) ← st.threads.yieldNow (rsp st)
  pure { st with threads := t }

/-- `exit_thread`. -/
def exitThread (st : Driven) : Panics Driven := do
  let (t, _) ← st.threads.exitThread p
  pure { st with threads := t }

/-- What the thread that runs does next. -/
def next (st : Driven) : Panics Driven :=
  if st.current = bootstrapId then st.yieldNow rsp
  else
    match st.scripts st.current with
    | .exitThread => (st.advance .exitThread .exitThread).exitThread p
    | .yieldNow rest => (st.advance .yieldNow rest).yieldNow rsp
    | .spawn process child rest =>
      (st.advance (.spawn process child) rest).spawn p (src.take st) process child

/-- The test of the bootstrap thread's loop fails. -/
def Done (st : Driven) : Prop := st.current = bootstrapId ∧ st.threads.sched.readyCount = 0

/-- The bootstrap thread's loop from `st` ends in `st'`. -/
inductive Drives : Driven → Driven → Prop
  | done {st : Driven} : st.Done → Drives st st
  | next {st st₁ st' : Driven} : ¬ st.Done → st.next p src rsp = .ok st₁ → Drives st₁ st' →
      Drives st st'

/-- The bootstrap thread spawns its scripts. -/
def spawnAll (scripts : List (ProcessId × Script)) (st : Driven) : Panics Driven :=
  scripts.foldlM (fun st s => st.spawn p (src.take st) s.1 s.2) st

/-- The run from a state in which the bootstrap thread still has to spawn some scripts comes to a
spawn in the last state. -/
inductive Spawns : Driven → List (ProcessId × Script) → Driven → Prop
  | bootstrap {st : Driven} {s : ProcessId × Script} {scripts : List (ProcessId × Script)} :
      Spawns st (s :: scripts) st
  | spawned {st st₁ st' : Driven} {s : ProcessId × Script} {scripts : List (ProcessId × Script)} :
      st.spawn p (src.take st) s.1 s.2 = .ok st₁ → Spawns st₁ scripts st' →
      Spawns st (s :: scripts) st'
  | thread {st : Driven} {process : ProcessId} {child rest : Script} :
      st.current ≠ bootstrapId → st.scripts st.current = .spawn process child rest →
      Spawns st [] st
  | next {st st₁ st' : Driven} : ¬ st.Done → st.next p src rsp = .ok st₁ → Spawns st₁ [] st' →
      Spawns st [] st'

end

/-! ## What remains to be run -/

/-- The total of `f` over the scripts of the threads in `l`. The bootstrap thread has none. -/
def weigh {M : Type} [AddCommMonoid M] (f : Script → M) (scripts : ThreadId → Script)
    (l : List ThreadId) : M :=
  (l.map fun id => if id = bootstrapId then 0 else f (scripts id)).sum

section Weigh

variable {M : Type} [AddCommMonoid M] {f : Script → M} {scripts : ThreadId → Script}
  {l l' : List ThreadId} {id : ThreadId} {s : Script}

theorem weigh_perm (h : l.Perm l') : weigh f scripts l = weigh f scripts l' :=
  (h.map _).sum_eq

@[simp] theorem weigh_cons : weigh f scripts (id :: l) =
    (if id = bootstrapId then 0 else f (scripts id)) + weigh f scripts l := by
  simp [weigh]

theorem weigh_append : weigh f scripts (l ++ l') = weigh f scripts l + weigh f scripts l' := by
  simp [weigh]

theorem weigh_update (h : id ∉ l) :
    weigh f (Function.update scripts id s) l = weigh f scripts l := by
  unfold weigh
  congr 1
  apply List.map_congr_left
  intro a ha
  rw [Function.update_of_ne fun hx => h (by rwa [← hx])]

end Weigh

/-- The total of `f` over what the threads have yet to run. -/
abbrev weight {M : Type} [AddCommMonoid M] (f : Script → M) (st : Driven) : M :=
  weigh f st.scripts st.threads.sched.runnable

/-! ## The invariant -/

/-- `n` threads were spawned before the first of `st.spawned`. In the end, threads with the scripts
`total` will have been spawned; `rest` are those that no thread's script accounts for now. -/
structure Inv (n : Nat) (total rest : Multiset Script) (st : Driven) : Prop where
  traced : ∃ tags, Traced.Inv ⟨st.threads, tags, n + st.spawned.length⟩
  scripts : (st.spawned.map Prod.snd : Multiset Script) + st.weight Script.offspring + rest = total
  ids : ∀ x ∈ st.spawned, x.1.asU64.toNat ≤ n + st.spawned.length
  nodup : (st.spawned.map Prod.fst).Nodup
  live : ∀ x ∈ st.spawned, x.1 ∈ st.threads.sched.threads →
    st.ran x.1 ++ (st.scripts x.1).actions = x.2.actions
  dead : ∀ x ∈ st.spawned, x.1 ∉ st.threads.sched.threads → st.ran x.1 = x.2.actions

variable {p : Profile} {src : StackSource} {rsp : Driven → UInt64} {n : Nat}
  {total rest : Multiset Script} {st st' : Driven} {s : Script} {process : ProcessId}

theorem Inv.start {t : Threads} {tags : ThreadId → ProcessId} (h : Traced.Inv ⟨t, tags, n⟩)
    (hc : t.sched.current = bootstrapId) (hr : t.sched.ready = []) :
    Inv n total total (start t) where
  traced := ⟨tags, h⟩
  scripts := by simp [Driven.start, weight, ThreadScheduler.runnable, hc, hr, weigh]
  ids := by simp [Driven.start]
  nodup := List.nodup_nil
  live := by simp [Driven.start]
  dead := by simp [Driven.start]

/-- There is room for the threads that are still to be spawned. -/
theorem Inv.card_le (h : Inv n total rest st) :
    st.spawned.length + (st.weight Script.offspring).card + rest.card = total.card := by
  have hcard := congrArg Multiset.card h.scripts
  simpa using hcard

theorem Inv.spawn (h : Inv n total ({s} + s.offspring + rest) st) (hn : n + total.card < 2 ^ 64)
    (p : Profile) (stack : UInt64) (process : ProcessId) :
    ∃ st', st.spawn p (.ok stack) process s = .ok st' ∧ Inv n total rest st' ∧
      st'.current = st.current ∧
      ∀ {M : Type} [AddCommMonoid M] (f : Script → M), st'.weight f = st.weight f + f s := by
  obtain ⟨tags, ht⟩ := h.traced
  have hcard := h.card_le
  simp only [Multiset.card_add, Multiset.card_singleton] at hcard
  have hs : n + st.spawned.length + 1 < 2 ^ 64 := by omega
  obtain ⟨t, id, he⟩ : ∃ t id, st.threads.spawn p process stack = .ok (t, id) :=
    ⟨_, _, ht.spawn_eq process stack (show n + st.spawned.length < 2 ^ 64 by omega)⟩
  have hi := ht.spawn hs he
  have hnew := ht.nextId_notMem_runnable hs
  have hboot := ht.nextId_ne_bootstrapId hs
  have hnext : id.asU64.toNat = n + st.spawned.length + 1 := by
    rw [(Threads.spawn_cases he).1]
    exact ht.nextId hs
  rw [← (Threads.spawn_cases he).1] at hnew hboot
  have hrun : t.sched.runnable = st.threads.sched.runnable ++ [id] := by
    obtain ⟨rfl, rfl⟩ := Threads.spawn_cases he
    rfl
  have hmem : ∀ a, a ∈ t.sched.threads ↔ a = id ∨ a ∈ st.threads.sched.threads := by
    obtain ⟨rfl, rfl⟩ := Threads.spawn_cases he
    exact fun a => Finmap.mem_insert
  have hcur : t.sched.current = st.current := by
    obtain ⟨rfl, rfl⟩ := Threads.spawn_cases he
    rfl
  have hids : ∀ x ∈ st.spawned, x.1 ≠ id := by
    intro x hx hxn
    have hle := h.ids x hx
    rw [hxn, hnext] at hle
    omega
  have hweight : ∀ {M : Type} [AddCommMonoid M] (f : Script → M),
      weigh f (Function.update st.scripts id s) t.sched.runnable = st.weight f + f s := by
    intro M _ f
    rw [hrun, weigh_append, weigh_update hnew]
    simp [weigh, hboot]
  have hst : st.spawn p (.ok stack) process s = .ok ⟨t, Function.update st.scripts id s,
      Function.update st.ran id [], (id, s) :: st.spawned⟩ := by
    unfold Driven.spawn
    rw [Panics.bind_ok, he]
    rfl
  refine ⟨_, hst, ⟨⟨_, hi⟩, ?_, ?_, ?_, ?_, ?_⟩, hcur, hweight⟩
  · show (((id, s) :: st.spawned).map Prod.snd : Multiset Script) +
      weigh Script.offspring (Function.update st.scripts id s) t.sched.runnable + rest = total
    rw [← h.scripts, hweight]
    simp only [List.map_cons, ← Multiset.cons_coe, ← Multiset.singleton_add]
    abel
  · intro x hx
    rcases List.mem_cons.mp hx with rfl | hx
    · simp only [hnext, List.length_cons]
      omega
    · exact Nat.le_succ_of_le (h.ids x hx)
  · refine List.nodup_cons.mpr ⟨fun hm => ?_, h.nodup⟩
    obtain ⟨x, hx, hxn⟩ := List.mem_map.mp hm
    exact hids x hx hxn
  · intro x hx hm
    rcases List.mem_cons.mp hx with rfl | hx
    · simp
    · have hne := hids x hx
      simp only [Function.update_of_ne hne]
      exact h.live x hx (((hmem _).mp hm).resolve_left hne)
  · intro x hx hm
    rcases List.mem_cons.mp hx with rfl | hx
    · exact absurd ((hmem _).mpr (.inl rfl)) hm
    · have hne := hids x hx
      simp only [Function.update_of_ne hne]
      exact h.dead x hx fun hm' => hm ((hmem _).mpr (.inr hm'))

/-- A yield rotates the runnable threads at most. -/
theorem Inv.yieldNow (h : Inv n total rest st) (rsp : Driven → UInt64) :
    ∃ st', st.yieldNow rsp = .ok st' ∧ Inv n total rest st' ∧
      (∀ {M : Type} [AddCommMonoid M] (f : Script → M), st'.weight f = st.weight f) ∧
      st'.current = st.threads.sched.ready.head?.getD st.current := by
  obtain ⟨tags, ht⟩ := h.traced
  have hstep : ∃ t loaded, st.threads.yieldNow (rsp st) = .ok (t, loaded) ∧
      t.sched.runnable.Perm st.threads.sched.runnable ∧
      (∀ a, a ∈ t.sched.threads ↔ a ∈ st.threads.sched.threads) ∧
      t.sched.current = st.threads.sched.ready.head?.getD st.current := by
    obtain ⟨hr, he⟩ | ⟨nextId, ready, loaded, hr, he⟩ := ht.yieldNow_eq (rsp st)
    · have hr : st.threads.sched.ready = [] := hr
      exact ⟨_, _, he, by simp [ThreadScheduler.runnable], by simp, by simp [hr]⟩
    · refine ⟨_, _, he, ?_, by simp, ?_⟩
      · rw [ThreadScheduler.setContext_runnable, ThreadScheduler.setCurrent_runnable,
          ThreadScheduler.runnable, hr, ← List.cons_append]
        exact List.perm_append_comm
      · rw [ThreadScheduler.setContext_current, hr]
        rfl
  obtain ⟨t, loaded, he, hperm, hmem, hcur⟩ := hstep
  have hst : st.yieldNow rsp = .ok { st with threads := t } := by
    unfold Driven.yieldNow
    rw [he]
    rfl
  refine ⟨_, hst, ⟨⟨tags, ht.yieldNow he⟩, ?_, h.ids, h.nodup, fun x hx hm => ?_,
    fun x hx hm => ?_⟩, fun f => weigh_perm hperm, hcur⟩
  · rw [← h.scripts]
    congr 2
    exact weigh_perm hperm
  · exact h.live x hx ((hmem _).mp hm)
  · exact h.dead x hx fun hm' => hm ((hmem _).mpr hm')

/-- The head of the runnable threads is the one that runs. -/
theorem Inv.current_notMem (h : Inv n total rest st) : st.current ∉ st.threads.sched.ready := by
  obtain ⟨tags, ht⟩ := h.traced
  exact (List.nodup_cons.mp ht.nodup).1

theorem weight_eq {M : Type} [AddCommMonoid M] (f : Script → M) (hb : st.current ≠ bootstrapId) :
    st.weight f = f (st.scripts st.current) + weigh f st.scripts st.threads.sched.ready := by
  rw [weight, ThreadScheduler.runnable, weigh_cons, if_neg hb]

/-- The thread that runs does one action other than its exit. What that action has to spawn moves
to `rest`. -/
theorem Inv.advance (h : Inv n total rest st) (hb : st.current ≠ bootstrapId) {action : Action}
    (r : Script) (extra : Multiset Script)
    (hact : (st.scripts st.current).actions = action :: r.actions)
    (hoff : (st.scripts st.current).offspring = extra + r.offspring) :
    Inv n total (extra + rest) (st.advance action r) ∧
      ∀ {M : Type} [AddCommMonoid M] (f : Script → M),
        (st.advance action r).weight f + f (st.scripts st.current) = st.weight f + f r := by
  have hweight : ∀ {M : Type} [AddCommMonoid M] (f : Script → M), (st.advance action r).weight f =
      f r + weigh f st.scripts st.threads.sched.ready := by
    intro M _ f
    rw [weight_eq f (show (st.advance action r).current ≠ bootstrapId from hb)]
    simp only [Driven.advance, Function.update_self]
    rw [weigh_update h.current_notMem]
  have hlog : ∀ x ∈ st.spawned, x.1 = st.current ∨
      (st.advance action r).ran x.1 = st.ran x.1 ∧
        (st.advance action r).scripts x.1 = st.scripts x.1 := by
    intro x hx
    by_cases hc : x.1 = st.current
    · exact .inl hc
    · exact .inr ⟨Function.update_of_ne hc .., Function.update_of_ne hc ..⟩
  refine ⟨⟨h.traced, ?_, h.ids, h.nodup, fun x hx hm => ?_, fun x hx hm => ?_⟩, fun f => ?_⟩
  · rw [hweight, ← h.scripts, weight_eq Script.offspring hb, hoff]
    show (st.spawned.map Prod.snd : Multiset Script) + _ + _ = _
    abel
  · obtain hc | ⟨hran, hscripts⟩ := hlog x hx
    · have hlive := h.live x hx hm
      rw [hc] at hlive ⊢
      rw [hact] at hlive
      simp only [Driven.advance, Function.update_self]
      rw [← hlive, List.append_assoc]
      rfl
    · rw [hran, hscripts]
      exact h.live x hx hm
  · obtain hc | ⟨hran, -⟩ := hlog x hx
    · -- The thread that runs is tracked.
      obtain ⟨tags, ht⟩ := h.traced
      have hm' := ((ht.mem_runnable st.current).mp (.head _)).resolve_left hb
      rw [hc] at hm
      exact absurd hm' hm
    · rw [hran]
      exact h.dead x hx hm
  · rw [hweight, weight_eq f hb]
    abel

/-- The thread that runs exits: its script is done. -/
theorem Inv.exitThread (h : Inv n total rest st) (hb : st.current ≠ bootstrapId)
    (hscript : st.scripts st.current = .exitThread) (p : Profile) :
    ∃ st', (st.advance .exitThread .exitThread).exitThread p = .ok st' ∧ Inv n total rest st' ∧
      st'.weight Script.size + 1 = st.weight Script.size := by
  obtain ⟨tags, ht⟩ := h.traced
  obtain ⟨th, nextId, ready, hth, hr⟩ := ht.exit_cases hb
  obtain ⟨loaded, he⟩ := ht.exitThread_eq (p := p) hb hth hr
  have hi := ht.exitThread hb he
  have hnot := h.current_notMem
  have hst : (st.advance .exitThread .exitThread).exitThread p =
      .ok { st.advance .exitThread .exitThread with threads := { st.threads.drainReaper with
        sched := ⟨st.threads.sched.threads.erase st.threads.sched.current, ready, nextId,
          st.threads.drainReaper.sched.bootstrapContext, some th⟩ } } := by
    unfold Driven.exitThread
    show (st.threads.exitThread p >>= _) = _
    rw [he]
    rfl
  have hweight : ∀ {M : Type} [AddCommMonoid M] (f : Script → M),
      weigh f (st.advance .exitThread .exitThread).scripts (nextId :: ready) =
        weigh f st.scripts st.threads.sched.ready := by
    intro M _ f
    simp only [← hr, Driven.advance]
    exact weigh_update hnot
  have hran : (st.advance .exitThread .exitThread).ran st.current =
      st.ran st.current ++ [.exitThread] := Function.update_self ..
  refine ⟨_, hst, ⟨⟨tags, hi⟩, ?_, h.ids, h.nodup, fun x hx hm => ?_, fun x hx hm => ?_⟩, ?_⟩
  · show (st.spawned.map Prod.snd : Multiset Script) +
      weigh Script.offspring (st.advance .exitThread .exitThread).scripts (nextId :: ready) +
        rest = total
    rw [← h.scripts, hweight, weight_eq Script.offspring hb, hscript, Script.offspring, zero_add]
  · obtain ⟨hne, hm⟩ := Finmap.mem_erase.mp hm
    simp only [Driven.advance, Function.update_of_ne hne]
    exact h.live x hx hm
  · by_cases hc : x.1 = st.current
    · have hlive := h.live x hx (by rw [hc]; exact FMap.mem_of_get? hth)
      rw [hc, hscript] at hlive
      rw [hc]
      exact hran.trans hlive
    · simp only [Driven.advance, Function.update_of_ne hc]
      exact h.dead x hx fun hm' => hm (Finmap.mem_erase.mpr ⟨hc, hm'⟩)
  · show weigh Script.size (st.advance .exitThread .exitThread).scripts (nextId :: ready) + 1 = _
    rw [hweight, weight_eq Script.size hb, hscript, Script.size, Nat.add_comm]

/-! ## Termination -/

/-- What remains, counted so that every step makes it smaller. -/
def measure (st : Driven) : Nat :=
  2 * st.weight Script.size + if st.current = bootstrapId then 1 else 0

theorem next_bootstrap (hc : st.current = bootstrapId) : st.next p src rsp = st.yieldNow rsp :=
  if_pos hc

theorem next_exitThread (hc : st.current ≠ bootstrapId)
    (hs : st.scripts st.current = .exitThread) :
    st.next p src rsp = (st.advance .exitThread .exitThread).exitThread p := by
  unfold Driven.next
  rw [if_neg hc, hs]

theorem next_yieldNow {r : Script} (hc : st.current ≠ bootstrapId)
    (hs : st.scripts st.current = .yieldNow r) :
    st.next p src rsp = (st.advance .yieldNow r).yieldNow rsp := by
  unfold Driven.next
  rw [if_neg hc, hs]

theorem next_spawn {child r : Script} (hc : st.current ≠ bootstrapId)
    (hs : st.scripts st.current = .spawn process child r) :
    st.next p src rsp =
      (st.advance (.spawn process child) r).spawn p (src.take st) process child := by
  unfold Driven.next
  rw [if_neg hc, hs]

/-- A step of a loop that is not done does not panic, keeps the invariant and leaves less to do. -/
theorem Inv.next (h : Inv n total 0 st) (hn : n + total.card < 2 ^ 64) (hd : ¬ st.Done)
    (hsupply : ∀ x, Spawns p src rsp st [] x → src.Supplies x) :
    ∃ st', st.next p src rsp = .ok st' ∧ Inv n total 0 st' ∧ st'.measure < st.measure := by
  by_cases hb : st.current = bootstrapId
  · -- The loop yields to another thread.
    rw [next_bootstrap hb]
    obtain ⟨st', he, hi, hw, hcur⟩ := h.yieldNow rsp
    refine ⟨st', he, hi, ?_⟩
    have hne : st'.current ≠ bootstrapId := by
      cases hr : st.threads.sched.ready with
      | nil => exact absurd ⟨hb, by simp [ThreadScheduler.readyCount, hr]⟩ hd
      | cons nextId ready =>
        rw [hcur, hr, ← hb]
        have hnot := h.current_notMem
        rw [hr] at hnot
        exact fun hx => hnot (by rw [← hx]; exact .head _)
    simp only [measure, hw, if_pos hb, if_neg hne]
    omega
  · have hflag : ∀ st' : Driven, st'.measure ≤ 2 * st'.weight Script.size + 1 := by
      intro st'
      unfold measure
      split <;> omega
    have hmeasure : st.measure = 2 * st.weight Script.size := by
      simp [measure, hb]
    cases hscript : st.scripts st.current with
    | exitThread =>
      rw [next_exitThread hb hscript]
      obtain ⟨st', he, hi, hw⟩ := h.exitThread hb hscript p
      refine ⟨st', he, hi, ?_⟩
      have := hflag st'
      omega
    | yieldNow r =>
      rw [next_yieldNow hb hscript]
      obtain ⟨hadv, hw⟩ := h.advance hb r 0 (by rw [hscript]; rfl)
        (by rw [hscript, zero_add]; rfl)
      obtain ⟨st', he, hi, hw', -⟩ := hadv.yieldNow rsp
      refine ⟨st', he, by simpa using hi, ?_⟩
      have := hflag st'
      have hsize := hw Script.size
      rw [hscript, Script.size] at hsize
      rw [hw'] at this
      omega
    | spawn process child r =>
      obtain ⟨hadv, hw⟩ := h.advance hb r ({child} + child.offspring)
        (by rw [hscript]; rfl) (by rw [hscript]; rfl)
      obtain ⟨stack, hstack⟩ := (hsupply st (.thread hb hscript)).take
      rw [next_spawn hb hscript, hstack]
      obtain ⟨st', he, hi, -, hw'⟩ := hadv.spawn hn p stack process
      refine ⟨st', he, hi, ?_⟩
      have := hflag st'
      have hsize := hw Script.size
      rw [hscript, Script.size] at hsize
      rw [hw'] at this
      omega

/-- The loop terminates. -/
theorem Inv.drives (h : Inv n total 0 st) (hn : n + total.card < 2 ^ 64)
    (hsupply : ∀ x, Spawns p src rsp st [] x → src.Supplies x) :
    ∃ st', Drives p src rsp st st' ∧ st'.Done ∧ Inv n total 0 st' := by
  induction hm : st.measure using Nat.strong_induction_on generalizing st with
  | _ m ih =>
    by_cases hd : st.Done
    · exact ⟨st, .done hd, hd, h⟩
    · obtain ⟨st₁, he, hi, hlt⟩ := h.next hn hd hsupply
      obtain ⟨st', hdr, hd', hi'⟩ := ih _ (hm ▸ hlt) hi (fun x hx => hsupply x (.next hd he hx)) rfl
      exact ⟨st', .next hd he hdr, hd', hi'⟩

/-- The scripts that the bootstrap thread spawns, with their offspring. -/
def family (scripts : List (ProcessId × Script)) : Multiset Script :=
  (scripts.map fun s => {s.2} + s.2.offspring).sum

theorem Inv.spawnAll {scripts : List (ProcessId × Script)}
    (h : Inv n total (family scripts + rest) st) (hn : n + total.card < 2 ^ 64)
    (hsupply : ∀ x, Spawns p src rsp st scripts x → src.Supplies x) :
    ∃ st', st.spawnAll p src scripts = .ok st' ∧ Inv n total rest st' ∧
      ∀ x, Spawns p src rsp st' [] x → src.Supplies x := by
  induction scripts generalizing st with
  | nil => exact ⟨st, rfl, by simpa [family] using h, hsupply⟩
  | cons s scripts ih =>
    have hfamily :
        family (s :: scripts) + rest = {s.2} + s.2.offspring + (family scripts + rest) := by
      simp only [family, List.map_cons, List.sum_cons]
      abel
    rw [hfamily] at h
    obtain ⟨stack, hstack⟩ := (hsupply st .bootstrap).take
    obtain ⟨st₁, he, hi, -⟩ := h.spawn hn p stack s.1
    rw [← hstack] at he
    obtain ⟨st', he', hi', hsupply'⟩ := ih hi fun x hx => hsupply x (.spawned he hx)
    refine ⟨st', ?_, hi', hsupply'⟩
    unfold Driven.spawnAll
    rw [List.foldlM_cons, he]
    exact he'

/-- The loop's end: all scripts have run, and only the bootstrap thread is left. -/
structure Finished (start : Threads) (scripts : List (ProcessId × Script)) (st : Driven) :
    Prop where
  current : st.current = bootstrapId
  ready : st.threads.sched.ready = []
  threads : st.threads.sched.threadCount = 0
  /-- Every script and every script it spawns was given to one thread. -/
  spawned : (st.spawned.map Prod.snd : Multiset Script) = family scripts
  nodup : (st.spawned.map Prod.fst).Nodup
  /-- Every thread has run its script, once and in order. -/
  ran : ∀ x ∈ st.spawned, st.ran x.1 = x.2.actions
  /-- One more yield frees the last thread. One that waited in the reaper slot before the first
  spawn is gone too. -/
  reaped : ∀ rsp, ∃ t, st.threads.yieldNow rsp = .ok (t, none) ∧ t.sched.reaper = none ∧
    t.scheduler.threadsAlive.toNat + start.sched.reaperCount = start.scheduler.threadsAlive.toNat

/-- With only the bootstrap thread runnable, no thread is tracked. -/
theorem size_eq_zero {st : Traced} (h : Traced.Inv st)
    (hc : st.threads.sched.current = bootstrapId) (hr : st.threads.sched.ready = []) :
    st.threads.sched.threads.size = 0 := by
  unfold FMap.size
  rw [Finset.card_eq_zero, Finset.eq_empty_iff_forall_notMem]
  intro id hid
  obtain ⟨th, hth⟩ := FMap.mem_iff.mp (Finmap.mem_keys.mp hid)
  have hm := (h.mem_runnable id).mpr (.inr (FMap.mem_of_get? hth))
  rw [ThreadScheduler.runnable, hc, hr, List.mem_singleton] at hm
  have hpos := (h.entry id th hth).2.2.1
  rw [hm] at hpos
  exact absurd hpos (by decide)

theorem Inv.finished {scripts : List (ProcessId × Script)} {start : Traced}
    (h : Inv n (family scripts) 0 st) (hd : st.Done) (hs : Traced.Inv start)
    (hc : start.threads.sched.current = bootstrapId) (hr : start.threads.sched.ready = []) :
    Finished start.threads scripts st := by
  obtain ⟨tags, ht⟩ := h.traced
  obtain ⟨hcur, hready⟩ := hd
  have hready : st.threads.sched.ready = [] := List.length_eq_zero_iff.mp hready
  have hsize : st.threads.sched.threads.size = 0 := size_eq_zero ht hcur hready
  have hstart := hs.alive
  rw [size_eq_zero hs hc hr, Nat.zero_add] at hstart
  refine ⟨hcur, hready, hsize, ?_, h.nodup, fun x hx => ?_, fun r => ?_⟩
  · have hscripts := h.scripts
    simpa [weight, ThreadScheduler.runnable, hcur, hready, weigh] using hscripts
  · refine h.dead x hx fun hm => ?_
    have hpos := FMap.size_erase hm
    omega
  · obtain ⟨-, he⟩ | ⟨nextId, ready, _, hr', -⟩ := ht.yieldNow_eq r
    · have hd := ht.drain.alive
      simp only [Threads.drainReaper_threads, ThreadScheduler.reaperCount,
        Threads.drainReaper_reaper, Option.isSome_none] at hd
      refine ⟨_, he, Threads.drainReaper_reaper, ?_⟩
      rw [hstart, hd, hsize]
      simp
    · rw [show st.threads.sched.ready = nextId :: ready from hr'] at hready
      cases hready

/-- From every reachable state in which only the bootstrap thread is runnable, the loop over any
scripts terminates and has run them all, if fewer than `2 ^ 64` threads are spawned since boot and
each spawn of this run gets its memory and has room on its caller's stack. -/
theorem drive_quiescent (p : Profile) (src : StackSource) (rsp : Driven → UInt64) (start : Traced)
    (scripts : List (ProcessId × Script)) (h : (Traced.system p).Reach start)
    (hc : start.threads.sched.current = bootstrapId) (hr : start.threads.sched.ready = [])
    (hn : start.spawns + (family scripts).card < 2 ^ 64)
    (hsupply : ∀ st, Spawns p src rsp (Driven.start start.threads) scripts st → src.Supplies st) :
    ∃ st₁ st₂, (Driven.start start.threads).spawnAll p src scripts = .ok st₁ ∧
      Drives p src rsp st₁ st₂ ∧ Finished start.threads scripts st₂ := by
  have hs := Traced.inv_reach h (by omega)
  have h0 : Inv start.spawns (family scripts) (family scripts + 0)
      (Driven.start start.threads) := by
    rw [add_zero]
    exact Inv.start hs hc hr
  obtain ⟨st₁, he, h1, hsupply₁⟩ := h0.spawnAll hn hsupply
  obtain ⟨st₂, hdr, hd, h2⟩ := h1.drives hn hsupply₁
  exact ⟨st₁, st₂, he, hdr, h2.finished hd hs hc hr⟩

/-- A heap and stacks that have room for every spawn. -/
def ample : StackSource := ⟨fun _ => some 0x444444440000, fun _ => true⟩

theorem ample_supplies (st : Driven) : ample.Supplies st := ⟨rfl, rfl⟩

/-- Two threads, one of which spawns a third between two yields. -/
theorem drive_quiescent_three :
    let scripts : List (ProcessId × Script) :=
      [(.kernel, .yieldNow .exitThread),
        (.kernel, .yieldNow (.spawn .kernel .exitThread (.yieldNow .exitThread)))]
    (family scripts).card = 3 ∧
      ∃ st₁ st₂, (Driven.start .boot).spawnAll .release ample scripts = .ok st₁ ∧
        Drives .release ample (fun _ => 0x8000) st₁ st₂ ∧
        Finished .boot scripts st₂ := by
  intro scripts
  have hcard : (family scripts).card = 3 := by
    simp [scripts, family, Script.offspring]
  exact ⟨hcard, drive_quiescent .release _ _ ⟨.boot, fun _ => .kernel, 0⟩ scripts (.init rfl) rfl
    rfl (by rw [hcard]; decide) fun st _ => ample_supplies st⟩

/-! ## The id counter wraps -/

/-- A thread that spawns a thread that spawns a thread, `n` times. -/
def chain : Nat → Script
  | 0 => .exitThread
  | n + 1 => .spawn .kernel (chain n) .exitThread

/-- The bootstrap thread runs and is ready. -/
def Spinning (st : Driven) : Prop :=
  st.current = bootstrapId ∧ st.threads.sched.ready = [bootstrapId]

/-- The loop goes on from where one step leads. -/
theorem Drives.of_next {st₁ : Driven} (h : Drives p src rsp st st') (hd : ¬ st.Done)
    (he : st.next p src rsp = .ok st₁) : Drives p src rsp st₁ st' := by
  cases h with
  | done hd' => exact absurd hd' hd
  | next _ he' hdr =>
    obtain rfl := Except.ok.inj (he.symm.trans he')
    exact hdr

theorem Spinning.not_drives (h : Drives p src rsp st st') : ¬ st.Spinning := by
  induction h with
  | done hd =>
    rintro ⟨-, hr⟩
    have := hd.2
    rw [ThreadScheduler.readyCount, hr] at this
    cases this
  | @next st st₁ _ _ he _ ih =>
    rintro ⟨hc, hr⟩
    apply ih
    rw [next_bootstrap hc] at he
    obtain ⟨⟨t, loaded⟩, hy, he⟩ := Panics.bind_eq_ok.mp he
    obtain rfl := Except.ok.inj he
    obtain ⟨hr', -⟩ | ⟨nextId, ready, c, hr', -, -, rfl, -⟩ := Threads.yieldNow_cases hy
    · rw [hr] at hr'
      cases hr'
    · rw [hr] at hr'
      obtain ⟨rfl, rfl⟩ := List.cons.inj hr'
      show _ ∧ _
      simp [current, ThreadScheduler.setCurrent, hc]

/-- One thread of the chain runs, after `n` spawns, with `k` to come. -/
structure Chained (n k : Nat) (st : Driven) : Prop where
  traced : ∃ tags, Traced.Inv ⟨st.threads, tags, n⟩
  current : st.current ≠ bootstrapId
  ready : st.threads.sched.ready = [bootstrapId]
  script : st.scripts st.current = chain k

/-- The thread spawns the next one and exits. -/
theorem Chained.handOver {k : Nat} (h : Chained n (k + 1) st) (hn : n < 2 ^ 64)
    (hne : (⟨st.threads.nextId⟩ : ThreadId) ≠ st.current) (hsup : ∀ x, src.Supplies x)
    (hdr : Drives p src rsp st st') :
    ∃ st₂, Drives p src rsp st₂ st' ∧ st₂.current = bootstrapId ∧
      st₂.threads.sched.ready = [⟨st.threads.nextId⟩] ∧
      st₂.scripts ⟨st.threads.nextId⟩ = chain k ∧
      (n + 1 < 2 ^ 64 → ∃ tags, Traced.Inv ⟨st₂.threads, tags, n + 1⟩) := by
  obtain ⟨tags, ht⟩ := h.traced
  obtain ⟨th, -, -, hth, -⟩ := ht.exit_cases h.current
  have hth : st.threads.sched.threads.get? st.current = some th := hth
  -- The spawn.
  obtain ⟨stack, hstack⟩ := (hsup st).take
  obtain ⟨t₁, id, hspawn⟩ : ∃ t₁ id, st.threads.spawn p .kernel stack = .ok (t₁, id) :=
    ⟨_, _, ht.spawn_eq .kernel stack hn⟩
  obtain ⟨rfl, ht₁⟩ := Threads.spawn_cases hspawn
  have hcur₁ : t₁.sched.current = st.current := by rw [ht₁]
  have hready₁ : t₁.sched.ready = bootstrapId :: [⟨st.threads.nextId⟩] := by
    rw [ht₁]
    simp [h.ready]
  have hth₁ : t₁.sched.threads.get? t₁.sched.current = some th := by
    rw [hcur₁, ht₁]
    simp only [FMap.get?_insert, if_neg (Ne.symm hne), hth]
  have hscripts₁ : Function.update (Function.update st.scripts st.current .exitThread)
      ⟨st.threads.nextId⟩ (chain k) t₁.sched.current = .exitThread := by
    rw [hcur₁, Function.update_of_ne (Ne.symm hne), Function.update_self]
  have he₁ : st.next p src rsp = .ok ⟨t₁, Function.update (Function.update st.scripts st.current
      .exitThread) ⟨st.threads.nextId⟩ (chain k), Function.update (Function.update st.ran st.current
      (st.ran st.current ++ [.spawn .kernel (chain k)])) ⟨st.threads.nextId⟩ [],
      (⟨st.threads.nextId⟩, chain k) :: st.spawned⟩ := by
    rw [next_spawn h.current h.script, hstack]
    show (st.threads.spawn p .kernel stack >>= _) = _
    rw [hspawn]
    rfl
  have hdr₁ := hdr.of_next (fun hd => h.current hd.1) he₁
  -- The exit.
  have hboot₁ : t₁.sched.current ≠ bootstrapId := hcur₁ ▸ h.current
  obtain ⟨loaded, hexit⟩ := Threads.exitThread_eq (p := p) hboot₁ hth₁ hready₁
    (Ne.symm hboot₁) (.inl rfl)
  refine ⟨_, hdr₁.of_next (fun hd => hboot₁ hd.1) (by
    rw [next_exitThread hboot₁ hscripts₁]
    show (t₁.exitThread p >>= _) = _
    rw [hexit]
    rfl), rfl, rfl, ?_, fun hn' => ?_⟩
  · show Function.update (Function.update (Function.update st.scripts st.current .exitThread)
      ⟨st.threads.nextId⟩ (chain k)) t₁.sched.current .exitThread ⟨st.threads.nextId⟩ = chain k
    rw [hcur₁, Function.update_of_ne hne, Function.update_self]
  · exact ⟨_, (ht.spawn hn' hspawn).exitThread hboot₁ hexit⟩

/-- The bootstrap thread yields to the thread that was spawned. -/
theorem Chained.start {k : Nat} {id : ThreadId} {tags : ThreadId → ProcessId}
    (ht : Traced.Inv ⟨st.threads, tags, n⟩) (hb : id ≠ bootstrapId)
    (hc : st.current = bootstrapId) (hr : st.threads.sched.ready = [id])
    (hs : st.scripts id = chain k) (hdr : Drives p src rsp st st') :
    ∃ st₁, Drives p src rsp st₁ st' ∧ Chained n k st₁ := by
  have hstep : ∃ t loaded, st.threads.yieldNow (rsp st) = .ok (t, loaded) ∧
      t.sched.current = id ∧ t.sched.ready = [bootstrapId] := by
    obtain ⟨hr', -⟩ | ⟨nextId, ready, loaded, hr', hy⟩ := ht.yieldNow_eq (rsp st)
    · cases hr.symm.trans hr'
    · obtain ⟨rfl, rfl⟩ := List.cons.inj (hr.symm.trans hr')
      exact ⟨_, _, hy, by simp [ThreadScheduler.setCurrent],
        by simpa [ThreadScheduler.setCurrent] using hc⟩
  obtain ⟨t, loaded, hy, hc', hr'⟩ := hstep
  have he : st.next p src rsp = .ok { st with threads := t } := by
    rw [next_bootstrap hc, Driven.yieldNow, hy]
    rfl
  have hd : ¬ st.Done := by
    rintro ⟨-, hready⟩
    rw [ThreadScheduler.readyCount, hr] at hready
    cases hready
  exact ⟨_, hdr.of_next hd he, ⟨tags, ht.yieldNow hy⟩, fun h => hb (hc'.symm.trans h), hr',
    (congrArg st.scripts hc').trans hs⟩

theorem Chained.succ {k : Nat} (h : Chained n (k + 1) st) (hn : n + 1 < 2 ^ 64)
    (hsup : ∀ x, src.Supplies x) (hdr : Drives p src rsp st st') :
    ∃ st₃, Drives p src rsp st₃ st' ∧ Chained (n + 1) k st₃ := by
  obtain ⟨tags, ht⟩ := h.traced
  have hnew := ht.nextId_notMem_runnable hn
  obtain ⟨st₂, hdr₂, hc₂, hr₂, hs₂, hi₂⟩ := h.handOver (by omega)
    (fun he => hnew (he ▸ .head _)) hsup hdr
  obtain ⟨tags₂, ht₂⟩ := hi₂ hn
  exact Chained.start ht₂ (ht.nextId_ne_bootstrapId hn) hc₂ hr₂ hs₂ hdr₂

/-- A chain that is long enough for the counter to wrap is never done. -/
theorem Chained.not_drives (hsup : ∀ x, src.Supplies x) (k : Nat) (hn : n + k = 2 ^ 64 - 1)
    (h : Chained n (k + 1) st) :
    ¬ Drives p src rsp st st' := by
  induction k generalizing n st with
  | zero =>
    intro hdr
    obtain ⟨tags, ht⟩ := h.traced
    have hzero : (⟨st.threads.nextId⟩ : ThreadId) = bootstrapId := by
      have hnext : st.threads.nextId.toNat = (n + 1) % 2 ^ 64 := ht.next
      rw [show n = 2 ^ 64 - 1 by omega] at hnext
      exact congrArg ThreadId.mk (UInt64.toNat_inj.mp hnext)
    obtain ⟨st₂, hdr₂, hc₂, hr₂, -⟩ := h.handOver (by omega) (hzero ▸ Ne.symm h.current) hsup
      hdr
    rw [hzero] at hr₂
    exact Spinning.not_drives hdr₂ ⟨hc₂, hr₂⟩
  | succ k ih =>
    intro hdr
    obtain ⟨st₃, hdr₃, h₃⟩ := h.succ (by omega) hsup hdr
    exact ih (by omega) h₃ hdr₃

theorem chain_not_drives (hsup : ∀ x, src.Supplies x) {k : Nat} (hk : k + 1 = 2 ^ 64 - 1)
    {st₁ : Driven} (he : (Driven.start .boot).spawnAll p src [(.kernel, chain (k + 1))] = .ok st₁) :
    ¬ Drives p src rsp st₁ st' := by
  intro hdr
  have ht := Traced.Inv.boot
  obtain ⟨st₂, hst, he⟩ := Panics.bind_eq_ok.mp he
  obtain rfl := Except.ok.inj he
  obtain ⟨stack, -, hst⟩ := Panics.bind_eq_ok.mp hst
  obtain ⟨⟨t, id⟩, hspawn, hst⟩ := Panics.bind_eq_ok.mp hst
  obtain rfl := Except.ok.inj hst
  have hi := ht.spawn (by decide) hspawn
  obtain ⟨rfl, rfl⟩ := Threads.spawn_cases hspawn
  have hscript : Function.update (Driven.start .boot).scripts ⟨1⟩ (chain (k + 1)) ⟨1⟩ =
      chain (k + 1) := Function.update_self ..
  obtain ⟨st₁, hdr₁, h₁⟩ := Chained.start hi (by decide) rfl rfl hscript hdr
  exact h₁.not_drives hsup k (by show 0 + 1 + k = _; omega) hdr₁

/-- From boot, a chain of `2 ^ 64` threads, each of which gets what it needs: the last one gets the
id 0, and the loop never ends. -/
theorem spins_after_wrap :
    ¬ ∀ (src : StackSource) (rsp : Driven → UInt64) (start : Traced)
      (scripts : List (ProcessId × Script)), (Traced.system .release).Reach start →
      start.threads.sched.current = bootstrapId → start.threads.sched.ready = [] →
      (∀ st, src.Supplies st) →
      ∃ st₁ st₂, (Driven.start start.threads).spawnAll .release src scripts = .ok st₁ ∧
        Drives .release src rsp st₁ st₂ ∧ Finished start.threads scripts st₂ := by
  intro hall
  have hk : 2 ^ 64 - 2 + 1 = 2 ^ 64 - 1 := by decide
  obtain ⟨st₁, st₂, he, hdr, -⟩ := hall ample (fun _ => 0x8000) ⟨.boot, fun _ => .kernel, 0⟩
    [(.kernel, chain (2 ^ 64 - 2 + 1))] (.init rfl) rfl rfl ample_supplies
  exact chain_not_drives ample_supplies hk he hdr

end Driven

end Apogee
