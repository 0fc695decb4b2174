import Apogee.Lib.Queue
import Apogee.Thread.Consistency
import Apogee.Thread.Operations

/-!
# Round-robin order

A continuation of a run, with the threads that its context switches made current, in order. The
ready queue serves them (`Continues.served`), from any state and with any mixture of operations.

* `InOrder`: the switches follow the queue.
* `OneTurnEach`: between a yield of a thread and its next turn, each thread that was ready gets one
  turn. This needs ids to be unique: after `2 ^ 64` spawns a thread has the bootstrap thread's id,
  and a yield of the bootstrap thread to it comes back at once.
-/

namespace Apogee.Traced

open Verif

variable {p : Profile} {st st₀ st' : Traced} {turns : List ThreadId}

/-- A continuation from `st₀`, with the threads that its context switches made current. -/
inductive Continues (p : Profile) (st₀ : Traced) : List ThreadId → Traced → Prop
  | refl : Continues p st₀ [] st₀
  | spawn {turns : List ThreadId} {st : Traced} {process : ProcessId} {stack : UInt64}
      {t : Threads} {id : ThreadId} :
      Continues p st₀ turns st → st.threads.spawn p process stack = .ok (t, id) →
      Continues p st₀ turns ⟨t, Function.update st.tags id process, st.spawns + 1⟩
  /-- A yield with nothing else ready: no switch. -/
  | stay {turns : List ThreadId} {st : Traced} {rsp : UInt64} {t : Threads} :
      Continues p st₀ turns st → st.threads.yieldNow rsp = .ok (t, none) →
      Continues p st₀ turns ⟨t, st.tags, st.spawns⟩
  | yieldNow {turns : List ThreadId} {st : Traced} {rsp loaded : UInt64} {t : Threads} :
      Continues p st₀ turns st → st.threads.yieldNow rsp = .ok (t, some loaded) →
      Continues p st₀ (turns ++ [t.sched.current]) ⟨t, st.tags, st.spawns⟩
  | exitThread {turns : List ThreadId} {st : Traced} {loaded : UInt64} {t : Threads} :
      Continues p st₀ turns st → st.threads.sched.current ≠ bootstrapId →
      st.threads.exitThread p = .ok (t, loaded) →
      Continues p st₀ (turns ++ [t.sched.current]) ⟨t, st.tags, st.spawns⟩

/-- A continuation of a run from boot is a run from boot. -/
theorem Continues.reach (h₀ : (system p).Reach st₀) (h : Continues p st₀ turns st) :
    (system p).Reach st := by
  induction h with
  | refl => exact h₀
  | spawn _ e ih => exact ih.step (Step.spawn e)
  | stay _ e ih => exact ih.step (Step.yieldNow e)
  | yieldNow _ e ih => exact ih.step (Step.yieldNow e)
  | exitThread _ hc e ih => exact ih.step (Step.exitThread hc e)

/-- A yield that switches serves the head of the queue and puts the current thread at its end. -/
theorem yieldNow_ready {t t' : Threads} {rsp loaded : UInt64}
    (h : t.yieldNow rsp = .ok (t', some loaded)) :
    ∃ rest, t.sched.ready = t'.sched.current :: rest ∧
      t'.sched.ready = rest ++ [t.sched.current] := by
  obtain ⟨-, -, hnone⟩ | ⟨nextId, rest, c, hr, -, -, rfl, -⟩ := Threads.yieldNow_cases h
  · cases hnone
  · refine ⟨rest, ?_, ?_⟩
    · rw [hr, ThreadScheduler.setContext_current]
      rfl
    · rw [ThreadScheduler.setContext_ready]
      rfl

/-- The queue serves the threads that the switches make current. -/
theorem Continues.served (h : Continues p st₀ turns st) :
    Served st₀.threads.sched.ready turns st.threads.sched.ready := by
  induction h with
  | refl => exact .refl _
  | spawn _ e ih =>
    obtain ⟨rfl, rfl⟩ := Threads.spawn_cases e
    exact ih.push _
  | stay _ e ih =>
    obtain ⟨-, rfl, -⟩ | ⟨_, _, _, -, -, -, -, hsome⟩ := Threads.yieldNow_cases e
    · rw [Threads.drainReaper_ready]
      exact ih
    · cases hsome
  | yieldNow _ e ih =>
    obtain ⟨rest, hr, hr'⟩ := yieldNow_ready e
    rw [hr] at ih
    show Served _ _ _
    rw [hr']
    exact ih.pop.push _
  | exitThread _ _ e ih =>
    obtain ⟨nextId, ready, hr, rfl, rfl, -⟩ := Threads.exitThread_cases e
    rw [hr] at ih
    exact ih.pop

/-- The threads that are ready get the next switches, in the order of the queue, whatever the
threads do. -/
def InOrder (p : Profile) (st : Traced) : Prop :=
  ∀ turns st', Continues p st turns st' → ∀ k, k < st.threads.sched.ready.length →
    k < turns.length → turns[k]? = st.threads.sched.ready[k]?

/-- If the current thread yields, then before its next turn each thread that was ready gets exactly
one turn. -/
def OneTurnEach (p : Profile) (st : Traced) : Prop :=
  ∀ rsp t loaded, st.threads.yieldNow rsp = .ok (t, some loaded) →
    ∀ turns st', Continues p ⟨t, st.tags, st.spawns⟩ turns st' →
    ∀ between later, t.sched.current :: turns = between ++ st.threads.sched.current :: later →
    st.threads.sched.current ∉ between →
    ∀ id ∈ st.threads.sched.ready, between.count id = 1

/-- With unique ids the turns between are the queue itself. -/
theorem between_eq {rsp loaded : UInt64} {t : Threads} {between later : List ThreadId}
    (e : st.threads.yieldNow rsp = .ok (t, some loaded))
    (h : Continues p ⟨t, st.tags, st.spawns⟩ turns st')
    (hturns : t.sched.current :: turns = between ++ st.threads.sched.current :: later)
    (hb : st.threads.sched.current ∉ between)
    (hc : st.threads.sched.current ∉ st.threads.sched.ready) :
    between = st.threads.sched.ready := by
  obtain ⟨rest, hr, hr'⟩ := yieldNow_ready e
  have hs := h.served.cons t.sched.current
  rw [hturns] at hs
  have hq : t.sched.current :: t.sched.ready =
      st.threads.sched.ready ++ [st.threads.sched.current] := by
    rw [hr', hr, List.cons_append]
  rw [show (Traced.mk t st.tags st.spawns).threads.sched.ready = t.sched.ready from rfl, hq] at hs
  exact hs.eq_of_first hc hb

/-- The switches follow the queue in every continuation of every run. While fewer than `2 ^ 64`
threads were spawned, a thread that yields gets its next turn after one turn of each thread that
was ready. -/
theorem round_robin (p : Profile) (st : Traced) (h : (system p).Reach st) :
    InOrder p st ∧ (st.spawns < 2 ^ 64 → OneTurnEach p st) := by
  constructor
  · intro turns st' hc k hk ht
    exact hc.served.getElem?_eq hk ht
  · intro hs rsp t loaded e turns st' hc between later hturns hb id hid
    have hcons := (inv_reach h hs).consistent
    rw [between_eq e hc hturns hb hcons.current_notMem]
    exact List.count_eq_one_of_mem hcons.ready_nodup hid

/-- Two spawned threads and the bootstrap thread. -/
theorem round_robin_three : ∃ st, (system .dev).Reach st ∧
    st.threads.sched.ready = [⟨1⟩, ⟨2⟩] ∧ InOrder .dev st ∧ OneTurnEach .dev st := by
  have h0 : (system .dev).Reach ⟨.boot, fun _ => .kernel, 0⟩ := .init rfl
  have h1 := reach_spawn h0 ⟨7⟩ 0x444444440000 rfl
  have h2 := reach_spawn h1 ⟨8⟩ 0x444444450000 rfl
  obtain ⟨hin, hone⟩ := round_robin .dev _ h2
  exact ⟨_, h2, rfl, hin, hone (by decide)⟩

/-- The bootstrap thread yields to the first thread of the queue, which has its id. -/
theorem yieldNow_bootstrap {t : Threads} {rest : List ThreadId} (rsp : UInt64)
    (hc : t.sched.current = bootstrapId) (hr : t.sched.ready = bootstrapId :: rest) :
    ∃ t', t.yieldNow rsp = .ok (t', some rsp) ∧ t'.sched.current = bootstrapId := by
  unfold Threads.yieldNow
  simp only [Threads.drainReaper_ready, Threads.drainReaper_current, hr, hc,
    ThreadScheduler.contextAt, if_true, expect_some, Panics.bind_ok]
  exact ⟨_, rfl, by rw [ThreadScheduler.setContext_current]; rfl⟩

/-- The thread of the `2 ^ 64`-th spawn has the id 0. The bootstrap thread yields to it and gets the
turn itself. -/
theorem not_round_robin_after_wrap :
    ¬ ∀ (p : Profile) (st : Traced), (system p).Reach st → InOrder p st ∧ OneTurnEach p st := by
  intro hall
  obtain ⟨st, h, hc, hr⟩ := wrapped
  obtain ⟨t, e, hct⟩ := yieldNow_bootstrap 0 hc hr
  -- No thread had a turn between, though the new thread was ready.
  have hone := (hall _ _ h).2 0 t 0 e [] _ .refl [] [] (by rw [hct, hc]; rfl) List.not_mem_nil
    bootstrapId (by rw [hr]; exact .head _)
  cases hone

end Apogee.Traced
