import Apogee.Thread.Operations

/-!
# Consistency of the scheduler's structures

* `Consistent`: the map, the queue, the current thread, the reaper slot and the counter agree.
* `consistent_of_lt_wrap`: in every state of a run with fewer than `2 ^ 64` spawns they do, and no
  operation reaches an `expect` or a failing assertion.
* `idle_after`: after any number of cycles of spawn, run, exit and reap below `2 ^ 64`, the
  scheduler is empty again. The spawn after the last such cycle gets the id 0, so the bootstrap
  thread is current and ready at once.
-/

namespace Apogee.Traced

open Verif

variable {p : Profile} {st : Traced}

/-- The scheduler's structures agree with each other and with the tags given to `spawn`. -/
structure Consistent (st : Traced) : Prop where
  ready_nodup : st.threads.sched.ready.Nodup
  current_notMem : st.threads.sched.current ∉ st.threads.sched.ready
  runnable_iff : ∀ id, id = st.threads.sched.current ∨ id ∈ st.threads.sched.ready ↔
    id = bootstrapId ∨ id ∈ st.threads.sched.threads
  reaper : ∀ th, st.threads.sched.reaper = some th → th.id ≠ st.threads.sched.current ∧
    th.id ∉ st.threads.sched.ready ∧ th.id ∉ st.threads.sched.threads
  entry_id : ∀ id th, st.threads.sched.threads.get? id = some th → th.id = id
  threadsAlive : st.threads.scheduler.threadsAlive.toNat =
    st.threads.sched.threadCount + if st.threads.sched.reaper.isSome then 1 else 0
  currentProcess : st.threads.currentProcess = st.tags st.threads.sched.current
  bootstrap_tag : st.tags bootstrapId = .kernel
  /-- The lookup in `current_process` finds the thread, so its default is not used. -/
  current_entry : st.threads.sched.current ≠ bootstrapId →
    ∃ th, st.threads.sched.threads.get? st.threads.sched.current = some th

/-- No operation of the current thread panics, and `exit_thread` stores into an empty slot. -/
structure NoPanic (p : Profile) (t : Threads) : Prop where
  spawn : ∀ process stack, ∃ r, t.spawn p process stack = .ok r
  yieldNow : ∀ rsp, ∃ r, t.yieldNow rsp = .ok r
  exitThread : t.sched.current ≠ bootstrapId → ∃ r, t.exitThread p = .ok r
  slot_empty : t.drainReaper.sched.reaper = none

theorem Inv.consistent (h : Inv st) : Consistent st where
  ready_nodup := (List.nodup_cons.mp h.nodup).2
  current_notMem := (List.nodup_cons.mp h.nodup).1
  runnable_iff id := by rw [← h.mem_runnable, ThreadScheduler.runnable, List.mem_cons]
  reaper th hr := by
    have hn := (h.reaped th hr).1
    refine ⟨fun e => hn (e ▸ .head _), fun hm => hn (.tail _ hm), fun hm => ?_⟩
    exact hn ((h.mem_runnable _).mpr (.inr hm))
  entry_id id th hl := (h.entry id th hl).1
  threadsAlive := h.alive
  currentProcess := by
    unfold Threads.currentProcess
    by_cases hc : st.threads.sched.current = bootstrapId
    · rw [if_pos hc, hc, h.tag]
    · obtain ⟨th, -, -, hth, -⟩ := h.exit_cases hc
      rw [if_neg hc, hth]
      exact (h.entry _ th hth).2.1
  bootstrap_tag := h.tag
  current_entry hc := by
    obtain ⟨th, -, -, hth, -⟩ := h.exit_cases hc
    exact ⟨th, hth⟩

theorem Inv.noPanic (h : Inv st) (hs : st.spawns < 2 ^ 64) : NoPanic p st.threads where
  spawn process stack := ⟨_, h.spawn_eq process stack hs⟩
  yieldNow rsp := by
    obtain ⟨-, e⟩ | ⟨_, _, _, -, e⟩ := h.yieldNow_eq rsp
    · exact ⟨_, e⟩
    · exact ⟨_, e⟩
  exitThread hc := by
    obtain ⟨th, nextId, ready, hth, hr⟩ := h.exit_cases hc
    obtain ⟨loaded, e⟩ := h.exitThread_eq (p := p) hc hth hr
    exact ⟨_, e⟩
  slot_empty := Threads.drainReaper_reaper

/-- In every state of a run with fewer than `2 ^ 64` spawns the structures agree, and the next
operation does not panic. -/
theorem consistent_of_lt_wrap (p : Profile) (st : Traced) (h : (system p).Reach st)
    (hs : st.spawns < 2 ^ 64) : Consistent st ∧ NoPanic p st.threads := by
  have hi := inv_reach h hs
  exact ⟨hi.consistent, hi.noPanic hs⟩

theorem reach_spawn (h : (system p).Reach st) (process : ProcessId) (stack : UInt64)
    {r : Threads × ThreadId} (e : st.threads.spawn p process stack = .ok r) :
    (system p).Reach ⟨r.1, Function.update st.tags r.2 process, st.spawns + 1⟩ :=
  h.step (Step.spawn e)

theorem reach_yieldNow (h : (system p).Reach st) (rsp : UInt64) {r : Threads × Option UInt64}
    (e : st.threads.yieldNow rsp = .ok r) : (system p).Reach ⟨r.1, st.tags, st.spawns⟩ :=
  h.step (Step.yieldNow e)

theorem reach_exitThread (h : (system p).Reach st) (hc : st.threads.sched.current ≠ bootstrapId)
    {r : Threads × UInt64} (e : st.threads.exitThread p = .ok r) :
    (system p).Reach ⟨r.1, st.tags, st.spawns⟩ :=
  h.step (Step.exitThread hc e)

/-- A run in which a spawned thread exits: it waits in the reaper slot while the bootstrap thread
runs. -/
theorem consistent_of_lt_wrap_exited : ∃ st, (system .dev).Reach st ∧
    (st.threads.sched.reaper.map (·.id)) = some ⟨1⟩ ∧ Consistent st ∧ NoPanic .dev st.threads := by
  have h0 : (system .dev).Reach ⟨.boot, fun _ => .kernel, 0⟩ := .init rfl
  have h1 := reach_spawn h0 ⟨7⟩ 0x444444440000 rfl
  have h2 := reach_yieldNow h1 0x8000 rfl
  have h3 := reach_exitThread h2 (by decide) rfl
  exact ⟨_, h3, rfl, consistent_of_lt_wrap _ _ h3 (by decide)⟩

/-! ## Runs by their queue -/

/-- A run has spawned `n` threads, `c` is current and `q` is ready. Ids other than the bootstrap
thread's are tracked if and only if they are runnable. -/
structure At (p : Profile) (c : ThreadId) (q : List ThreadId) (n : Nat) (st : Traced) : Prop where
  reach : (system p).Reach st
  current : st.threads.sched.current = c
  ready : st.threads.sched.ready = q
  spawns : st.spawns = n
  next : st.threads.nextId = UInt64.ofNat (n + 1)
  tracked : ∀ id, id ≠ bootstrapId → (id ∈ st.threads.sched.threads ↔ id ∈ c :: q)

variable {c a : ThreadId} {q : List ThreadId} {n : Nat}

theorem At.boot (p : Profile) : At p bootstrapId [] 0 ⟨.boot, fun _ => .kernel, 0⟩ where
  reach := .init rfl
  current := rfl
  ready := rfl
  spawns := rfl
  next := rfl
  tracked id hid := by
    rw [List.mem_singleton]
    exact iff_of_false Finmap.notMem_empty hid

/-- The next thread gets the next id. A `dev` build checks that no thread has it. -/
theorem At.spawn (h : At p c q n st) (process : ProcessId)
    (hf : p = .release ∨ (⟨UInt64.ofNat (n + 1)⟩ : ThreadId) ∉ st.threads.sched.threads) :
    ∃ st', At p c (q ++ [⟨UInt64.ofNat (n + 1)⟩]) (n + 1) st' ∧
      st'.threads.sched.tag ⟨UInt64.ofNat (n + 1)⟩ = some process := by
  have e : ∃ r, st.threads.spawn p process 0 = .ok r := by
    unfold Threads.spawn ThreadId.new
    rw [h.next]
    obtain rfl | hf := hf
    · exact ⟨_, rfl⟩
    · simp only [FMap.get?_eq_none.mpr hf, Option.isSome_none, Bool.not_false,
        Profile.debugAssert_true, Panics.bind_ok]
      exact ⟨_, rfl⟩
  obtain ⟨⟨t, new⟩, e⟩ := e
  have htag := Threads.tag_spawn e new
  have hreach := h.reach.step (Step.spawn e)
  obtain ⟨hnew, ht⟩ := Threads.spawn_cases e
  rw [h.next] at hnew ht
  subst hnew
  refine ⟨_, ⟨hreach, ?_, ?_, ?_, ?_, fun id hid => ?_⟩, htag.trans (if_pos rfl)⟩
  · rw [ht]
    exact h.current
  · rw [ht, h.ready]
  · rw [h.spawns]
  · rw [ht, UInt64.ofNat_add (n + 1) 1]
    rfl
  · rw [ht, Finmap.mem_insert, h.tracked id hid, ← List.cons_append, List.mem_append,
      List.mem_singleton, or_comm]

theorem At.contextAt (h : At p c q n st) {id : ThreadId} (hid : id ∈ c :: q) :
    id = bootstrapId ∨ id ∈ st.threads.sched.threads := by
  by_cases hb : id = bootstrapId
  · exact .inl hb
  · exact .inr ((h.tracked id hb).mpr hid)

/-- The first thread of the queue runs next, and the current one goes to its end. -/
theorem At.yieldNow (h : At p c (a :: q) n st) : ∃ st', At p a (q ++ [c]) n st' ∧
    ∀ id, st'.threads.sched.tag id = st.threads.sched.tag id := by
  have e : ∃ t loaded, st.threads.yieldNow 0 = .ok (t, some loaded) := by
    have hctx : ∀ id ∈ c :: a :: q, ∃ ctx, (st.threads.drainReaper.sched.setCurrent a
        (q ++ [c])).contextAt id = some ctx := by
      intro id hid
      apply ThreadScheduler.contextAt_isSome
      rw [ThreadScheduler.setCurrent_threads, Threads.drainReaper_threads]
      exact h.contextAt hid
    obtain ⟨ctx, hc⟩ := hctx c (.head _)
    obtain ⟨ctx', ha⟩ := hctx a (.tail _ (.head _))
    unfold Threads.yieldNow
    simp only [Threads.drainReaper_ready, h.ready, Threads.drainReaper_current, h.current, hc, ha,
      expect_some, Panics.bind_ok]
    exact ⟨_, _, rfl⟩
  obtain ⟨t, loaded, e⟩ := e
  have htag := Threads.tag_yieldNow e
  refine ⟨⟨t, st.tags, st.spawns⟩, ?_, htag⟩
  have hreach := h.reach.step (Step.yieldNow e)
  obtain ⟨-, -, hnone⟩ | ⟨nextId, rest, ctx, hr, -, -, rfl, -⟩ := Threads.yieldNow_cases e
  · cases hnone
  rw [h.ready] at hr
  obtain ⟨rfl, rfl⟩ := List.cons.inj hr
  refine ⟨hreach, ?_, ?_, h.spawns, ?_, fun id hid => ?_⟩
  · simp [ThreadScheduler.setCurrent]
  · simp [ThreadScheduler.setCurrent, h.current]
  · simp [h.next]
  · simp only [ThreadScheduler.mem_setContext, ThreadScheduler.setCurrent_threads,
      Threads.drainReaper_threads, h.tracked id hid, List.mem_cons, List.mem_append,
      List.mem_nil_iff, or_false]
    tauto

/-- A thread that is not ready as well exits. -/
theorem At.exitThread (h : At p c (a :: q) n st) (hc : c ≠ bootstrapId) (hq : c ∉ a :: q) :
    ∃ st', At p a q n st' := by
  have hcur : st.threads.sched.current ≠ bootstrapId := h.current.symm ▸ hc
  obtain ⟨th, hth⟩ := FMap.mem_iff.mp ((h.tracked c hc).mpr (.head _))
  obtain ⟨loaded, e⟩ := Threads.exitThread_eq (p := p) hcur (h.current.symm ▸ hth) h.ready
    (fun he => hq (by rw [← h.current, ← he]; exact .head _))
    (h.contextAt (.tail _ (.head _)))
  refine ⟨_, h.reach.step (Step.exitThread hcur e), rfl, rfl, h.spawns, ?_, fun id hid => ?_⟩
  · simp [h.next]
  · show id ∈ st.threads.sched.threads.erase _ ↔ _
    rw [Finmap.mem_erase, h.current, h.tracked id hid, List.mem_cons (a := id) (b := c)]
    constructor
    · rintro ⟨hne, hm⟩
      exact hm.resolve_left hne
    · intro hm
      exact ⟨fun he => hq (he ▸ hm), .inr hm⟩

/-! ## The id counter wraps -/

/-- Only the bootstrap thread is runnable, after `n` spawns. -/
structure Idle (n : Nat) (st : Traced) : Prop where
  reach : (system .dev).Reach st
  ready : st.threads.sched.ready = []
  current : st.threads.sched.current = bootstrapId
  spawns : st.spawns = n

/-- Before the counter wraps, a new id is not the bootstrap thread's. -/
theorem ofNat_ne_bootstrapId (hn : n + 1 < 2 ^ 64) :
    (⟨UInt64.ofNat (n + 1)⟩ : ThreadId) ≠ bootstrapId := by
  intro he
  have hzero := congrArg (·.asU64.toNat) he
  simp only [bootstrapId, Word.toNat_ofNat hn] at hzero
  exact absurd hzero (by simp)

/-- One cycle: spawn a thread, yield to it, let it exit. -/
theorem At.cycle (h : At p bootstrapId [] n st) (hn : n + 1 < 2 ^ 64) :
    ∃ st', At p bootstrapId [] (n + 1) st' := by
  have hb := ofNat_ne_bootstrapId hn
  have hf : (⟨UInt64.ofNat (n + 1)⟩ : ThreadId) ∉ st.threads.sched.threads := by
    rw [h.tracked _ hb, List.mem_singleton]
    exact hb
  obtain ⟨st₁, h₁, -⟩ := h.spawn .kernel (.inr hf)
  obtain ⟨st₂, h₂, -⟩ := h₁.yieldNow
  exact h₂.exitThread hb (by simpa using hb)

theorem idle_after (n : Nat) (hn : n < 2 ^ 64) : ∃ st, Idle n st := by
  have hat : ∀ n < 2 ^ 64, ∃ st, At .dev bootstrapId [] n st := by
    intro n
    induction n with
    | zero => exact fun _ => ⟨_, At.boot _⟩
    | succ n ih =>
      intro hn
      obtain ⟨st, h⟩ := ih (by omega)
      exact h.cycle hn
  obtain ⟨st, h⟩ := hat n hn
  exact ⟨st, h.reach, h.ready, h.current, h.spawns⟩

/-- The thread of the `2 ^ 64`-th spawn gets the id 0: the bootstrap thread is current and ready. -/
theorem wrapped : ∃ st, (system .dev).Reach st ∧ st.threads.sched.current = bootstrapId ∧
    st.threads.sched.ready = [bootstrapId] := by
  obtain ⟨st, h⟩ := idle_after (2 ^ 64 - 1) (by decide)
  have hi := inv_reach h.reach (by rw [h.spawns]; decide)
  have h1 := reach_spawn h.reach _ _
    (hi.spawn_eq (p := .dev) .kernel 0 (by rw [h.spawns]; decide))
  have hzero : st.threads.nextId = 0 := by
    rw [← UInt64.toNat_inj, hi.next, h.spawns]
    rfl
  exact ⟨_, h1, h.current, by simp [h.ready, hzero, bootstrapId]⟩

/-- After `2 ^ 64 - 1` cycles the next thread gets the id 0: the queue contains the current
thread. -/
theorem not_consistent_after_wrap :
    ¬ ∀ (p : Profile) (st : Traced), (system p).Reach st →
      Consistent st ∧ NoPanic p st.threads := by
  intro hall
  obtain ⟨st, h, hc, hr⟩ := wrapped
  apply (hall _ _ h).1.current_notMem
  simp [hc, hr]

end Apogee.Traced
