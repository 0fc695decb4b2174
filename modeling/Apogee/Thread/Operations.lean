import Apogee.Thread.Invariant

/-!
# What one thread operation does

The three operations in any state, with no invariant assumed: `spawn_cases`, `yieldNow_cases` and
`exitThread_cases` give the state after an operation that does not panic. `tag` and `contextAt` are
what the rest of the development reads from the threads' entries.
-/

namespace Apogee

open Verif

namespace ThreadScheduler

variable {s : ThreadScheduler} {id a : ThreadId} {c : Context}

/-- The process tag in a thread's entry. -/
def tag (s : ThreadScheduler) (id : ThreadId) : Option ProcessId :=
  (s.threads.get? id).map (·.process)

theorem tag_setContext : (s.setContext id c).tag a = s.tag a := by
  unfold tag setContext
  split
  · rfl
  · rw [FMap.get?_adjust]
    split
    · rw [Option.map_map]
      rfl
    · rfl

theorem contextAt_setContext :
    (s.setContext id c).contextAt a = if a = id then (s.contextAt a).map fun _ => c
      else s.contextAt a := by
  unfold contextAt setContext
  by_cases hid : id = bootstrapId
  · subst hid
    by_cases ha : a = bootstrapId <;> simp [ha]
  · rw [if_neg hid]
    by_cases ha : a = bootstrapId
    · subst ha
      simp [Ne.symm hid]
    · rw [if_neg ha, if_neg ha, FMap.get?_adjust]
      split
      · rw [Option.map_map, Option.map_map]
        rfl
      · rfl

end ThreadScheduler

namespace Threads

variable {p : Profile} {t t' : Threads}

@[simp] theorem drainReaper_tag (id : ThreadId) : t.drainReaper.sched.tag id = t.sched.tag id := by
  unfold ThreadScheduler.tag
  rw [drainReaper_threads]

@[simp] theorem drainReaper_contextAt (id : ThreadId) :
    t.drainReaper.sched.contextAt id = t.sched.contextAt id := by
  unfold drainReaper
  split <;> rfl

theorem spawn_cases {process : ProcessId} {stack : UInt64} {id : ThreadId}
    (h : t.spawn p process stack = .ok (t', id)) :
    id = ⟨t.nextId⟩ ∧ t' = ⟨{ t.sched with
      threads := t.sched.threads.insert ⟨t.nextId⟩ (.new ⟨t.nextId⟩ process stack)
      ready := t.sched.ready ++ [⟨t.nextId⟩] }, t.nextId + 1, t.scheduler.noteThreadSpawned⟩ := by
  obtain ⟨-, -, h⟩ := Panics.bind_eq_ok.mp h
  obtain ⟨rfl, rfl⟩ := Prod.mk.inj (Except.ok.inj h)
  exact ⟨rfl, rfl⟩

/-- A yield with nothing ready only drains the reaper. Otherwise it stores the outgoing stack
pointer and loads the one of the thread that was first in the queue. -/
theorem yieldNow_cases {rsp : UInt64} {loaded : Option UInt64}
    (h : t.yieldNow rsp = .ok (t', loaded)) :
    (t.sched.ready = [] ∧ t' = t.drainReaper ∧ loaded = none) ∨
    ∃ nextId ready c, t.sched.ready = nextId :: ready ∧ t.sched.contextAt nextId = some c ∧
      (t.sched.contextAt t.sched.current).isSome ∧ t' = { t.drainReaper with
        sched := (t.drainReaper.sched.setCurrent nextId
          (ready ++ [t.sched.current])).setContext t.sched.current ⟨rsp⟩ } ∧
      loaded = some (if nextId = t.sched.current then rsp else c.rsp) := by
  unfold yieldNow at h
  simp only [drainReaper_ready, drainReaper_current] at h
  cases hr : t.sched.ready with
  | nil =>
    rw [hr] at h
    obtain ⟨rfl, rfl⟩ := Prod.mk.inj (Except.ok.inj h)
    exact .inl ⟨rfl, rfl, rfl⟩
  | cons nextId ready =>
    rw [hr] at h
    obtain ⟨prevCtx, hprev, h⟩ := Panics.bind_eq_ok.mp h
    obtain ⟨nextCtx, hnext, h⟩ := Panics.bind_eq_ok.mp h
    obtain ⟨rfl, rfl⟩ := Prod.mk.inj (Except.ok.inj h)
    have hctx : ∀ {id : ThreadId} {c : Context}, (t.drainReaper.sched.setCurrent nextId
        (ready ++ [t.sched.current])).contextAt id = some c → t.sched.contextAt id = some c :=
      fun {id} _ hc => (drainReaper_contextAt id).symm.trans hc
    exact .inr ⟨nextId, ready, nextCtx, rfl, hctx (expect_eq_ok.mp hnext),
      Option.isSome_iff_exists.mpr ⟨_, hctx (expect_eq_ok.mp hprev)⟩, rfl, rfl⟩

/-- The store into the reaper slot takes at most the current thread's entry out of the map. -/
theorem parkCurrent_cases {s s' : ThreadScheduler} (h : parkCurrent p s = .ok s') :
    s'.ready = s.ready ∧ s'.current = s.current ∧ s'.bootstrapContext = s.bootstrapContext ∧
      (∀ id, s'.threads.get? id =
        if id = s.current ∧ id ≠ bootstrapId then none else s.threads.get? id) := by
  unfold parkCurrent at h
  by_cases hb : s.current = bootstrapId
  · rw [if_pos hb] at h
    obtain rfl := Except.ok.inj h
    refine ⟨rfl, rfl, rfl, fun id => (if_neg ?_).symm⟩
    rintro ⟨rfl, hne⟩
    exact hne hb
  · rw [if_neg hb] at h
    cases hg : s.threads.get? s.current with
    | none =>
      rw [hg] at h
      obtain rfl := Except.ok.inj h
      refine ⟨rfl, rfl, rfl, fun id => ?_⟩
      split
      · next hid => rw [hid.1, hg]
      · rfl
    | some boxed =>
      rw [hg] at h
      obtain ⟨-, -, h⟩ := Panics.bind_eq_ok.mp h
      obtain rfl := Except.ok.inj h
      refine ⟨rfl, rfl, rfl, fun id => ?_⟩
      simp only [FMap.get?_erase]
      by_cases hid : id = s.current
      · rw [if_pos hid, if_pos ⟨hid, hid ▸ hb⟩]
      · rw [if_neg hid, if_neg fun hc => hid hc.1]

/-- An exit drops the current thread's entry and loads the stack pointer of the first thread in the
queue. -/
theorem exitThread_cases {loaded : UInt64} (h : t.exitThread p = .ok (t', loaded)) :
    ∃ nextId ready, t.sched.ready = nextId :: ready ∧ t'.sched.current = nextId ∧
      t'.sched.ready = ready ∧ t'.nextId = t.nextId ∧
      t'.sched.bootstrapContext = t.sched.bootstrapContext ∧
      (∀ id, t'.sched.threads.get? id =
        if id = t.sched.current ∧ id ≠ bootstrapId then none else t.sched.threads.get? id) ∧
      t'.sched.contextAt nextId = some ⟨loaded⟩ := by
  obtain ⟨s, hpark, h⟩ := Panics.bind_eq_ok.mp h
  obtain ⟨hready, -, hboot, hget⟩ := parkCurrent_cases hpark
  simp only [drainReaper_ready, drainReaper_current, drainReaper_threads] at hready hget
  have hboot' : t.drainReaper.sched.bootstrapContext = t.sched.bootstrapContext := by
    unfold drainReaper
    split <;> rfl
  cases hr : s.ready with
  | nil =>
    rw [hr] at h
    cases h
  | cons nextId ready =>
    rw [hr] at h
    obtain ⟨nextCtx, hnext, h⟩ := Panics.bind_eq_ok.mp h
    obtain ⟨rfl, rfl⟩ := Prod.mk.inj (Except.ok.inj h)
    exact ⟨nextId, ready, by rw [← hready, hr], rfl, rfl, drainReaper_nextId,
      hboot.trans hboot', hget, expect_eq_ok.mp hnext⟩

/-! ## Tags -/

theorem tag_yieldNow {rsp : UInt64} {loaded : Option UInt64}
    (h : t.yieldNow rsp = .ok (t', loaded)) (id : ThreadId) : t'.sched.tag id = t.sched.tag id := by
  obtain ⟨-, rfl, -⟩ | ⟨nextId, ready, c, -, -, -, rfl, -⟩ := yieldNow_cases h
  · exact drainReaper_tag id
  · rw [ThreadScheduler.tag_setContext]
    exact drainReaper_tag id

theorem tag_exitThread {loaded : UInt64} (h : t.exitThread p = .ok (t', loaded)) {id : ThreadId}
    (hid : id ≠ t.sched.current) : t'.sched.tag id = t.sched.tag id := by
  obtain ⟨-, -, -, -, -, -, -, hget, -⟩ := exitThread_cases h
  unfold ThreadScheduler.tag
  rw [hget, if_neg fun hc => hid hc.1]

theorem tag_spawn {process : ProcessId} {stack : UInt64} {new : ThreadId}
    (h : t.spawn p process stack = .ok (t', new)) (id : ThreadId) :
    t'.sched.tag id = if id = new then some process else t.sched.tag id := by
  obtain ⟨rfl, rfl⟩ := spawn_cases h
  unfold ThreadScheduler.tag
  simp only [FMap.get?_insert]
  split <;> rfl

/-! ## Contexts -/

theorem contextAt_spawn {process : ProcessId} {stack : UInt64} {new : ThreadId}
    (h : t.spawn p process stack = .ok (t', new)) (id : ThreadId) :
    t'.sched.contextAt id = if id = new ∧ id ≠ bootstrapId
      then some (KernelThread.new new process stack).context else t.sched.contextAt id := by
  obtain ⟨rfl, rfl⟩ := spawn_cases h
  unfold ThreadScheduler.contextAt
  by_cases hb : id = bootstrapId
  · simp [hb]
  · simp only [hb, if_false, FMap.get?_insert, not_false_eq_true, and_true, ne_eq]
    split <;> rfl

/-- A yield that switches stores the outgoing stack pointer and loads the incoming one. -/
theorem contextAt_yieldNow {rsp loaded : UInt64} (h : t.yieldNow rsp = .ok (t', some loaded)) :
    (t.sched.contextAt t.sched.current).isSome ∧
    (∀ id, t'.sched.contextAt id =
      if id = t.sched.current then some ⟨rsp⟩ else t.sched.contextAt id) ∧
    t'.sched.contextAt t'.sched.current = some ⟨loaded⟩ := by
  obtain ⟨-, -, hnone⟩ | ⟨nextId, ready, c, -, hnext, hprev, rfl, hloaded⟩ := yieldNow_cases h
  · cases hnone
  obtain ⟨prev, hprev'⟩ := Option.isSome_iff_exists.mp hprev
  have hctx : ∀ id, ((t.drainReaper.sched.setCurrent nextId
      (ready ++ [t.sched.current])).setContext t.sched.current ⟨rsp⟩).contextAt id =
      if id = t.sched.current then some ⟨rsp⟩ else t.sched.contextAt id := by
    intro id
    have hid : (t.drainReaper.sched.setCurrent nextId (ready ++ [t.sched.current])).contextAt id =
        t.sched.contextAt id := drainReaper_contextAt id
    rw [ThreadScheduler.contextAt_setContext, hid]
    split
    · next he => rw [he, hprev']; rfl
    · rfl
  refine ⟨hprev, hctx, ?_⟩
  rw [hctx, Option.some.inj hloaded, ThreadScheduler.setContext_current]
  show (if nextId = t.sched.current then _ else t.sched.contextAt nextId) = _
  split
  · rfl
  · exact hnext

/-- An exit drops the outgoing thread's context and loads the incoming one. -/
theorem contextAt_exitThread {loaded : UInt64} (h : t.exitThread p = .ok (t', loaded)) :
    (∀ id, t'.sched.contextAt id =
      if id = t.sched.current ∧ id ≠ bootstrapId then none else t.sched.contextAt id) ∧
    t'.sched.contextAt t'.sched.current = some ⟨loaded⟩ := by
  obtain ⟨nextId, ready, -, rfl, -, -, hboot, hget, hctx⟩ := exitThread_cases h
  refine ⟨fun id => ?_, hctx⟩
  unfold ThreadScheduler.contextAt
  by_cases hb : id = bootstrapId
  · simp [hb, hboot]
  · simp only [hb, if_false, hget, not_false_eq_true, and_true, ne_eq]
    split <;> rfl

end Threads

end Apogee
