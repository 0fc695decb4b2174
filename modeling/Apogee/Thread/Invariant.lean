import Mathlib.Data.List.Nodup
import Apogee.Lib.Sys
import Apogee.Thread.Threads

/-!
# The thread scheduler's invariant

A run is any sequence of `spawn`, `yieldNow` and `exitThread` by whichever thread is current. The
bootstrap thread does not exit. Beside the statics, a run records the process tag given to each
`spawn` and the number of spawns.

The proofs use the runnable threads: the current one, then the ready queue. A yield permutes them,
a spawn adds one at the end, an exit drops the first.

* `Inv`: what every operation keeps, up to `2 ^ 64 - 1` spawns. The bound is needed: the id counter
  wraps, and the id after `2 ^ 64 - 1` is `bootstrapId`.
* `Inv.spawn`, `Inv.yieldNow`, `Inv.exitThread`: no operation panics, and each keeps `Inv`.
-/

namespace Apogee

open Verif

namespace ThreadScheduler

/-- The current thread, then the ready queue. -/
def runnable (s : ThreadScheduler) : List ThreadId := s.current :: s.ready

/-- 1 if a thread waits in the reaper slot. -/
def reaperCount (s : ThreadScheduler) : Nat := if s.reaper.isSome then 1 else 0

variable {s : ThreadScheduler} {id a : ThreadId} {c : Context}

@[simp] theorem setContext_ready : (s.setContext id c).ready = s.ready := by
  unfold setContext; split <;> rfl

@[simp] theorem setContext_current : (s.setContext id c).current = s.current := by
  unfold setContext; split <;> rfl

@[simp] theorem setContext_reaper : (s.setContext id c).reaper = s.reaper := by
  unfold setContext; split <;> rfl

@[simp] theorem mem_setContext : a ∈ (s.setContext id c).threads ↔ a ∈ s.threads := by
  unfold setContext
  split
  · rfl
  · exact FMap.mem_adjust _

@[simp] theorem size_setContext : (s.setContext id c).threads.size = s.threads.size := by
  unfold setContext
  split
  · rfl
  · exact FMap.size_adjust _

/-- A store through a context pointer leaves the threads' identities and tags. -/
theorem get?_setContext {th : KernelThread}
    (h : (s.setContext id c).threads.get? a = some th) :
    ∃ th', s.threads.get? a = some th' ∧ th'.id = th.id ∧ th'.process = th.process := by
  unfold setContext at h
  split at h
  · exact ⟨th, h, rfl, rfl⟩
  · simp only [FMap.get?_adjust] at h
    split at h
    · obtain ⟨th', h', rfl⟩ := Option.map_eq_some_iff.mp h
      exact ⟨th', h', rfl, rfl⟩
    · exact ⟨th, h, rfl, rfl⟩

@[simp] theorem setCurrent_threads {ready : List ThreadId} :
    (s.setCurrent id ready).threads = s.threads := rfl

@[simp] theorem setCurrent_reaper {ready : List ThreadId} :
    (s.setCurrent id ready).reaper = s.reaper := rfl

@[simp] theorem setCurrent_runnable {ready : List ThreadId} :
    (s.setCurrent id ready).runnable = id :: ready := rfl

@[simp] theorem setContext_runnable : (s.setContext id c).runnable = s.runnable := by
  simp [runnable]

theorem contextAt_isSome (h : id = bootstrapId ∨ id ∈ s.threads) :
    ∃ c, s.contextAt id = some c := by
  unfold contextAt
  by_cases hb : id = bootstrapId
  · exact ⟨_, if_pos hb⟩
  · obtain ⟨th, hth⟩ := FMap.mem_iff.mp (h.resolve_left hb)
    exact ⟨th.context, by rw [if_neg hb, hth]; rfl⟩

end ThreadScheduler

namespace Threads

variable {t : Threads}

@[simp] theorem drainReaper_threads : t.drainReaper.sched.threads = t.sched.threads := by
  unfold drainReaper; split <;> rfl

@[simp] theorem drainReaper_ready : t.drainReaper.sched.ready = t.sched.ready := by
  unfold drainReaper; split <;> rfl

@[simp] theorem drainReaper_current : t.drainReaper.sched.current = t.sched.current := by
  unfold drainReaper; split <;> rfl

@[simp] theorem drainReaper_nextId : t.drainReaper.nextId = t.nextId := by
  unfold drainReaper; split <;> rfl

@[simp] theorem drainReaper_reaper : t.drainReaper.sched.reaper = none := by
  unfold drainReaper
  split
  · rfl
  · assumption

/-- An exit of a tracked thread, when the first thread in the queue has a context. -/
theorem exitThread_eq {p : Profile} {th : KernelThread} {nextId : ThreadId} {ready : List ThreadId}
    (hc : t.sched.current ≠ bootstrapId) (hth : t.sched.threads.get? t.sched.current = some th)
    (hr : t.sched.ready = nextId :: ready) (hne : nextId ≠ t.sched.current)
    (hm : nextId = bootstrapId ∨ nextId ∈ t.sched.threads) :
    ∃ loaded, t.exitThread p = .ok ({ t.drainReaper with
      sched := ⟨t.sched.threads.erase t.sched.current, ready, nextId,
        t.drainReaper.sched.bootstrapContext, some th⟩ }, loaded) := by
  have hmem : nextId = bootstrapId ∨ nextId ∈ t.sched.threads.erase t.sched.current :=
    hm.imp id fun hm => Finmap.mem_erase.mpr ⟨hne, hm⟩
  obtain ⟨c, hctx⟩ := ThreadScheduler.contextAt_isSome
    (s := ⟨t.sched.threads.erase t.sched.current, ready, nextId,
      t.drainReaper.sched.bootstrapContext, some th⟩) hmem
  refine ⟨c.rsp, ?_⟩
  unfold exitThread parkCurrent
  simp only [drainReaper_current, if_neg hc, drainReaper_threads, hth, drainReaper_reaper,
    Option.isNone_none, Profile.debugAssert_true, Panics.bind_ok, Panics.pure_eq,
    drainReaper_ready, hr, ThreadScheduler.setCurrent, hctx, expect_some]

end Threads

/-! ## Runs -/

/-- The operations on threads. -/
inductive ThreadOp where
  | spawn (process : ProcessId) (stack : UInt64)
  | yieldNow (rsp : UInt64)
  | exitThread

/-- The statics with the history that the invariant speaks of. -/
structure Traced where
  threads : Threads
  /-- The process tag that `spawn` got for each thread. -/
  tags : ThreadId → ProcessId
  /-- How many threads were spawned. -/
  spawns : Nat

namespace Traced

/-- One operation of the current thread that does not panic. -/
inductive Step (p : Profile) : Traced → ThreadOp → Traced → Prop
  | spawn {st : Traced} {process : ProcessId} {stack : UInt64} {t : Threads} {id : ThreadId} :
      st.threads.spawn p process stack = .ok (t, id) →
      Step p st (.spawn process stack) ⟨t, Function.update st.tags id process, st.spawns + 1⟩
  | yieldNow {st : Traced} {rsp : UInt64} {t : Threads} {loaded : Option UInt64} :
      st.threads.yieldNow rsp = .ok (t, loaded) →
      Step p st (.yieldNow rsp) ⟨t, st.tags, st.spawns⟩
  | exitThread {st : Traced} {t : Threads} {loaded : UInt64} :
      st.threads.sched.current ≠ bootstrapId → st.threads.exitThread p = .ok (t, loaded) →
      Step p st .exitThread ⟨t, st.tags, st.spawns⟩

/-- The runs from boot. -/
def system (p : Profile) : Sys Traced ThreadOp where
  init st := st = ⟨.boot, fun _ => .kernel, 0⟩
  step := Step p

/-- What the operations keep while the id counter has not wrapped. -/
structure Inv (st : Traced) : Prop where
  nodup : st.threads.sched.runnable.Nodup
  mem_runnable : ∀ id, id ∈ st.threads.sched.runnable ↔
    id = bootstrapId ∨ id ∈ st.threads.sched.threads
  entry : ∀ id th, st.threads.sched.threads.get? id = some th →
    th.id = id ∧ th.process = st.tags id ∧ 0 < id.asU64.toNat ∧ id.asU64.toNat ≤ st.spawns
  reaped : ∀ th, st.threads.sched.reaper = some th →
    th.id ∉ st.threads.sched.runnable ∧ th.id.asU64.toNat ≤ st.spawns
  tag : st.tags bootstrapId = .kernel
  next : st.threads.nextId.toNat = (st.spawns + 1) % 2 ^ 64
  alive : st.threads.scheduler.threadsAlive.toNat =
    st.threads.sched.threads.size + st.threads.sched.reaperCount
  count : st.threads.sched.threads.size + st.threads.sched.reaperCount ≤ st.spawns

variable {p : Profile} {st : Traced} {process : ProcessId} {stack rsp : UInt64}

theorem Inv.boot : Inv ⟨.boot, fun _ => .kernel, 0⟩ where
  nodup := by decide
  mem_runnable id := by
    simp [Threads.boot, ThreadScheduler.new, ThreadScheduler.runnable, Finmap.notMem_empty]
  entry id th h := by simp [Threads.boot, ThreadScheduler.new] at h
  reaped th h := by simp [Threads.boot, ThreadScheduler.new] at h
  tag := rfl
  next := rfl
  alive := rfl
  count := by decide

theorem Inv.drain (h : Inv st) : Inv ⟨st.threads.drainReaper, st.tags, st.spawns⟩ := by
  have hc := h.count
  have ha := h.alive
  refine ⟨?_, ?_, ?_, by simp, h.tag, by simpa using h.next, ?_, ?_⟩
  · simpa [ThreadScheduler.runnable] using h.nodup
  · simpa [ThreadScheduler.runnable] using h.mem_runnable
  · simpa using h.entry
  · unfold ThreadScheduler.reaperCount at ha ⊢
    cases hr : st.threads.sched.reaper with
    | none => simpa [Threads.drainReaper, hr] using ha
    | some th =>
      simp only [hr, Option.isSome_some, if_true] at ha
      have hle : (1 : UInt64) ≤ st.threads.scheduler.threadsAlive := by
        rw [UInt64.le_iff_toNat_le, ha]
        exact Nat.le_add_left _ _
      simp only [Threads.drainReaper, hr, Scheduler.noteThreadExited]
      rw [UInt64.toNat_sub_of_le _ _ hle, ha]
      rfl
  · simp only [ThreadScheduler.reaperCount, Threads.drainReaper_threads,
      Threads.drainReaper_reaper, Option.isSome_none] at hc ⊢
    exact Nat.le_trans (Nat.le_add_right _ _) hc

/-- The id that the next spawn takes. -/
theorem Inv.nextId (h : Inv st) (hs : st.spawns + 1 < 2 ^ 64) :
    st.threads.nextId.toNat = st.spawns + 1 := by
  rw [h.next, Nat.mod_eq_of_lt hs]

theorem Inv.fresh (h : Inv st) (hs : st.spawns < 2 ^ 64) :
    (⟨st.threads.nextId⟩ : ThreadId) ∉ st.threads.sched.threads := by
  intro hm
  obtain ⟨th, hth⟩ := FMap.mem_iff.mp hm
  obtain ⟨-, -, hpos, hle⟩ := h.entry _ th hth
  have hn := h.next
  simp only at hpos hle
  omega

/-- Before the counter wraps, a new thread is not the bootstrap thread. -/
theorem Inv.nextId_ne_bootstrapId (h : Inv st) (hs : st.spawns + 1 < 2 ^ 64) :
    (⟨st.threads.nextId⟩ : ThreadId) ≠ bootstrapId := by
  intro hc
  have hzero := congrArg (·.asU64.toNat) hc
  simp only [bootstrapId, h.nextId hs] at hzero
  exact absurd hzero (by simp)

theorem Inv.nextId_notMem_runnable (h : Inv st) (hs : st.spawns + 1 < 2 ^ 64) :
    (⟨st.threads.nextId⟩ : ThreadId) ∉ st.threads.sched.runnable := by
  rw [h.mem_runnable]
  exact not_or.mpr ⟨h.nextId_ne_bootstrapId hs, h.fresh (by omega)⟩

theorem Inv.spawn_eq (h : Inv st) (process : ProcessId) (stack : UInt64) (hs : st.spawns < 2 ^ 64) :
    st.threads.spawn p process stack = .ok (⟨{ st.threads.sched with
      threads := st.threads.sched.threads.insert ⟨st.threads.nextId⟩
        (.new ⟨st.threads.nextId⟩ process stack)
      ready := st.threads.sched.ready ++ [⟨st.threads.nextId⟩] },
      st.threads.nextId + 1, st.threads.scheduler.noteThreadSpawned⟩, ⟨st.threads.nextId⟩) := by
  have hf := FMap.get?_eq_none.mpr (h.fresh hs)
  simp only [Threads.spawn, ThreadId.new, hf, Option.isSome_none, Bool.not_false,
    Profile.debugAssert_true, Panics.bind_ok, Panics.pure_eq]

theorem Inv.spawn {t : Threads} {id : ThreadId} (h : Inv st) (hs : st.spawns + 1 < 2 ^ 64)
    (he : st.threads.spawn p process stack = .ok (t, id)) :
    Inv ⟨t, Function.update st.tags id process, st.spawns + 1⟩ := by
  rw [h.spawn_eq process stack (by omega)] at he
  obtain ⟨rfl, rfl⟩ := Prod.mk.inj (Except.ok.inj he)
  have hf := h.fresh (by omega)
  have hn := h.nextId hs
  have hb := h.nextId_ne_bootstrapId hs
  refine ⟨?_, ?_, ?_, ?_, ?_, ?_, ?_, ?_⟩
  · show (st.threads.sched.runnable ++ [_]).Nodup
    exact List.nodup_append_comm.mp
      (List.nodup_cons.mpr ⟨h.nextId_notMem_runnable hs, h.nodup⟩)
  · intro id
    show id ∈ st.threads.sched.runnable ++ [_] ↔ _
    rw [List.mem_append, List.mem_singleton, h.mem_runnable, Finmap.mem_insert]
    tauto
  · intro id th hl
    simp only [FMap.get?_insert] at hl
    by_cases hid : id = ⟨st.threads.nextId⟩
    · rw [if_pos hid] at hl
      obtain rfl := Option.some.inj hl
      subst hid
      refine ⟨rfl, ?_, ?_, ?_⟩
      · simp [KernelThread.new]
      · simp only [hn]; omega
      · simp only [hn]; omega
    · rw [if_neg hid] at hl
      obtain ⟨h1, h2, h3, h4⟩ := h.entry id th hl
      exact ⟨h1, h2.trans (Function.update_of_ne hid ..).symm, h3, Nat.le_succ_of_le h4⟩
  · intro th hr
    obtain ⟨h1, h2⟩ := h.reaped th hr
    refine ⟨?_, Nat.le_succ_of_le h2⟩
    show th.id ∉ st.threads.sched.runnable ++ [_]
    rw [List.mem_append, List.mem_singleton]
    rintro (hm | hm)
    · exact h1 hm
    · rw [hm] at h2
      simp only at h2
      omega
  · simp only [Function.update_of_ne hb.symm, h.tag]
  · show (st.threads.nextId + 1).toNat = _
    rw [UInt64.toNat_add, hn]
    rfl
  · have ha := h.alive
    have hc := h.count
    show (st.threads.scheduler.threadsAlive + 1).toNat = _
    rw [UInt64.toNat_add, ha, FMap.size_insert _ hf]
    unfold ThreadScheduler.reaperCount at *
    simp only [UInt64.reduceToNat] at *
    omega
  · have hc := h.count
    simp only [FMap.size_insert _ hf]
    unfold ThreadScheduler.reaperCount at *
    simp only at *
    omega

/-- Every runnable thread has a context. -/
theorem Inv.contextAt (h : Inv st) (id : ThreadId) (hid : id ∈ st.threads.sched.runnable)
    (current : ThreadId) (ready : List ThreadId) :
    ∃ c, (st.threads.drainReaper.sched.setCurrent current ready).contextAt id = some c := by
  apply ThreadScheduler.contextAt_isSome
  rw [ThreadScheduler.setCurrent_threads, Threads.drainReaper_threads, ← h.mem_runnable]
  exact hid

/-- A yield with nothing ready only drains the reaper; otherwise it rotates the runnable threads
by one. -/
theorem Inv.yieldNow_eq (h : Inv st) (rsp : UInt64) :
    (st.threads.sched.ready = [] ∧ st.threads.yieldNow rsp = .ok (st.threads.drainReaper, none)) ∨
    ∃ nextId ready loaded, st.threads.sched.ready = nextId :: ready ∧
      st.threads.yieldNow rsp = .ok ({ st.threads.drainReaper with
        sched := (st.threads.drainReaper.sched.setCurrent nextId
          (ready ++ [st.threads.sched.current])).setContext st.threads.sched.current ⟨rsp⟩ },
        some loaded) := by
  unfold Threads.yieldNow
  cases hr : st.threads.sched.ready with
  | nil =>
    left
    simp only [Threads.drainReaper_ready, hr]
    exact ⟨trivial, rfl⟩
  | cons nextId ready =>
    right
    obtain ⟨c, hc⟩ := h.contextAt st.threads.sched.current (.head _) nextId
      (ready ++ [st.threads.sched.current])
    obtain ⟨c', hc'⟩ := h.contextAt nextId
      (by rw [ThreadScheduler.runnable, hr]; exact .tail _ (.head _)) nextId
      (ready ++ [st.threads.sched.current])
    refine ⟨nextId, ready, if nextId = st.threads.sched.current then rsp else c'.rsp, rfl, ?_⟩
    simp only [Threads.drainReaper_ready, hr, Threads.drainReaper_current, hc, hc', expect_some,
      Panics.bind_ok, Panics.pure_eq]

theorem Inv.yieldNow {t : Threads} {loaded : Option UInt64} (h : Inv st)
    (he : st.threads.yieldNow rsp = .ok (t, loaded)) : Inv ⟨t, st.tags, st.spawns⟩ := by
  have hd := h.drain
  obtain ⟨-, e⟩ | ⟨nextId, ready, loaded', hr, e⟩ := h.yieldNow_eq rsp
  · rw [e] at he
    obtain ⟨rfl, -⟩ := Prod.mk.inj (Except.ok.inj he)
    exact hd
  · rw [e] at he
    obtain ⟨rfl, -⟩ := Prod.mk.inj (Except.ok.inj he)
    have hperm : (nextId :: (ready ++ [st.threads.sched.current])).Perm
        st.threads.sched.runnable := by
      rw [ThreadScheduler.runnable, hr, ← List.cons_append]
      exact List.perm_append_comm
    refine ⟨?_, ?_, ?_, ?_, h.tag, hd.next, ?_, ?_⟩
    · simpa using hperm.nodup_iff.mpr h.nodup
    · intro id
      simpa [hperm.mem_iff] using h.mem_runnable id
    · intro id th hl
      obtain ⟨th', hl', e1, e2⟩ := ThreadScheduler.get?_setContext hl
      rw [← e1, ← e2]
      exact hd.entry id th' hl'
    · simp
    · simpa [ThreadScheduler.reaperCount] using hd.alive
    · simpa [ThreadScheduler.reaperCount] using hd.count

/-- The thread that is current and not `bootstrapId` has an entry, and another thread is ready. -/
theorem Inv.exit_cases (h : Inv st) (hc : st.threads.sched.current ≠ bootstrapId) :
    ∃ th nextId ready, st.threads.sched.threads.get? st.threads.sched.current = some th ∧
      st.threads.sched.ready = nextId :: ready := by
  have hm := (h.mem_runnable st.threads.sched.current).mp (.head _)
  obtain ⟨th, hth⟩ := FMap.mem_iff.mp (hm.resolve_left hc)
  have hb : bootstrapId ∈ st.threads.sched.ready :=
    (List.mem_cons.mp ((h.mem_runnable bootstrapId).mpr (.inl rfl))).resolve_left hc.symm
  obtain ⟨nextId, ready, hr⟩ := List.exists_cons_of_ne_nil (List.ne_nil_of_mem hb)
  exact ⟨th, nextId, ready, hth, hr⟩

/-- An exit moves the current thread's entry to the reaper slot and starts the next thread. -/
theorem Inv.exitThread_eq (h : Inv st) (hc : st.threads.sched.current ≠ bootstrapId)
    {th : KernelThread} {nextId : ThreadId} {ready : List ThreadId}
    (hth : st.threads.sched.threads.get? st.threads.sched.current = some th)
    (hr : st.threads.sched.ready = nextId :: ready) :
    ∃ loaded, st.threads.exitThread p = .ok ({ st.threads.drainReaper with
      sched := ⟨st.threads.sched.threads.erase st.threads.sched.current, ready, nextId,
        st.threads.drainReaper.sched.bootstrapContext, some th⟩ }, loaded) := by
  have hne : nextId ≠ st.threads.sched.current := by
    have := h.nodup
    rw [ThreadScheduler.runnable, hr] at this
    exact fun e => (List.nodup_cons.mp this).1 (e ▸ .head _)
  have hm : nextId ∈ st.threads.sched.runnable := by
    rw [ThreadScheduler.runnable, hr]; exact .tail _ (.head _)
  exact Threads.exitThread_eq hc hth hr hne ((h.mem_runnable nextId).mp hm)

theorem Inv.exitThread {t : Threads} {loaded : UInt64} (h : Inv st)
    (hc : st.threads.sched.current ≠ bootstrapId)
    (he : st.threads.exitThread p = .ok (t, loaded)) : Inv ⟨t, st.tags, st.spawns⟩ := by
  have hd := h.drain
  obtain ⟨th, nextId, ready, hth, hr⟩ := h.exit_cases hc
  obtain ⟨loaded', e⟩ := h.exitThread_eq (p := p) hc hth hr
  rw [e] at he
  obtain ⟨rfl, -⟩ := Prod.mk.inj (Except.ok.inj he)
  have hrun : st.threads.sched.runnable = st.threads.sched.current :: nextId :: ready := by
    rw [ThreadScheduler.runnable, hr]
  obtain ⟨hnot, hnodup⟩ := List.nodup_cons.mp (hrun ▸ h.nodup)
  have hsize := FMap.size_erase (FMap.mem_of_get? hth)
  have hthid := (h.entry _ th hth).1
  have hlt := (h.entry _ th hth).2.2.2
  refine ⟨hnodup, ?_, ?_, ?_, h.tag, hd.next, ?_, ?_⟩
  · intro id
    have hm := h.mem_runnable id
    rw [hrun, List.mem_cons] at hm
    show id ∈ nextId :: ready ↔ id = bootstrapId ∨ id ∈ st.threads.sched.threads.erase _
    rw [Finmap.mem_erase]
    by_cases hid : id = st.threads.sched.current
    · subst hid
      exact ⟨fun hx => absurd hx hnot, fun hx => absurd rfl (hx.resolve_left hc).1⟩
    · simp only [hid, false_or] at hm
      rw [hm]
      simp [hid]
  · intro id th' hl
    simp only [FMap.get?_erase] at hl
    split at hl
    · cases hl
    · exact h.entry id th' hl
  · intro th' hr'
    obtain rfl := Option.some.inj hr'
    rw [hthid]
    exact ⟨hnot, hlt⟩
  · have ha := hd.alive
    simp only [ThreadScheduler.reaperCount, Threads.drainReaper_threads, Threads.drainReaper_reaper,
      Option.isSome_none] at ha
    simp only [ThreadScheduler.reaperCount, Option.isSome_some, if_true, hsize]
    exact ha
  · have hcount := hd.count
    simp only [ThreadScheduler.reaperCount, Threads.drainReaper_threads, Threads.drainReaper_reaper,
      Option.isSome_none] at hcount
    simp only [ThreadScheduler.reaperCount, Option.isSome_some, if_true, hsize]
    exact hcount

theorem Step.spawns_le {op : ThreadOp} {st' : Traced} (h : Step p st op st') :
    st.spawns ≤ st'.spawns := by
  cases h with
  | spawn => exact Nat.le_succ _
  | yieldNow => exact Nat.le_refl _
  | exitThread => exact Nat.le_refl _

/-- Every state of a run with fewer than `2 ^ 64` spawns. -/
theorem inv_reach (h : (system p).Reach st) : st.spawns < 2 ^ 64 → Inv st := by
  refine Sys.Preserved.reach (I := fun st => st.spawns < 2 ^ 64 → Inv st) ⟨?_, ?_⟩ h
  · rintro st rfl -
    exact Inv.boot
  · intro st op st' _ ih hst hs
    have hi := ih (Nat.lt_of_le_of_lt (Step.spawns_le hst) hs)
    cases hst with
    | spawn e => exact hi.spawn hs e
    | yieldNow e => exact hi.yieldNow e
    | exitThread hc e => exact hi.exitThread hc e

end Traced

end Apogee
