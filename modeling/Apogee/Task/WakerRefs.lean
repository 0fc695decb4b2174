import Apogee.Task.KeyboardSpec

/-!
# The handler of an interrupt frees nothing

A `Waker` is an `Arc<TaskWaker>`. The keyboard's handler takes the registered one out of `WAKER`,
fires it and drops it. If that were the last one, the handler would enter the allocator, whose lock
the interrupted code may hold.

`WakerRefs` adds the strong count of the keyboard task's waker to the state, changed where the code
clones or drops one.

* `Held`: while the executor has a task in hand, its waker is cached, and a task whose waker is
  removed is gone.
* `cached_reach`: the keyboard task never finishes, so its waker stays in `waker_cache`.
* `interrupt_frees_nothing`: the handler never drops the last one.
-/

namespace Apogee

open Verif

variable {F δ : Type} {p : Profile} {d : Decoder δ} {kbd : TaskId}

namespace ExecutorState

variable {st st' : ExecutorState F} {e : ExecutorEvent F}

/-- The waker of the task in hand. -/
structure Held (st : ExecutorState F) : Prop where
  cached : ∀ id, st.pos = .cached id ∨ st.pos = .polling id ∨ st.pos = .ready id ∨
    st.pos = .removed id → id ∈ st.exec.wakerCache
  gone : ∀ id, st.pos = .removed id ∨ st.pos = .uncached id → id ∉ st.exec.tasks

theorem mem_cacheWaker (x : CoopExecutor F) (id : TaskId) :
    id ∈ (x.cacheWaker id).wakerCache := by
  unfold CoopExecutor.cacheWaker
  split
  · next hw => exact FMap.mem_of_get? hw
  · exact Finmap.mem_insert.mpr (.inl rfl)

theorem Held.step (h : Held st) (hst : Step p st e st') : Held st' := by
  obtain ⟨hcached, hgone⟩ := h
  cases hst with
  | spawn hpos hspawn =>
    obtain ⟨-, -, -, hcache, -⟩ := CoopExecutor.spawn_ok hspawn
    constructor <;> simp [hpos]
  | wake _ _ hwake =>
    obtain ⟨q, -, rfl⟩ := TaskWaker.wakeTask_ok hwake
    exact ⟨hcached, hgone⟩
  | @cacheWaker id =>
    have hmem := mem_cacheWaker st.exec id
    constructor <;> simp_all
  | removeTask => constructor <;> grind [Finmap.mem_erase]
  | removeWaker => constructor <;> grind
  | runReadyTasks | popNone | pop | skip | poll | pending | ready | removeStarted | disable | halt
  | enable | interrupt => constructor <;> grind

theorem held_reach (h : (system p F).Reach st) : Held st := by
  refine Sys.Preserved.reach (I := Held) ⟨?_, ?_⟩ h
  · rintro st ⟨scheduler, owner, rfl⟩
    constructor <;> simp
  · intro st e st' _ hi hst
    exact hi.step hst

/-- A cached waker stays while its task is there. -/
theorem Step.cached (hst : Step p st e st') (h : Held st) (hlive : kbd ∈ st.exec.tasks)
    (hmem : kbd ∈ st.exec.wakerCache) : kbd ∈ st'.exec.wakerCache := by
  cases hst with
  | spawn hpos hspawn =>
    obtain ⟨-, -, -, hcache, -⟩ := CoopExecutor.spawn_ok hspawn
    rwa [hcache]
  | wake _ _ hwake =>
    obtain ⟨q, -, rfl⟩ := TaskWaker.wakeTask_ok hwake
    exact hmem
  | @cacheWaker id =>
    unfold CoopExecutor.cacheWaker
    split
    · exact hmem
    · exact Finmap.mem_insert.mpr (.inr hmem)
  | @removeWaker id hpos =>
    have hne : kbd ≠ id := fun heq => h.gone id (.inl hpos) (heq ▸ hlive)
    exact Finmap.mem_erase.mpr ⟨hne, hmem⟩
  | runReadyTasks | popNone | pop | skip | poll | pending | ready | removeTask | removeStarted
  | disable | halt | enable | interrupt => exact hmem

end ExecutorState

/-- A keyboard with the strong count of the keyboard task's `Arc<TaskWaker>`. -/
structure WakerRefs (F δ : Type) where
  keyboard : KeyboardState F δ
  strong : Nat

namespace WakerRefs

/-- One if `WAKER` holds a waker. -/
def registered (waker : Option TaskWaker) : Nat := if waker.isSome then 1 else 0

/-- The wakers that a step makes, by `clone`. -/
def clones : KeyboardEvent → Nat
  | .register => 1
  | _ => 0

/-- The wakers that a step drops: the one registered before, the one that `WAKER.take` or
`WAKER.wake` has taken out, and the one that `waker_cache` has lost. -/
def drops (kbd : TaskId) (st st' : KeyboardState F δ) : KeyboardEvent → Nat
  | .register | .take => registered st.waker
  | .addScancode scancode => registered (addScancode scancode st.scancodeQueue st.waker).2.2
  | .exec => if kbd ∈ st.exec.exec.wakerCache ∧ kbd ∉ st'.exec.exec.wakerCache then 1 else 0
  | _ => 0

inductive Step (p : Profile) (d : Decoder δ) (kbd : TaskId) :
    WakerRefs F δ → KeyboardEvent → WakerRefs F δ → Prop
  | mk {s : WakerRefs F δ} {e : KeyboardEvent} {st : KeyboardState F δ} :
      KeyboardState.Step p d kbd s.keyboard e st →
      Step p d kbd s e ⟨st, s.strong + clones e - drops kbd s.keyboard st e⟩

/-- The runs from the first poll of the keyboard task, with its waker in `waker_cache`. -/
def system (p : Profile) (d : Decoder δ) (F : Type) (kbd : TaskId) :
    Sys (WakerRefs F δ) KeyboardEvent where
  init s := (KeyboardState.system p d F kbd).init s.keyboard ∧ s.strong = 1
  step := Step p d kbd

/-- One waker is in `waker_cache`, and `WAKER` may have another. -/
structure Inv (kbd : TaskId) (s : WakerRefs F δ) : Prop where
  cached : kbd ∈ s.keyboard.exec.exec.wakerCache
  strong : s.strong = 1 + registered s.keyboard.waker

variable {s s' : WakerRefs F δ} {e : KeyboardEvent}

theorem reach_keyboard (h : (system p d F kbd).Reach s) :
    (KeyboardState.system p d F kbd).Reach s.keyboard := by
  refine h.map WakerRefs.keyboard ?_ ?_
  · rintro s ⟨hinit, -⟩
    exact hinit
  · rintro s e s' - ⟨hst⟩
    exact .inr ⟨e, hst⟩

/-- The executor keeps the keyboard task's waker. -/
theorem cached_step {st st' : KeyboardState F δ} (hk : st.Inv p kbd)
    (hst : KeyboardState.Step p d kbd st e st') (hmem : kbd ∈ st.exec.exec.wakerCache) :
    kbd ∈ st'.exec.exec.wakerCache := by
  have hheld := ExecutorState.held_reach hk.reach
  cases hst with
  | exec hx | poll _ hx | pending _ hx => exact hx.cached hheld hk.live hmem
  | @addScancode scancode x hpos hfires =>
    have hexec := (st.exec.interrupted_keeps kbd).1
    unfold KeyboardState.Fires at hfires
    split at hfires
    · rw [hfires, hexec]
      exact hmem
    · have hheld' := ExecutorState.held_reach (ExecutorState.reach_interrupted hk.reach)
      exact hfires.cached hheld' (hexec ▸ hk.live) (hexec ▸ hmem)
  | popFirst | emptyFirst | register | popSecond | emptySecond | take | decode | readByte =>
    exact hmem

theorem Inv.step (h : Inv kbd s) (hk : s.keyboard.Inv p kbd) (hst : Step p d kbd s e s') :
    Inv kbd s' := by
  obtain ⟨hst⟩ := hst
  have hcached := cached_step hk hst h.cached
  refine ⟨hcached, ?_⟩
  have hstrong := h.strong
  cases hst with
  | exec => simpa [clones, drops, hcached] using hstrong
  | register | take =>
    simp only [clones, drops, hstrong]
    simp only [registered, Option.isSome_some, Option.isSome_none, Bool.false_eq_true, if_true,
      if_false]
    omega
  | @addScancode scancode =>
    simp only [clones, drops, addScancode, hstrong]
    split <;> simp [registered]
  | poll | popFirst | emptyFirst | popSecond | emptySecond | decode | pending | readByte =>
    simpa [clones, drops] using hstrong

theorem inv_reach (h : (system p d F kbd).Reach s) : Inv kbd s := by
  refine Sys.Preserved.reach (I := Inv kbd) ⟨?_, ?_⟩ h
  · rintro s ⟨⟨hreach, hpos, -, hwaker, -⟩, hstrong⟩
    have hcached := (ExecutorState.held_reach hreach).cached kbd (.inr (.inl hpos))
    exact ⟨hcached, by simp [hstrong, hwaker, registered]⟩
  · intro s e s' hr hi hst
    exact hi.step (KeyboardState.inv_reach (reach_keyboard hr)) hst

/-- In every run, wherever the executor and the task are when the interrupt comes, the handler
drops one waker at most and leaves another. -/
theorem interrupt_frees_nothing (p : Profile) (d : Decoder δ) (F : Type) (kbd : TaskId)
    (s s' : WakerRefs F δ) (scancode : UInt8) (h : (system p d F kbd).Reach s)
    (hst : Step p d kbd s (.addScancode scancode) s') :
    drops kbd s.keyboard s'.keyboard (.addScancode scancode) < s.strong ∧ 0 < s'.strong ∧
    ∃ w, s'.keyboard.exec.exec.wakerCache.get? kbd = some w ∧ w.taskId = kbd := by
  have hinv := inv_reach h
  have hinv' := inv_reach (h.step hst)
  refine ⟨?_, ?_, ?_⟩
  · rw [hinv.strong]
    simp only [drops, addScancode]
    split <;> simp [registered]
  · rw [hinv'.strong]
    omega
  · obtain ⟨w, hw⟩ := FMap.mem_iff.mp hinv'.cached
    have hk := KeyboardState.inv_reach (reach_keyboard (h.step hst))
    exact ⟨w, hw, (ExecutorState.inv_reach hk.reach).2.1.waker kbd w hw⟩

/-- The task waits with its waker registered, and a scancode arrives: two wakers, then one. -/
theorem interrupt_frees_nothing_waiting : ∃ s s' : WakerRefs Unit Unit,
    (system .dev ⟨fun _ _ => ((), none)⟩ Unit ⟨0⟩).Reach s ∧ s.strong = 2 ∧ s'.strong = 1 ∧
    drops ⟨0⟩ s.keyboard s'.keyboard (.addScancode 0x1e) < s.strong := by
  have h0 : (ExecutorState.system .dev Unit).Reach ⟨.new, .new, .outside, fun _ => false, 0,
      fun _ => 0, fun _ => false⟩ := .init ⟨_, _, rfl⟩
  have h1 := h0.step (@ExecutorState.Step.spawn _ _ _ ⟨⟨0⟩, ()⟩ _ _ rfl rfl)
  have h2 := h1.step (.runReadyTasks rfl)
  have h3 := h2.step (.pop rfl rfl)
  have h4 := h3.step (.cacheWaker rfl rfl)
  have h5 := h4.step (.poll rfl)
  have k0 : (system .dev ⟨fun _ _ => ((), none)⟩ Unit ⟨0⟩).Reach
      ⟨⟨_, .empty, none, .empty, (), .first⟩, 1⟩ := .init ⟨⟨h5, rfl, rfl, rfl, rfl, rfl⟩, rfl⟩
  have k1 := k0.step ⟨.emptyFirst rfl rfl⟩
  have k2 := k1.step ⟨.register rfl rfl⟩
  have k3 := k2.step ⟨.emptySecond rfl rfl⟩
  have k4 := k3.step ⟨.pending rfl (@ExecutorState.Step.pending _ _ _ _ () rfl)⟩
  have hsafe := interrupt_frees_nothing _ _ _ _ _ _ 0x1e k4
    ⟨KeyboardState.Step.addScancode (by decide)
      (ExecutorState.Step.wake (by decide) (by decide) rfl)⟩
  exact ⟨_, _, k4, rfl, rfl, hsafe.1⟩

end WakerRefs

end Apogee
