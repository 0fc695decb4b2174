import Apogee.Lib.Mailbox
import Apogee.Task.Keyboard
import Apogee.Task.Wakeup

/-!
# No scancode gets stuck

The keyboard task and the interrupt that feeds it are a mailbox with a registered waker: the waker
of the task's context is registered between two looks at the queue, and a signal is a wake of the
task. `mailbox` is the map, and `mailbox_step` says that it takes every step of the executor, the
task and the interrupt to a step of the mailbox, or to none.

So a task that is not being polled while a scancode is queued has been woken since its last poll
began. By the executor's invariant its id is then in the ready queue (`scancode_not_stuck`).
-/

namespace Apogee

open Verif

variable {F δ : Type} {p : Profile} {d : Decoder δ} {kbd : TaskId}

/-- The executor has popped the id and not yet entered the poll. -/
def ExecutorState.Starting (kbd : TaskId) (x : ExecutorState F) : Prop :=
  x.pos = .popped kbd ∨ x.pos = .cached kbd

instance (x : ExecutorState F) : Decidable (x.Starting kbd) :=
  inferInstanceAs (Decidable (_ ∨ _))

/-- What a step of the executor that neither enters nor leaves the poll of a live task does to that
task: it keeps it and may wake it, or it begins its poll. -/
theorem ExecutorState.Step.effect {x x' : ExecutorState F} {e : ExecutorEvent F}
    (hst : ExecutorState.Step p x e x') (hlive : kbd ∈ x.exec.tasks) (hready : x.pos ≠ .ready kbd)
    (hpoll : x.pos = .polling kbd ↔ x'.pos = .polling kbd) :
    kbd ∈ x'.exec.tasks ∧ x'.pos ≠ .ready kbd ∧
    ((x'.Starting kbd ↔ x.Starting kbd) ∧ (x'.woken kbd = x.woken kbd ∨ x'.woken kbd = true) ∨
      ¬ x.Starting kbd ∧ x.pos ≠ .polling kbd ∧ x'.Starting kbd ∧ x'.woken kbd = false) := by
  unfold ExecutorState.Starting
  cases hst with
  | spawn hpos hspawn =>
    obtain ⟨-, htasks, -⟩ := CoopExecutor.spawn_ok hspawn
    grind [Finmap.mem_insert, Function.update_apply]
  | wake _ _ hwake =>
    obtain ⟨q, hpush, rfl⟩ := TaskWaker.wakeTask_ok hwake
    grind [Function.update_apply]
  | pop => grind [Function.update_apply]
  | skip hpos hnone =>
    rw [FMap.get?_eq_none] at hnone
    grind
  | pending => grind [FMap.mem_adjust]
  | removeTask => grind [Finmap.mem_erase]
  | runReadyTasks | popNone | cacheWaker | poll | ready | removeWaker | removeStarted | disable
  | halt | enable | interrupt => grind

/-- An interrupt leaves everything about a task but the `hlt`. -/
theorem ExecutorState.interrupted_keeps (x : ExecutorState F) (kbd : TaskId) :
    x.interrupted.exec = x.exec ∧ x.interrupted.woken = x.woken ∧
    (x.interrupted.Starting kbd ↔ x.Starting kbd) ∧
    (x.interrupted.pos = .polling kbd ↔ x.pos = .polling kbd) ∧
    (x.interrupted.pos = .ready kbd ↔ x.pos = .ready kbd) := by
  unfold ExecutorState.interrupted ExecutorState.Starting
  split <;> simp_all

theorem ExecutorState.reach_interrupted {x : ExecutorState F}
    (h : (ExecutorState.system p F).Reach x) : (ExecutorState.system p F).Reach x.interrupted := by
  unfold ExecutorState.interrupted
  split
  · next hpos => exact h.step (.interrupt hpos)
  · exact h

namespace KeyboardState

variable {st st' : KeyboardState F δ} {e : KeyboardEvent}

/-- Where the consumer of the mailbox is. -/
def phase (kbd : TaskId) (st : KeyboardState F δ) : MailboxPhase :=
  match st.pos with
  | .waiting => if st.exec.Starting kbd then .first else .idle
  | .first | .received _ => .first
  | .register => .register
  | .second => .second
  | .take _ => .withdraw
  | .pending => .pending

/-- The scancode queue with the registration in `WAKER`. The signal is a wake of the task. -/
def mailbox (kbd : TaskId) (st : KeyboardState F δ) : Mailbox UInt8 where
  items := st.scancodeQueue.elems
  armed := st.waker.isSome
  signalled := st.exec.woken kbd
  phase := st.phase kbd

/-- The task is there and never finishes, and only its own waker is ever registered. -/
structure Inv (p : Profile) (kbd : TaskId) (st : KeyboardState F δ) : Prop where
  reach : (ExecutorState.system p F).Reach st.exec
  polled : st.exec.pos = .polling kbd ↔ st.pos ≠ .waiting
  live : kbd ∈ st.exec.exec.tasks
  not_ready : st.exec.pos ≠ .ready kbd
  waker : ∀ w, st.waker = some w → w.taskId = kbd

/-- What the interrupt does to the executor: it wakes the task if the task's waker was registered.
-/
theorem Fires.effect {x x' : ExecutorState F} {fired : Option TaskWaker}
    (h : Fires p x.interrupted fired x') (hw : ∀ w, fired = some w → w.taskId = kbd) :
    ((ExecutorState.system p F).Reach x → (ExecutorState.system p F).Reach x') ∧
    x'.exec.tasks = x.exec.tasks ∧ (x'.Starting kbd ↔ x.Starting kbd) ∧
    (x'.pos = .polling kbd ↔ x.pos = .polling kbd) ∧ (x'.pos = .ready kbd ↔ x.pos = .ready kbd) ∧
    x'.woken kbd = (x.woken kbd || fired.isSome) := by
  obtain ⟨hexec, hwoken, hstart, hpoll, hready⟩ := x.interrupted_keeps kbd
  cases fired with
  | none =>
    obtain rfl : x' = x.interrupted := h
    exact ⟨ExecutorState.reach_interrupted, by rw [hexec], hstart, hpoll, hready, by simp [hwoken]⟩
  | some w =>
    obtain rfl := hw w rfl
    refine ⟨fun hr => (ExecutorState.reach_interrupted hr).step h, ?_⟩
    cases h with
    | wake _ _ hwake =>
      obtain ⟨q, -, rfl⟩ := TaskWaker.wakeTask_ok hwake
      exact ⟨by rw [hexec], hstart, hpoll, hready, by simp⟩

/-- The waker that the interrupt fires is the keyboard task's. -/
theorem Inv.fired (h : Inv p kbd st) (scancode : UInt8) (w : TaskWaker)
    (hw : (addScancode scancode st.scancodeQueue st.waker).2.2 = some w) : w.taskId = kbd := by
  unfold addScancode at hw
  split at hw
  · cases hw
  · exact h.waker w hw

theorem Inv.step (h : Inv p kbd st) (hst : Step p d kbd st e st') : Inv p kbd st' := by
  have hfired := h.fired
  obtain ⟨hreach, hpolled, hlive, hready, hwaker⟩ := h
  cases hst with
  | exec hx hpoll =>
    obtain ⟨hlive', hready', -⟩ := hx.effect hlive hready hpoll
    exact ⟨hreach.step hx, hpoll.symm.trans hpolled, hlive', hready', hwaker⟩
  | poll hpos hx =>
    refine ⟨hreach.step hx, ?_, ?_, ?_, hwaker⟩ <;> cases hx <;> grind
  | popFirst hpos | emptyFirst hpos | popSecond hpos | emptySecond hpos | decode hpos =>
    exact ⟨hreach, by simp [hpolled, hpos], hlive, hready, hwaker⟩
  | register hpos hw =>
    refine ⟨hreach, by simp [hpolled, hpos], hlive, hready, fun w' hw' => ?_⟩
    obtain rfl := Option.some.inj hw'
    exact (ExecutorState.inv_reach hreach).2.1.waker kbd _ hw
  | take hpos => exact ⟨hreach, by simp [hpolled, hpos], hlive, hready, by simp⟩
  | pending hpos hx =>
    refine ⟨hreach.step hx, ?_, ?_, ?_, hwaker⟩ <;> cases hx <;> grind [FMap.mem_adjust]
  | @addScancode scancode x hpos hfires =>
    obtain ⟨hreach', htasks, -, hpoll, hready', -⟩ := hfires.effect (hfired scancode)
    refine ⟨hreach' hreach, hpoll.trans hpolled, by rw [htasks]; exact hlive,
      fun hr => hready (hready'.mp hr), ?_⟩
    grind [addScancode]
  | readByte => exact ⟨hreach, hpolled, hlive, hready, hwaker⟩

/-- Every step is a step of the mailbox, or none. -/
theorem mailbox_step (h : Inv p kbd st) (hst : Step p d kbd st e st') :
    st'.mailbox kbd = st.mailbox kbd ∨ Mailbox.Step (st.mailbox kbd) () (st'.mailbox kbd) := by
  cases hst with
  | @exec e x hx hpoll =>
    obtain ⟨-, -, ⟨hstart, hwoken⟩ | ⟨hstart, hpos, hstart', hwoken⟩⟩ :=
      hx.effect h.live h.not_ready hpoll
    · have hphase : phase kbd { st with exec := x } = st.phase kbd := by
        simp only [phase, hstart]
      obtain heq | htrue := hwoken
      · exact .inl (by simp only [mailbox, hphase, heq])
      · right
        simp only [mailbox, hphase, htrue]
        exact .signal
    · -- The poll of the keyboard task begins, so it was not being polled.
      have hwait : st.pos = .waiting := not_not.mp fun hne => hpos (h.polled.mpr hne)
      right
      simp only [mailbox, phase, hwait, hstart', hwoken, if_true]
      exact .start (by simp only [hstart, if_false])
  | poll hpos hx =>
    have hwait : st.pos = .waiting := not_not.mp fun hne => by
      rw [h.polled.mpr hne] at hpos
      cases hpos
    cases hx
    exact .inl (by
      simp only [mailbox, phase, hwait, ExecutorState.Starting, hpos, or_true, if_true])
  | pending hpos hx =>
    cases hx
    right
    simp only [mailbox, phase, hpos, ExecutorState.Starting, reduceCtorEq, or_self, if_false]
    exact .goIdle rfl
  | @addScancode scancode x hpos hfires =>
    obtain ⟨-, -, hstart, -, -, hwoken⟩ := hfires.effect (h.fired scancode)
    cases hpush : st.scancodeQueue.push scancode with
    | none =>
      have hnone : x.woken kbd = st.exec.woken kbd := by simpa [addScancode, hpush] using hwoken
      exact .inl (by simp only [mailbox, phase, addScancode, hpush, hstart, hnone])
    | some q =>
      have hsome : x.woken kbd = (st.exec.woken kbd || st.waker.isSome) := by
        simpa only [addScancode, hpush] using hwoken
      right
      simp only [mailbox, phase, addScancode, hpush, hstart, hsome, BQueue.push_elems hpush]
      exact .send scancode
  | readByte => exact .inl rfl
  | popFirst hpos hpop =>
    obtain ⟨x, q, w, k, dec, pos⟩ := st
    cases hpos
    exact .inr (.receive rfl (BQueue.pop_elems hpop))
  | emptyFirst hpos hpop =>
    obtain ⟨x, q, w, k, dec, pos⟩ := st
    cases hpos
    exact .inr (.foundNone rfl (BQueue.pop_eq_none.mp hpop))
  | register hpos hw =>
    obtain ⟨x, q, w, k, dec, pos⟩ := st
    cases hpos
    exact .inr (.register rfl)
  | popSecond hpos hpop =>
    obtain ⟨x, q, w, k, dec, pos⟩ := st
    cases hpos
    exact .inr (.receiveLate rfl (BQueue.pop_elems hpop))
  | emptySecond hpos hpop =>
    obtain ⟨x, q, w, k, dec, pos⟩ := st
    cases hpos
    exact .inr (.stillNone rfl (BQueue.pop_eq_none.mp hpop))
  | take hpos =>
    obtain ⟨x, q, w, k, dec, pos⟩ := st
    cases hpos
    exact .inr (.withdraw rfl)
  | decode hpos => exact .inl (by simp only [mailbox, phase, hpos])

theorem inv_reach (h : (system p d F kbd).Reach st) : Inv p kbd st := by
  refine Sys.Preserved.reach (I := Inv p kbd) ⟨?_, ?_⟩ h
  · rintro st ⟨hreach, hpos, -, hwaker, -, hfirst⟩
    have hlive := (ExecutorState.inv_reach hreach).2.1.polled kbd (.inr (.inl hpos))
    exact ⟨hreach, by simp [hpos, hfirst], hlive, by simp [hpos], by simp [hwaker]⟩
  · intro st e st' _ hi hst
    exact hi.step hst

theorem reach_mailbox (h : (system p d F kbd).Reach st) :
    (Mailbox.system UInt8).Reach (st.mailbox kbd) := by
  refine h.map (mailbox kbd) ?_ ?_
  · rintro st ⟨-, -, hqueue, hwaker, -, hfirst⟩
    simp only [mailbox, phase, hqueue, hwaker, hfirst]
    exact ⟨rfl, rfl, rfl⟩
  · intro st e st' hr hst
    obtain heq | hm := mailbox_step (inv_reach hr) hst
    · exact .inl heq
    · exact .inr ⟨(), hm⟩

/-- While a scancode is queued, the keyboard task is being polled or its id is in the ready queue,
and so the CPU is not halted. -/
theorem scancode_not_stuck (p : Profile) (d : Decoder δ) (F : Type) (kbd : TaskId)
    (st : KeyboardState F δ) (h : (system p d F kbd).Reach st)
    (hqueued : st.scancodeQueue.isEmpty = false) :
    (st.exec.pos.task ≠ some kbd → kbd ∈ st.exec.exec.taskQueue.elems) ∧
    st.exec.pos ≠ .halted := by
  have hinv := inv_reach h
  obtain ⟨hwake, -⟩ := ExecutorState.inv_reach hinv.reach
  have hitems : (st.mailbox kbd).items ≠ [] := fun hnil => by
    rw [BQueue.isEmpty_iff.mpr hnil] at hqueued
    cases hqueued
  have hin : st.exec.pos.task ≠ some kbd → kbd ∈ st.exec.exec.taskQueue.elems := by
    intro htask
    have hwait : st.pos = .waiting := not_not.mp fun hne => htask (by rw [hinv.polled.mpr hne]; rfl)
    have hstart : ¬ st.exec.Starting kbd := by
      rintro (hpos | hpos)
      · exact htask (by rw [hpos]; rfl)
      · exact htask (by rw [hpos]; rfl)
    have hidle : (st.mailbox kbd).phase = .idle := by
      simp only [mailbox, phase, hwait, hstart, if_false]
    exact hwake.queued kbd (Mailbox.idle_signalled (reach_mailbox h) hidle hitems)
  refine ⟨hin, fun hhalt => ?_⟩
  have hmem := hin (by rw [hhalt]; exact nofun)
  rw [hwake.halted hhalt] at hmem
  cases hmem

/-- The keyboard task finds nothing and waits, and a scancode arrives: the interrupt puts the task's
id into the ready queue. -/
theorem scancode_not_stuck_waiting : ∃ st : KeyboardState Unit Unit,
    (system .dev ⟨fun _ _ => ((), none)⟩ Unit ⟨0⟩).Reach st ∧ st.exec.pos = .outside ∧
    st.scancodeQueue.elems = [0x1e] ∧ ⟨0⟩ ∈ st.exec.exec.taskQueue.elems := by
  have h0 : (ExecutorState.system .dev Unit).Reach ⟨.new, .new, .outside, fun _ => false, 0,
      fun _ => 0, fun _ => false⟩ := .init ⟨_, _, rfl⟩
  have h1 := h0.step (@ExecutorState.Step.spawn _ _ _ ⟨⟨0⟩, ()⟩ _ _ rfl rfl)
  have h2 := h1.step (.runReadyTasks rfl)
  have h3 := h2.step (.pop rfl rfl)
  have h4 := h3.step (.cacheWaker rfl rfl)
  have h5 := h4.step (.poll rfl)
  have k0 : (system .dev ⟨fun _ _ => ((), none)⟩ Unit ⟨0⟩).Reach
      ⟨_, .empty, none, .empty, (), .first⟩ := .init ⟨h5, rfl, rfl, rfl, rfl, rfl⟩
  have k1 := k0.step (.emptyFirst rfl rfl)
  have k2 := k1.step (.register rfl rfl)
  have k3 := k2.step (.emptySecond rfl rfl)
  have k4 := k3.step (.pending rfl (@ExecutorState.Step.pending _ _ _ _ () rfl))
  have k5 := k4.step (.exec (.popNone rfl rfl) (by decide))
  have k6 := k5.step (@Step.addScancode _ _ _ _ _ _ 0x1e _ (by decide)
    (ExecutorState.Step.wake (by decide) (by decide) rfl))
  exact ⟨_, k6, rfl, rfl, (scancode_not_stuck _ _ _ _ _ k6 rfl).1 (by decide)⟩

end KeyboardState

end Apogee
