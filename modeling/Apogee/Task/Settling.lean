import Apogee.Lib.Progress
import Apogee.Task.Delivery
import Apogee.Task.WakerRefs

/-!
# The executor settles

The loop of `CoopExecutor::run` with the keyboard task in it. `run` calls `run_ready_tasks` and
`sleep_if_idle` in turn and never gives the CPU to another thread, so from then on only interrupts
come between its steps.

* `RunLoop.Work`: a step of the loop, of a poll or of the keyboard task. `RunLoop.Step` adds the
  interrupts.
* `RunLoop.potential`: every step of the loop lowers it, and an interrupt raises it by 18 at most:
  five for a scancode, seven for an id in the ready queue, six for the end of a `hlt`.
* `Settled`: the CPU is halted, every scancode that was taken has been decoded, and the next one
  will wake the task.
* `executor_settles`: a run has 18 steps for each interrupt and 1211 more at most, and once the
  interrupts stop it comes to a settled state.
-/

namespace Apogee

open Verif

variable {F δ : Type} {p : Profile} {d : Decoder δ} {kbd : TaskId}

/-- The call that the loop of `run` makes next. -/
inductive RunCall where
  | runReadyTasks
  | sleepIfIdle
  deriving DecidableEq

/-- The loop can make a step of the executor when this call is its next one. Nobody spawns a task,
and wakes and the end of a `hlt` come from interrupts. -/
def RunCall.makes (call : RunCall) : ExecutorEvent F → Bool
  | .runReadyTasks => call = .runReadyTasks
  | .disable => call = .sleepIfIdle
  | .popNone | .pop _ | .skip | .cacheWaker | .poll | .pending _ | .ready | .removeTask
  | .removeWaker | .removeStarted | .halt | .enable => true
  | .spawn _ | .wake _ | .interrupt => false

/-- The next call after a step. -/
def RunCall.after (call : RunCall) : ExecutorEvent F → RunCall
  | .popNone => .sleepIfIdle
  | .halt | .enable => .runReadyTasks
  | _ => call

/-- The step is one of the keyboard task. -/
def KeyboardEvent.ofTask : KeyboardEvent → Bool
  | .poll | .popFirst | .emptyFirst | .register | .popSecond | .emptySecond | .take | .decode
  | .pending => true
  | .exec | .addScancode _ | .readByte => false

/-- `run`, inside its loop. -/
structure RunLoop (F δ : Type) where
  logged : Logged F δ
  next : RunCall

inductive RunLoopEvent where
  | work
  | interrupt
  deriving DecidableEq

namespace RunLoop

/-- The executor. -/
abbrev exec (s : RunLoop F δ) : ExecutorState F := s.logged.keyboard.exec

/-- A step of the loop. -/
inductive Work (p : Profile) (d : Decoder δ) (kbd : TaskId) : RunLoop F δ → RunLoop F δ → Prop
  | exec {s : RunLoop F δ} {e : ExecutorEvent F} {x : ExecutorState F} :
      ExecutorState.Step p s.exec e x → (s.exec.pos = .polling kbd ↔ x.pos = .polling kbd) →
      s.next.makes e = true →
      Work p d kbd s ⟨{ s.logged with keyboard := { s.logged.keyboard with exec := x } },
        s.next.after e⟩
  | task {s : RunLoop F δ} {e : KeyboardEvent} {l : Logged F δ} :
      Logged.Step p d kbd s.logged e l → e.ofTask = true → Work p d kbd s { s with logged := l }

inductive Step (p : Profile) (d : Decoder δ) (kbd : TaskId) :
    RunLoop F δ → RunLoopEvent → RunLoop F δ → Prop
  | work {s s' : RunLoop F δ} : Work p d kbd s s' → Step p d kbd s .work s'
  | keyboard {s : RunLoop F δ} {scancode : UInt8} {l : Logged F δ} :
      Logged.Step p d kbd s.logged (.addScancode scancode) l →
      Step p d kbd s .interrupt { s with logged := l }
  /-- The timer's interrupt ends a `hlt`. -/
  | timer {s : RunLoop F δ} {x : ExecutorState F} : ExecutorState.Step p s.exec .interrupt x →
      Step p d kbd s .interrupt
        ⟨{ s.logged with keyboard := { s.logged.keyboard with exec := x } }, s.next⟩

/-- The runs from the first poll of the keyboard task, in `run_ready_tasks`. After a `hlt` the next
call is `run_ready_tasks`. -/
def system (p : Profile) (d : Decoder δ) (F : Type) (kbd : TaskId) :
    Sys (RunLoop F δ) RunLoopEvent where
  init s := (Logged.system p d F kbd).init s.logged
  step := Step p d kbd

/-! ## The potential -/

end RunLoop

/-- The steps that the poll of the keyboard task has before it, if it finds no scancode. -/
def StreamPos.rank : StreamPos → Nat
  | .waiting => 5
  | .pending => 6
  | .second => 7
  | .register => 8
  | .first => 9
  | .received _ => 10
  | .take _ => 11

/-- The steps of the loop up to its `hlt`, if the ready queue stays as it is. -/
def ExecutorPos.rank (kbd : TaskId) (stream : StreamPos) (next : RunCall) (idle : Prop)
    [Decidable idle] : ExecutorPos → Nat
  | .halted => 0
  | .checking => if idle then 3 else 7
  | .outside =>
    match next with
    | .sleepIfIdle => if idle then 4 else 8
    | .runReadyTasks => 6
  | .popping => 5
  | .uncached _ => 6
  | .removed _ => 7
  | .ready _ => 8
  | .polling id => if id = kbd then stream.rank else 9
  | .cached _ => 10
  | .popped _ => 11

namespace RunLoop

def potential (kbd : TaskId) (s : RunLoop F δ) : Nat :=
  s.exec.pos.rank kbd s.logged.keyboard.pos s.next (s.exec.exec.taskQueue.elems = []) +
    7 * s.exec.exec.taskQueue.elems.length + 5 * s.logged.keyboard.scancodeQueue.elems.length

variable {s s' : RunLoop F δ}

theorem potential_le (s : RunLoop F δ) (kbd : TaskId) : s.potential kbd ≤ 1211 := by
  have hrank : s.exec.pos.rank kbd s.logged.keyboard.pos s.next
      (s.exec.exec.taskQueue.elems = []) ≤ 11 := by
    unfold ExecutorPos.rank StreamPos.rank
    repeat' split
    all_goals omega
  have htasks := s.exec.exec.taskQueue.length_le
  have hcodes := s.logged.keyboard.scancodeQueue.length_le
  have h1 : taskQueueCapacity = 100 := rfl
  have h2 : scancodeQueueCapacity = 100 := rfl
  unfold potential
  omega

/-- What the keyboard's handler does to the executor: it ends a `hlt` and queues one id at most. -/
theorem fires_spec {x x' : ExecutorState F} {fired : Option TaskWaker}
    (h : KeyboardState.Fires p x.interrupted fired x') :
    x'.pos = x.interrupted.pos ∧
      x'.exec.taskQueue.elems.length ≤ x.exec.taskQueue.elems.length + 1 := by
  have hexec := (x.interrupted_keeps ⟨0⟩).1
  cases fired with
  | none =>
    obtain rfl : x' = x.interrupted := h
    exact ⟨rfl, by rw [hexec]; omega⟩
  | some w =>
    cases h with
    | wake _ _ hwake =>
      obtain ⟨q, hpush, rfl⟩ := TaskWaker.wakeTask_ok hwake
      refine ⟨rfl, ?_⟩
      simp only [BQueue.push_elems hpush, List.length_append, List.length_singleton, hexec]
      omega

theorem interrupted_pos_ne (x : ExecutorState F) : x.interrupted.pos ≠ .halted := by
  unfold ExecutorState.interrupted
  split
  · exact nofun
  · next hpos => exact hpos

/-- What every step of the loop and every interrupt keeps. -/
structure Inv (p : Profile) (d : Decoder δ) (kbd : TaskId) (s : RunLoop F δ) : Prop where
  logged : (Logged.system p d F kbd).Reach s.logged
  halted : s.exec.pos = .halted → s.next = .runReadyTasks

theorem Inv.keyboard (h : Inv p d kbd s) : s.logged.keyboard.Inv p kbd :=
  KeyboardState.inv_reach (Logged.reach_keyboard h.logged)

/-- A step of the loop is a step of the keyboard's state. -/
theorem Work.logged (h : Work p d kbd s s') : ∃ e, Logged.Step p d kbd s.logged e s'.logged := by
  cases h with
  | exec hx hpoll => exact ⟨.exec, ⟨.exec hx hpoll⟩⟩
  | task hst => exact ⟨_, hst⟩

/-- After a `halt` the next call is `run_ready_tasks`. -/
theorem Work.halted (h : Work p d kbd s s') (hk : s.logged.keyboard.Inv p kbd)
    (hhalt : s'.exec.pos = .halted) : s'.next = .runReadyTasks := by
  cases h with
  | exec hx => cases hx <;> simp_all [RunCall.after, RunCall.makes]
  | @task e l hst htask =>
    obtain ⟨hst⟩ := hst
    have hpolled := hk.polled
    cases hst with
    | exec | addScancode | readByte => cases htask
    | poll _ hx | pending _ hx => cases hx; cases hhalt
    | popFirst | emptyFirst | register | popSecond | emptySecond | take | decode => grind

theorem Inv.step {e : RunLoopEvent} (h : Inv p d kbd s) (hst : Step p d kbd s e s') :
    Inv p d kbd s' := by
  cases hst with
  | work hw =>
    obtain ⟨e, hst⟩ := hw.logged
    exact ⟨h.logged.step hst, hw.halted h.keyboard⟩
  | keyboard hst =>
    refine ⟨h.logged.step hst, ?_⟩
    obtain ⟨hst⟩ := hst
    cases hst with
    | addScancode _ hfires =>
      intro hhalt
      have hpos : _ = _ := (fires_spec hfires).1
      exact absurd (hpos.symm.trans hhalt) (interrupted_pos_ne _)
  | timer hx =>
    refine ⟨h.logged.step ⟨.exec hx ?_⟩, ?_⟩
    · cases hx
      simp_all
    · cases hx
      exact nofun

theorem inv_reach (h : (system p d F kbd).Reach s) : Inv p d kbd s := by
  refine Sys.Preserved.reach (I := Inv p d kbd) ⟨?_, ?_⟩ h
  · intro s hinit
    refine ⟨.init hinit, fun hhalt => ?_⟩
    rw [RunLoop.exec, hinit.1.2.1] at hhalt
    cases hhalt
  · intro s e s' _ hi hst
    exact hi.step hst

/-! ## What a step does to it -/

/-- Every step of the loop lowers the potential. -/
theorem Work.lowers (h : Work p d kbd s s') (hk : s.logged.keyboard.Inv p kbd) :
    s'.potential kbd < s.potential kbd := by
  obtain ⟨⟨⟨x, codes, waker, keys, dec, pos⟩, start, log⟩, next⟩ := s
  cases h with
  | exec hx hpoll hmakes =>
    simp only [RunLoop.exec] at hx hpoll
    cases hx with
    | runReadyTasks hpos | disable hpos =>
      obtain rfl := of_decide_eq_true hmakes
      simp only [potential, RunLoop.exec, ExecutorPos.rank, hpos]
      repeat' split
      all_goals omega
    | popNone hpos hpop =>
      have hnil := BQueue.pop_eq_none.mp hpop
      simp [potential, RunLoop.exec, ExecutorPos.rank, RunCall.after, hpos, hnil]
    | pop hpos hpop =>
      have hcons := BQueue.pop_elems hpop
      simp only [potential, RunLoop.exec, ExecutorPos.rank, hpos, hcons, List.length_cons]
      omega
    | poll hpos | pending hpos | ready hpos =>
      -- The poll is of another task, since it begins or ends here.
      simp only [hpos, ExecutorPos.polling.injEq, reduceCtorEq, false_iff, iff_false] at hpoll
      simp [potential, RunLoop.exec, ExecutorPos.rank, hpos, hpoll]
    | halt hpos hempty =>
      have hnil := BQueue.isEmpty_iff.mp hempty
      simp [potential, RunLoop.exec, ExecutorPos.rank, hpos, hnil]
    | enable hpos hempty =>
      have hne : x.exec.taskQueue.elems ≠ [] := fun hnil => by
        rw [BQueue.isEmpty_iff.mpr hnil] at hempty
        cases hempty
      simp [potential, RunLoop.exec, ExecutorPos.rank, RunCall.after, hpos, hne]
    | skip hpos | cacheWaker hpos | removeTask hpos | removeWaker hpos | removeStarted hpos =>
      simp [potential, RunLoop.exec, ExecutorPos.rank, hpos]
    | spawn | wake | interrupt => cases hmakes
  | @task e l hst htask =>
    obtain ⟨hst⟩ := hst
    have hpolled : pos ≠ .waiting → x.pos = .polling kbd := hk.polled.mpr
    cases hst with
    | exec | addScancode | readByte => cases htask
    | poll hpos hx =>
      cases hx
      simp_all [potential, RunLoop.exec, ExecutorPos.rank, StreamPos.rank]
    | pending hpos hx =>
      cases hx
      simp_all [potential, RunLoop.exec, ExecutorPos.rank, StreamPos.rank]
    | popFirst hpos hpop | popSecond hpos hpop =>
      cases hpos
      have hcons := BQueue.pop_elems hpop
      simp only [potential, RunLoop.exec, ExecutorPos.rank, StreamPos.rank, hpolled nofun, if_true,
        show codes.elems = _ from hcons, List.length_cons]
      omega
    | emptyFirst hpos | register hpos | emptySecond hpos | take hpos | decode hpos =>
      cases hpos
      simp [potential, RunLoop.exec, ExecutorPos.rank, StreamPos.rank, hpolled nofun]

/-- An interrupt leaves the position, or ends a `hlt`. -/
theorem rank_interrupted {x : ExecutorState F} {next : RunCall} (kbd : TaskId) (stream : StreamPos)
    (hchecking : x.pos ≠ .checking) (hhalted : x.pos = .halted → next = .runReadyTasks)
    (idle idle' : Prop) [Decidable idle] [Decidable idle'] :
    x.interrupted.pos.rank kbd stream next idle' ≤ x.pos.rank kbd stream next idle + 6 := by
  unfold ExecutorState.interrupted
  split
  · next hpos =>
    rw [hhalted hpos, hpos]
    exact Nat.le_refl 6
  · next hpos =>
    cases hx : x.pos with
    | checking => exact absurd hx hchecking
    | outside =>
      simp only [ExecutorPos.rank]
      repeat' split
      all_goals omega
    | halted | popping | popped | cached | polling | ready | removed | uncached =>
      exact Nat.le_add_right _ 6

/-- An interrupt raises the potential by 18 at most. -/
theorem Step.raises (hst : Step p d kbd s .interrupt s') (h : Inv p d kbd s) :
    s'.potential kbd ≤ s.potential kbd + 18 := by
  have hhalted := h.halted
  obtain ⟨⟨⟨x, codes, waker, keys, dec, pos⟩, start, log⟩, next⟩ := s
  cases hst with
  | @keyboard scancode l hst =>
    obtain ⟨hst⟩ := hst
    cases hst with
    | @addScancode _ x' hchecking hfires =>
      obtain ⟨hpos, hlen⟩ := fires_spec hfires
      have hrank := rank_interrupted kbd pos hchecking hhalted
        (x.exec.taskQueue.elems = []) (x'.exec.taskQueue.elems = [])
      have hcodes : (addScancode scancode codes waker).1.elems.length ≤ codes.elems.length + 1 := by
        unfold addScancode
        split
        · simp
        · next hpush => simp [BQueue.push_elems hpush]
      simp only [potential, RunLoop.exec, hpos] at hrank hlen ⊢
      omega
  | timer hx =>
    simp only [RunLoop.exec] at hx hhalted
    cases hx with
    | interrupt hpos =>
      simp only [potential, RunLoop.exec, ExecutorPos.rank, hpos, hhalted hpos]
      omega

/-! ## Progress -/

/-- The keyboard task has a next step in its poll. -/
theorem exists_task (h : Inv p d kbd s) (hpos : s.exec.pos = .polling kbd) :
    ∃ s', Work p d kbd s s' := by
  obtain ⟨w, hw⟩ := FMap.mem_iff.mp
    ((ExecutorState.held_reach h.keyboard.reach).cached kbd (.inr (.inl hpos)))
  obtain ⟨task, -⟩ := FMap.mem_iff.mp h.keyboard.live
  have hwait := h.keyboard.polled.mp hpos
  cases hstream : s.logged.keyboard.pos with
  | waiting => exact absurd hstream hwait
  | first =>
    cases hpop : s.logged.keyboard.scancodeQueue.pop with
    | none => exact ⟨_, .task ⟨.emptyFirst hstream hpop⟩ rfl⟩
    | some r => exact ⟨_, .task ⟨.popFirst hstream hpop⟩ rfl⟩
  | register => exact ⟨_, .task ⟨.register hstream hw⟩ rfl⟩
  | second =>
    cases hpop : s.logged.keyboard.scancodeQueue.pop with
    | none => exact ⟨_, .task ⟨.emptySecond hstream hpop⟩ rfl⟩
    | some r => exact ⟨_, .task ⟨.popSecond hstream hpop⟩ rfl⟩
  | take scancode => exact ⟨_, .task ⟨.take hstream⟩ rfl⟩
  | received scancode => exact ⟨_, .task ⟨.decode hstream⟩ rfl⟩
  | pending =>
    exact ⟨_, .task ⟨.pending hstream (@ExecutorState.Step.pending _ _ _ _ task.future hpos)⟩ rfl⟩

/-- Until it halts, the loop has a next step. -/
theorem exists_work (h : Inv p d kbd s) (hhalt : s.exec.pos ≠ .halted) :
    ∃ s', Work p d kbd s s' := by
  cases hpos : s.exec.pos with
  | halted => exact absurd hpos hhalt
  | outside =>
    cases hnext : s.next with
    | runReadyTasks =>
      exact ⟨_, .exec (.runReadyTasks hpos) (by simp [hpos]) (decide_eq_true hnext)⟩
    | sleepIfIdle => exact ⟨_, .exec (.disable hpos) (by simp [hpos]) (decide_eq_true hnext)⟩
  | popping =>
    cases hpop : s.exec.exec.taskQueue.pop with
    | none => exact ⟨_, .exec (.popNone hpos hpop) (by simp [hpos]) rfl⟩
    | some r => exact ⟨_, .exec (.pop hpos hpop) (by simp [hpos]) rfl⟩
  | popped id =>
    cases htask : s.exec.exec.tasks.get? id with
    | none => exact ⟨_, .exec (.skip hpos htask) (by simp [hpos]) rfl⟩
    | some task => exact ⟨_, .exec (.cacheWaker hpos htask) (by simp [hpos]) rfl⟩
  | cached id =>
    by_cases hid : id = kbd
    · subst hid
      exact ⟨_, .task ⟨.poll hpos (.poll hpos)⟩ rfl⟩
    · exact ⟨_, .exec (.poll hpos) (by simp [hpos, hid]) rfl⟩
  | polling id =>
    by_cases hid : id = kbd
    · subst hid
      exact exists_task h hpos
    · exact ⟨_, .exec (.ready hpos) (by simp [hpos, hid]) rfl⟩
  | ready id => exact ⟨_, .exec (.removeTask hpos) (by simp [hpos]) rfl⟩
  | removed id => exact ⟨_, .exec (.removeWaker hpos) (by simp [hpos]) rfl⟩
  | uncached id => exact ⟨_, .exec (.removeStarted hpos) (by simp [hpos]) rfl⟩
  | checking =>
    cases hempty : s.exec.exec.taskQueue.isEmpty with
    | true => exact ⟨_, .exec (.halt hpos hempty) (by simp [hpos]) rfl⟩
    | false => exact ⟨_, .exec (.enable hpos hempty) (by simp [hpos]) rfl⟩

/-- Nothing is left to do, and the next scancode will wake the keyboard task. -/
structure Settled (d : Decoder δ) (kbd : TaskId) (s : RunLoop F δ) : Prop where
  halted : s.exec.pos = .halted
  /-- Every scancode that was taken has reached the decoder. -/
  fed : s.logged.log.fed = s.logged.log.accepted
  /-- And the bytes that it gave are those of the decoder alone. -/
  decoded : (d.run s.logged.start s.logged.log.accepted).2 =
    s.logged.log.decoded.map (·.byte)
  waker : s.logged.keyboard.waker = some ⟨kbd⟩

theorem Inv.settled (h : Inv p d kbd s) (hhalt : s.exec.pos = .halted) : Settled d kbd s := by
  have hk := h.keyboard
  obtain ⟨hwake, -⟩ := ExecutorState.inv_reach hk.reach
  obtain ⟨hacc, hdec, -⟩ := Logged.inv_reach h.logged
  have hmail := KeyboardState.reach_mailbox (Logged.reach_keyboard h.logged)
  have hwait : s.logged.keyboard.pos = .waiting := not_not.mp fun hne => by
    rw [RunLoop.exec, hk.polled.mpr hne] at hhalt
    cases hhalt
  have hidle : (s.logged.keyboard.mailbox kbd).phase = .idle := by
    simp only [KeyboardState.mailbox, KeyboardState.phase, hwait, ExecutorState.Starting, hhalt,
      reduceCtorEq, or_self, if_false]
  -- The ready queue is empty, so the task has not been woken.
  have hsig : (s.logged.keyboard.mailbox kbd).signalled = false := by
    refine Bool.eq_false_iff.mpr fun hw => ?_
    have hmem := hwake.queued kbd hw
    rw [hwake.halted hhalt] at hmem
    cases hmem
  have hitems : s.logged.keyboard.scancodeQueue.elems = [] := not_not.mp fun hne => by
    rw [Mailbox.idle_signalled hmail hidle hne] at hsig
    cases hsig
  have hfed : s.logged.log.fed = s.logged.log.accepted := by
    simp [hacc, hwait, hitems, StreamPos.inHand]
  obtain ⟨w, hw⟩ := Option.isSome_iff_exists.mp (Mailbox.idle_armed hmail hidle hsig)
  refine ⟨hhalt, hfed, by rw [← hfed, hdec], ?_⟩
  rw [hw, ← hk.waker w hw]

/-- A run of the loop makes 18 steps for each interrupt, and 1211 more at most: the executor never
spins. From any point of a run, once interrupts stop, the loop cannot get stuck and halts after 1211
steps at most, with all input decoded and the keyboard task's waker registered. -/
theorem executor_settles (p : Profile) (d : Decoder δ) (F : Type) (kbd : TaskId)
    (s : RunLoop F δ) (h : (system p d F kbd).Reach s) :
    (∀ es s', (system p d F kbd).Run s es s' →
      es.count .work ≤ 1211 + 18 * es.count .interrupt) ∧
    Within (Work p d kbd) (Settled d kbd) 1211 s := by
  refine ⟨fun es s' hrun => ?_, ?_⟩
  · have hpaid := hrun.amortised (· == .work) (potential kbd) 18
      (fun s e s' hr hst he => ?_) (fun s e s' hr hst he => ?_) h
    · have hother : (fun e : RunLoopEvent => !(e == .work)) = (· == .interrupt) := by
        funext e
        cases e <;> rfl
      have hle := potential_le s kbd
      rw [hother] at hpaid
      exact (Nat.le_add_right _ _).trans (hpaid.trans (Nat.add_le_add_right hle _))
    · obtain rfl := eq_of_beq he
      cases hst with
      | work hw => exact hw.lowers (inv_reach hr).keyboard
    · cases e with
      | work => cases he
      | interrupt => exact hst.raises (inv_reach hr)
  · refine Within.of_rank (I := (system p d F kbd).Reach) (potential kbd)
      (fun s s' hr hw => hr.step (.work hw)) (fun s s' hr hw => hw.lowers (inv_reach hr).keyboard)
      (fun s hr hdone => ?_) h (potential_le s kbd)
    exact exists_work (inv_reach hr) fun hhalt => hdone ((inv_reach hr).settled hhalt)

/-- A scancode arrives in the first poll. -/
theorem executor_settles_scancode : ∃ s : RunLoop Unit Unit,
    (system .dev ⟨fun _ _ => ((), none)⟩ Unit ⟨0⟩).Reach s ∧
    s.logged.keyboard.scancodeQueue.elems = [0x1e] ∧
    Within (Work .dev ⟨fun _ _ => ((), none)⟩ ⟨0⟩) (Settled ⟨fun _ _ => ((), none)⟩ ⟨0⟩) 1211
      s := by
  have h0 : (ExecutorState.system .dev Unit).Reach ⟨.new, .new, .outside, fun _ => false, 0,
      fun _ => 0, fun _ => false⟩ := .init ⟨_, _, rfl⟩
  have h1 := h0.step (@ExecutorState.Step.spawn _ _ _ ⟨⟨0⟩, ()⟩ _ _ rfl rfl)
  have h2 := h1.step (.runReadyTasks rfl)
  have h3 := h2.step (.pop rfl rfl)
  have h4 := h3.step (.cacheWaker rfl rfl)
  have h5 := h4.step (.poll rfl)
  have k0 : (system .dev ⟨fun _ _ => ((), none)⟩ Unit ⟨0⟩).Reach
      ⟨⟨⟨_, .empty, none, .empty, (), .first⟩, (), ⟨[], [], [], []⟩⟩, .sleepIfIdle⟩ :=
    .init ⟨⟨h5, rfl, rfl, rfl, rfl, rfl⟩, rfl, rfl⟩
  have k1 := k0.step (.keyboard
    ⟨@KeyboardState.Step.addScancode _ _ _ _ _ _ 0x1e _ (by decide) rfl⟩)
  exact ⟨_, k1, rfl, (executor_settles _ _ _ _ _ k1).2⟩

end RunLoop

end Apogee
