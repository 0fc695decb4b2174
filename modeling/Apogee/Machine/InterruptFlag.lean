import Apogee.Machine.Switch
import Apogee.Machine.SharedStack

/-!
# The interrupt flag across context switches

`switch_context` does not save the flags, so a thread that returns from `yield_now` runs with the
interrupt flag of the thread that switched to it. That flag is off if the other thread was in the
handler of a gate (`SYS_YIELD`, `SYS_EXIT`, a fault), and it stays off in a thread that was first
started from there.

* `FlagInv`: the flag is off exactly in masked contexts, and a thread that waits in `yield_now`
  called it with the flag of its context.
* `ifKept_iff_paired`: in every run whose switches pair contexts of one kind, the flag is kept, and
  the first switch that pairs two kinds breaks it.
* `not_ifKept`: a `SYS_EXIT` hands the bootstrap thread a cleared flag.
-/

namespace Apogee.Machine

open Verif

variable {p : Profile} {s : PrivilegeStack} {st st' : Machine} {e : MachineEvent}

/-- When `yield_now` returns, the interrupt flag has the value it had at the call: after a switch to
a thread that waits there, and after a yield that stays in its thread. -/
def IfKept (st : Machine) (e : MachineEvent) (st' : Machine) : Prop :=
  (∀ n b, e.next = some n → (st.info n).yieldFlag = some b → st'.interruptFlag = b) ∧
  (∀ next, e = .yieldNow next ∨ e = .dispatch next → next.getD st.current = st.current →
    st'.interruptFlag = st.interruptFlag)

/-- The context that a step switches away from is masked. A fault's handler is. -/
def outgoing (st : Machine) : MachineEvent → Bool
  | .fault _ => true
  | _ => st.self.masked

/-- A switch to a thread that waits in `yield_now` is made from a context of the same kind. -/
def Paired (st : Machine) (e : MachineEvent) : Prop :=
  ∀ n, e.next = some n → (st.info n).yieldFlag.isSome → st.outgoing e = (st.info n).masked

/-- The flag, the flags that wait in `yield_now`, and the flags that `iretq` will load. -/
structure FlagInv (s : PrivilegeStack) (st : Machine) : Prop where
  flag : st.interruptFlag = !st.self.masked
  running : st.self.yieldFlag = none
  waiting : ∀ t b, (st.info t).yieldFlag = some b → b = !(st.info t).masked
  user : ∀ u, st.ring3 = some u → ifBit u.rflags = true
  frame : ∀ t c, (st.info t).syscall = some c →
    ifBit (SyscallFrame.load st.mem s.frame).rflags = true

/-- A step that stays in its thread and leaves the records, those of new threads apart. -/
theorem FlagInv.keep (h : FlagInv s st) (hcur : st'.current = st.current)
    (hself : st'.info st.current = st.self)
    (hinfo : ∀ t, st'.info t = st.info t ∨ ∃ host, st'.info t = .fresh host)
    (hflag : st'.interruptFlag = st.interruptFlag) (hring : st'.ring3 = st.ring3)
    (hframe : ∀ t c, (st.info t).syscall = some c →
      ifBit (SyscallFrame.load st'.mem s.frame).rflags = true) : FlagInv s st' := by
  have hnew : st'.self = st.self := by rw [Machine.self, hcur, hself]
  refine ⟨by rw [hnew, hflag, h.flag], by rw [hnew, h.running], fun t b ht => ?_,
    fun u hu => h.user u (hring ▸ hu), fun t c ht => ?_⟩
  · obtain heq | ⟨host, heq⟩ := hinfo t
    · rw [heq] at ht ⊢
      exact h.waiting t b ht
    · rw [heq] at ht
      cases ht
  · obtain heq | ⟨host, heq⟩ := hinfo t
    · rw [heq] at ht
      exact hframe t c ht
    · rw [heq] at ht
      cases ht

/-- A change of the current thread's record that does not switch. -/
theorem FlagInv.update (h : FlagInv s st) {self : ThreadInfo} (hcur : st'.current = st.current)
    (hinfo : st'.info = Function.update st.info st.current self) (hself : self.yieldFlag = none)
    (hflag : st'.interruptFlag = !self.masked)
    (huser : ∀ u, st'.ring3 = some u → ifBit u.rflags = true)
    (hframe : ∀ t c, (st'.info t).syscall = some c →
      ifBit (SyscallFrame.load st'.mem s.frame).rflags = true) : FlagInv s st' := by
  have hnew : st'.self = self := by
    rw [Machine.self, hcur, hinfo, Function.update_self]
  refine ⟨by rw [hnew, hflag], by rw [hnew, hself], fun t b ht => ?_, huser, hframe⟩
  rw [hinfo] at ht ⊢
  by_cases hc : t = st.current
  · subst hc
    rw [Function.update_self, hself] at ht
    cases ht
  · rw [Function.update_of_ne hc] at ht ⊢
    exact h.waiting t b ht

/-- A switch to `next`. The outgoing thread leaves with the record `self`, whose flag is that of its
context. -/
theorem FlagInv.switch (h : FlagInv s st) {self : ThreadInfo} {next : Option ThreadId}
    (hnext : next = some st'.current) (hinfo : st'.info = st.switchInfo self next)
    (hself : ∀ b, self.yieldFlag = some b → b = !self.masked)
    (hpair : (st.info st'.current).yieldFlag.isSome → self.masked = (st.info st'.current).masked)
    (hflag : st'.interruptFlag = !self.masked) (hring : st'.ring3 = none)
    (hframe : ∀ t c, (st'.info t).syscall = some c →
      ifBit (SyscallFrame.load st'.mem s.frame).rflags = true) : FlagInv s st' := by
  subst hnext
  -- The incoming thread runs in a context of the outgoing one's kind.
  have hmasked : st'.self.masked = self.masked := by
    rw [Machine.self, hinfo]
    unfold switchInfo
    by_cases hn : st'.current = st.current
    · simp [hn]
    · simp only [Function.update_self, Function.update_of_ne hn]
      split
      · next hw => exact (hpair hw).symm
      · rfl
  have hnone : st'.self.yieldFlag = none := by
    rw [Machine.self, hinfo]
    unfold switchInfo
    simp
  refine ⟨by rw [hmasked, hflag], hnone, fun t b ht => ?_, fun u hu => ?_, hframe⟩
  · by_cases hn : t = st'.current
    · subst hn
      rw [hnone] at ht
      cases ht
    · rw [hinfo] at ht ⊢
      unfold switchInfo at ht ⊢
      simp only [Function.update_of_ne hn] at ht ⊢
      by_cases hc : t = st.current
      · subst hc
        rw [Function.update_self] at ht ⊢
        exact hself b ht
      · rw [Function.update_of_ne hc] at ht ⊢
        exact h.waiting t b ht
  · rw [hring] at hu
    cases hu

/-- A yield: it stays in its thread or switches to the head of the ready queue. -/
theorem FlagInv.yield (h : FlagInv s st) {self : ThreadInfo}
    (hcur : st'.current = st.head.getD st.current)
    (hinfo : st'.info = st.switchInfo (st.yielding st.head self) st.head)
    (hself : self.yieldFlag = none) (hmasked : self.masked = st.self.masked)
    (hpair : ∀ n, st.head = some n → (st.info n).yieldFlag.isSome →
      st.self.masked = (st.info n).masked)
    (hflag : st'.interruptFlag = st.interruptFlag) (hring : st'.ring3 = none)
    (hframe : ∀ t c, (st'.info t).syscall = some c →
      ifBit (SyscallFrame.load st'.mem s.frame).rflags = true) : FlagInv s st' := by
  have hbefore : st.interruptFlag = !self.masked := by rw [h.flag, hmasked]
  cases hhead : st.head with
  | none =>
    rw [hhead] at hcur hinfo
    refine h.update hcur hinfo hself (hflag.trans hbefore) (fun u hu => ?_) hframe
    rw [hring] at hu
    cases hu
  | some n =>
    rw [hhead] at hcur hinfo
    obtain rfl : st'.current = n := hcur
    refine h.switch rfl hinfo ?_ ?_ (hflag.trans hbefore) hring hframe
    · intro b hb
      rw [← Option.some.inj hb]
      exact hbefore
    · intro hw
      exact hmasked.trans (hpair _ hhead hw)

/-- A step that starts no syscall and keeps the frame words. -/
theorem FlagInv.frame_of_self (h : FlagInv s st) {self : ThreadInfo} {info : ThreadId → ThreadInfo}
    {m : Mem}
    (hinfo : ∀ t, (info t).syscall = if t = st.current then self.syscall else (st.info t).syscall)
    (hself : ∀ c, self.syscall = some c → st.self.syscall.isSome)
    (hload : SyscallFrame.load m s.frame = SyscallFrame.load st.mem s.frame)
    (t : ThreadId) (c : InSyscall) (ht : (info t).syscall = some c) :
    ifBit (SyscallFrame.load m s.frame).rflags = true := by
  rw [hload]
  rw [hinfo] at ht
  split at ht
  · obtain ⟨c', hc'⟩ := Option.isSome_iff_exists.mp (hself c ht)
    exact h.frame _ c' hc'
  · exact h.frame t c ht

/-- The frame that the CPU pushed has the flags that ring 3 ran with. -/
theorem IretFrame.load_rflags {m : Mem} {u : SyscallFrame} (h : IretFrame s m u) :
    (SyscallFrame.load m s.frame).rflags = u.rflags := h.2.2.1

theorem FlagInv.step (h : FlagInv s st) (hc : Paired st e) (hst : Step p s st e st') :
    FlagInv s st' := by
  have hcur := hst.current_eq
  cases hst with
  | compute _ _ hm =>
    refine h.keep hcur rfl (fun t => .inl rfl) rfl rfl fun t c ht => ?_
    rw [hm.load_eq]
    exact h.frame t c ht
  | call => exact h.keep hcur rfl (fun t => .inl rfl) rfl rfl h.frame
  | @spawn _ host _ _ id hk hspawn =>
    refine h.keep hcur ?_ (fun t => ?_) rfl rfl h.frame
    · simp only
      split
      · rfl
      · next hid =>
        rw [Function.update_of_ne]
        exact fun he => hid (.inr he.symm)
    · simp only
      split
      · exact .inl rfl
      · by_cases ht : t = id
        · exact .inr ⟨host, by rw [ht, Function.update_self]⟩
        · exact .inl (Function.update_of_ne ht ..)
  | yieldNow hk =>
    refine h.yield hcur rfl h.running rfl hc rfl hk.1
      (h.frame_of_self (switchInfo_syscall _ _) (fun c hs => ?_) rfl)
    rw [yielding_syscall] at hs
    exact Option.isSome_of_eq_some hs
  | exitThread hk _ hexit =>
    have hhead := Threads.exitThread_head hexit
    exact h.switch hhead rfl (h.waiting _) (hc _ hhead) h.flag hk.1
      (h.frame_of_self (switchInfo_syscall _ _) (fun c => Option.isSome_of_eq_some) rfl)
  | sleepIfIdle hk =>
    refine h.update hcur rfl h.running rfl (fun u hu => ?_)
      (h.frame_of_self (update_syscall _) (fun c => Option.isSome_of_eq_some) rfl)
    rw [hk.1] at hu
    cases hu
  | enterUserland _ _ _ _ hf =>
    refine h.update hcur rfl h.running (by rw [hf]; rfl) (fun u hu => ?_)
      (h.frame_of_self (update_syscall _) (fun c => Option.isSome_of_eq_some) rfl)
    rw [← Option.some.inj hu, hf]
    rfl
  | exec hr hf hm =>
    refine ⟨h.flag, h.running, h.waiting, fun u hu => ?_, fun t c ht => ?_⟩
    · rw [← Option.some.inj hu, hf]
      exact h.user _ hr
    · rw [(sameFrame_of_stack hm).load_eq]
      exact h.frame t c ht
  | @trap u hr =>
    refine h.update hcur rfl h.running rfl (fun u hu => (by cases hu)) fun t c ht => ?_
    rw [s.load_trap]
    exact h.user u hr
  | dispatch hr hs =>
    refine h.update hcur rfl h.running h.flag (fun u hu => ?_)
      (h.frame_of_self (update_syscall _) (fun _ _ => Option.isSome_of_eq_some hs) rfl)
    rw [hr] at hu
    cases hu
  | dispatchYield hr hs =>
    exact h.yield hcur rfl h.running rfl hc rfl hr
      (h.frame_of_self (switchInfo_syscall _ _) (fun _ _ => Option.isSome_of_eq_some hs) rfl)
  | dispatchExit hr hs hcall =>
    obtain ⟨-, hhead⟩ | ⟨hsome, -⟩ | ⟨hsome, -⟩ := Kernel.syscallDispatch_cases hcall
    · exact h.switch hhead rfl (h.waiting _) (hc _ hhead) h.flag hr
        (h.frame_of_self (switchInfo_syscall _ _) (fun _ _ => Option.isSome_of_eq_some hs) rfl)
    · cases hsome
    · cases hsome
  | @sysReturn u rax hr hs =>
    -- The store to `rax` leaves the flags, and they are those of some trap.
    have hflags : ifBit (SyscallFrame.load (st.mem.store (s.frame + 112) rax) s.frame).rflags =
        true := by
      rw [SyscallFrame.load_setRax]
      exact h.frame _ _ hs
    exact h.update hcur rfl h.running hflags (fun u hu => Option.some.inj hu ▸ hflags)
      fun _ _ _ => hflags
  | interrupt hr hf hframe =>
    refine h.keep hcur rfl (fun t => .inl rfl) rfl rfl fun t c ht => ?_
    rw [hframe.load_rflags]
    exact hf
  | fault hr hframe hkill =>
    have hhead := Kernel.killFaultingProcess_head hkill
    refine h.switch hhead rfl ?_ (hc _ hhead) rfl rfl fun t c ht => ?_
    · intro b hb
      rw [h.running] at hb
      cases hb
    · rw [hframe.load_rflags]
      exact h.user _ hr

theorem flagInv_reach (h : ((system p s).restrict Paired).Reach st) : FlagInv s st := by
  refine Sys.Preserved.reach (I := FlagInv s) ⟨?_, ?_⟩ h
  · rintro st ⟨heap, console, mem, rfl⟩
    refine ⟨rfl, rfl, fun t b ht => ?_, fun u hu => ?_, fun t c ht => ?_⟩
    · cases ht
    · cases hu
    · cases ht
  · intro st e st' _ hi hst
    exact hi.step hst.1 hst.2

/-- A step that switches leaves the flag of the context it switches away from. -/
theorem FlagInv.flag_after (h : FlagInv s st) (hst : Step p s st e st') {n : ThreadId}
    (hn : e.next = some n) : st'.interruptFlag = !st.outgoing e := by
  cases hst with
  | yieldNow | exitThread | dispatchYield | dispatchExit => exact h.flag
  | fault => rfl
  | compute | call | spawn | sleepIfIdle | enterUserland | exec | trap | dispatch | sysReturn
  | interrupt => cases hn

/-- A yield that stays in its thread leaves the flag. -/
theorem flag_of_stays (hst : Step p s st e st') {next : Option ThreadId}
    (he : e = .yieldNow next ∨ e = .dispatch next) : st'.interruptFlag = st.interruptFlag := by
  cases hst with
  | yieldNow | dispatch | dispatchYield | dispatchExit => rfl
  | compute | call | spawn | exitThread | sleepIfIdle | enterUserland | exec | trap | sysReturn
  | interrupt | fault => simp at he

/-- In every run whose switches to a waiting thread are all made from a context of the same kind,
the interrupt flag is kept; and the next step keeps it exactly if it is such a switch too. -/
theorem ifKept_iff_paired (p : Profile) (s : PrivilegeStack) (st : Machine) (e : MachineEvent)
    (st' : Machine) (h : ((system p s).restrict Paired).Reach st) (hst : Step p s st e st') :
    IfKept st e st' ↔ Paired st e := by
  have hi := flagInv_reach h
  constructor
  · intro hkept n hn hw
    obtain ⟨b, hb⟩ := Option.isSome_iff_exists.mp hw
    have hflag := hkept.1 n b hn hb
    rw [hi.flag_after hst hn, hi.waiting n b hb] at hflag
    exact Bool.not_inj hflag
  · intro hpair
    refine ⟨fun n b hn hb => ?_, fun next he _ => flag_of_stays hst he⟩
    rw [hi.flag_after hst hn, hi.waiting n b hb, hpair n hn (Option.isSome_of_eq_some hb)]

theorem paired_of_next_none (h : e.next = none) : Paired st e := by
  intro n hn
  rw [h] at hn
  cases hn

/-- The bootstrap thread yields to a kernel thread that yields back: it runs again with interrupts
on, as it called. -/
theorem ifKept_iff_paired_yield : ∃ st e st', ((system .dev demoStack).restrict Paired).Reach st ∧
    Step .dev demoStack st e st' ∧ e.next = some bootstrapId ∧
    (st.info bootstrapId).yieldFlag = some true ∧ IfKept st e st' := by
  have h1 := reach_spawn (reach_demoBoot Paired) .kernel false 0x100000 (paired_of_next_none rfl)
    ⟨rfl, rfl, rfl⟩ rfl
  have h2 := reach_yieldNow h1 0 (fun n hn hw => by cases hn; cases hw) ⟨rfl, rfl, rfl⟩ rfl
  refine ⟨_, _, _, h2, @Step.yieldNow _ _ _ 0 _ _ ⟨rfl, rfl, rfl⟩ rfl, rfl, rfl,
    (ifKept_iff_paired _ _ _ _ _ h2 (@Step.yieldNow _ _ _ 0 _ _ ⟨rfl, rfl, rfl⟩ rfl)).mpr ?_⟩
  intro n hn _
  cases hn
  rfl

/-- The bootstrap thread yields with interrupts on. The host thread that runs then makes the syscall
`SYS_EXIT`, and `yield_now` returns in the bootstrap thread with interrupts off. -/
theorem not_ifKept : ∃ st e st', (system .dev demoStack).Reach st ∧ Step .dev demoStack st e st' ∧
    e.next = some bootstrapId ∧ (st.info bootstrapId).yieldFlag = some true ∧
    st'.interruptFlag = false ∧ ¬ IfKept st e st' := by
  have h1 := reach_call (reach_demoBoot fun _ _ => True) default
    (.processCreate ⟨userCodeBase, by decide⟩ ⟨userStackTop, by decide⟩) trivial
    ⟨rfl, rfl, rfl⟩ trivial rfl
  have h2 := reach_spawn h1 ⟨1⟩ true 0x100000 trivial ⟨rfl, rfl, rfl⟩ rfl
  have h3 := reach_yieldNow h2 0 trivial ⟨rfl, rfl, rfl⟩ rfl
  have h4 := reach_enterUserland h3 (demoRegs 0 0) trivial rfl rfl rfl rfl rfl rfl rfl
  have h5 := reach_exec h4 (demoRegs sysExitNumber 0) trivial rfl rfl
  have h6 := reach_trap h5 trivial rfl
  refine ⟨_, _, _, h6.of_restrict, step_dispatchExit default (fun _ => .ok 0) rfl rfl
    (demoStack.load_trap _ _) rfl, rfl, rfl, rfl, fun hkept => ?_⟩
  exact absurd (hkept.1 bootstrapId true rfl rfl) (by decide)

end Apogee.Machine
