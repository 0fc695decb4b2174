import Apogee.Machine.Machine

/-!
# Syscall frames on the shared privilege stack

All threads trap onto one stack, at one address. A thread that is parked inside a syscall keeps its
frame there while another thread runs in ring 3, and the next trap, interrupt or fault of that
thread overwrites it.

* `NoneParked`: no thread enters ring 0 from ring 3 while another one is inside a syscall.
* `intact_of_noneParked`: in every run whose steps all meet it, a thread inside a syscall returns
  through the frame it trapped with.
* `not_intact`: two host threads that yield one after the other break it.
-/

namespace Apogee.Machine

open Verif

variable {p : Profile} {s : PrivilegeStack} {st st' : Machine} {e : MachineEvent}

/-- The frame that the current thread returns through is the one it trapped with, and when it
returns, only `rax` has changed. -/
def Intact (p : Profile) (s : PrivilegeStack) (st : Machine) : Prop :=
  ∀ c, st.ring3 = none → st.self.syscall = some c →
    SyscallFrame.load st.mem s.frame = c.trapped ∧
    ∀ st', Step p s st .sysReturn st' →
      ∃ rax, c.result = some rax ∧ st'.ring3 = some { c.trapped with rax := rax }

/-- A step does not enter ring 0 from ring 3 while another thread is inside a syscall. -/
def NoneParked (st : Machine) (e : MachineEvent) : Prop :=
  e.entersRing0 = true → ∀ t, t ≠ st.current → (st.info t).syscall = none

/-- The records after an update of the current thread's. -/
theorem update_syscall (self : ThreadInfo) (t : ThreadId) :
    (Function.update st.info st.current self t).syscall =
      if t = st.current then self.syscall else (st.info t).syscall := by
  by_cases ht : t = st.current
  · rw [ht, Function.update_self, if_pos rfl]
  · rw [Function.update_of_ne ht, if_neg ht]

theorem switchInfo_syscall (self : ThreadInfo) (next : Option ThreadId) (t : ThreadId) :
    (st.switchInfo self next t).syscall =
      if t = st.current then self.syscall else (st.info t).syscall := by
  rw [← update_syscall]
  unfold switchInfo
  cases next with
  | none => rfl
  | some n =>
    by_cases ht : t = n
    · subst ht
      simp only [Function.update_self]
    · simp only [Function.update_of_ne ht]

theorem yielding_syscall (next : Option ThreadId) (self : ThreadInfo) :
    (st.yielding next self).syscall = self.syscall := by
  unfold yielding
  split <;> rfl

/-- At most one thread is inside a syscall, it is not in ring 3, and its frame is on the stack. -/
structure FrameInv (s : PrivilegeStack) (st : Machine) : Prop where
  ring3 : ∀ u, st.ring3 = some u → st.self.syscall = none
  frame : ∀ t c, (st.info t).syscall = some c → SyscallFrame.load st.mem s.frame = c.trapped
  unique : ∀ t t' c c', (st.info t).syscall = some c → (st.info t').syscall = some c' → t = t'

/-- Memory with the same frame words holds the same frame. -/
theorem SameFrame.load_eq {m m' : Mem} (h : SameFrame s m m') :
    SyscallFrame.load m' s.frame = SyscallFrame.load m s.frame := by
  apply SyscallFrame.load_congr
  intro b h1 h2
  rw [s.frame_add] at h2
  exact h b h1 h2

/-- Memory that agrees on the privilege stack agrees on the frame. -/
theorem sameFrame_of_stack {m m' : Mem}
    (h : ∀ a, s.top - privilegeStackSize ≤ a → a < s.top → m' a = m a) : SameFrame s m m' :=
  fun a h1 h2 => h a (Nat.le_trans (Nat.sub_le_sub_left (by decide) _) h1) h2

/-- A step that starts no syscall and keeps the frame words. -/
theorem FrameInv.mono (h : FrameInv s st)
    (hring : ∀ u, st'.ring3 = some u → st'.self.syscall = none)
    (hmem : SyscallFrame.load st'.mem s.frame = SyscallFrame.load st.mem s.frame)
    (hsub : ∀ t c', (st'.info t).syscall = some c' →
      ∃ c, (st.info t).syscall = some c ∧ c.trapped = c'.trapped) : FrameInv s st' := by
  refine ⟨hring, fun t c' hc' => ?_, fun t t' c c' hc hc' => ?_⟩
  · obtain ⟨c, hc, he⟩ := hsub t c' hc'
    rw [hmem, ← he]
    exact h.frame t c hc
  · obtain ⟨d, hd, -⟩ := hsub t c hc
    obtain ⟨d', hd', -⟩ := hsub t' c' hc'
    exact h.unique t t' d d' hd hd'

/-- The same for a step that ends in ring 0. -/
theorem FrameInv.ring0 (h : FrameInv s st) (hring : st'.ring3 = none)
    (hmem : SyscallFrame.load st'.mem s.frame = SyscallFrame.load st.mem s.frame)
    (hsub : ∀ t c', (st'.info t).syscall = some c' →
      ∃ c, (st.info t).syscall = some c ∧ c.trapped = c'.trapped) : FrameInv s st' := by
  refine h.mono (fun u hu => ?_) hmem hsub
  rw [hring] at hu
  cases hu

/-- A step after which no thread is inside a syscall. -/
theorem FrameInv.none_inside (hnone : ∀ t, (st'.info t).syscall = none) : FrameInv s st' := by
  refine ⟨fun u _ => hnone _, fun t c hc => ?_, fun t t' c c' hc _ => ?_⟩
  · rw [hnone] at hc; cases hc
  · rw [hnone] at hc; cases hc

/-- A step after which only the thread `t₀` can be inside a syscall. -/
theorem FrameInv.of_one (t₀ : ThreadId) (hring : st'.ring3 = none)
    (hothers : ∀ t, t ≠ t₀ → (st'.info t).syscall = none)
    (hframe : ∀ c, (st'.info t₀).syscall = some c →
      SyscallFrame.load st'.mem s.frame = c.trapped) : FrameInv s st' := by
  have hone : ∀ t c, (st'.info t).syscall = some c → t = t₀ := by
    intro t c ht
    by_contra hne
    rw [hothers t hne] at ht
    cases ht
  refine ⟨fun u hu => ?_, fun t c ht => ?_, fun t t' c c' ht ht' => ?_⟩
  · rw [hring] at hu
    cases hu
  · obtain rfl := hone t c ht
    exact hframe c ht
  · rw [hone t c ht, hone t' c' ht']

/-- The records after a change of the current thread's that starts no syscall. -/
theorem sub_of_self {self : ThreadInfo} {info : ThreadId → ThreadInfo}
    (hinfo : ∀ t, (info t).syscall = if t = st.current then self.syscall else (st.info t).syscall)
    (hself : ∀ c', self.syscall = some c' →
      ∃ c, st.self.syscall = some c ∧ c.trapped = c'.trapped)
    (t : ThreadId) (c' : InSyscall) (h : (info t).syscall = some c') :
    ∃ c, (st.info t).syscall = some c ∧ c.trapped = c'.trapped := by
  rw [hinfo] at h
  split at h
  · next ht =>
    rw [ht]
    exact hself c' h
  · exact ⟨c', h, rfl⟩

theorem FrameInv.step (h : FrameInv s st) (hc : NoneParked st e) (hst : Step p s st e st') :
    FrameInv s st' := by
  cases hst with
  | compute hr _ hm => exact h.ring0 hr hm.load_eq fun t c' hc' => ⟨c', hc', rfl⟩
  | call hk => exact h.ring0 hk.1 rfl fun t c' hc' => ⟨c', hc', rfl⟩
  | @spawn _ _ _ _ id hk =>
    refine h.ring0 hk.1 rfl fun t c' hc' => ?_
    simp only at hc'
    split at hc'
    · exact ⟨c', hc', rfl⟩
    · by_cases ht : t = id
      · rw [ht, Function.update_self] at hc'
        cases hc'
      · rw [Function.update_of_ne ht] at hc'
        exact ⟨c', hc', rfl⟩
  | yieldNow hk =>
    refine h.ring0 hk.1 rfl (sub_of_self (switchInfo_syscall _ _) fun c' hc' => ?_)
    rw [yielding_syscall] at hc'
    exact ⟨c', hc', rfl⟩
  | exitThread hk =>
    exact h.ring0 hk.1 rfl (sub_of_self (switchInfo_syscall _ _) fun c' hc' => ⟨c', hc', rfl⟩)
  | sleepIfIdle hk =>
    exact h.ring0 hk.1 rfl (sub_of_self (update_syscall _) fun c' hc' => ⟨c', hc', rfl⟩)
  | enterUserland hr hs =>
    refine h.mono (fun u hu => ?_) rfl
      (sub_of_self (update_syscall _) fun c' hc' => ⟨c', hc', rfl⟩)
    simp only [self, Function.update_self, hs]
  | exec hr _ hm =>
    refine h.mono (fun u hu => h.ring3 _ hr) ?_ fun t c' hc' => ⟨c', hc', rfl⟩
    exact (sameFrame_of_stack hm).load_eq
  | @trap u hr =>
    refine FrameInv.of_one st.current rfl (fun t ht => ?_) fun c ht => ?_
    · rw [update_syscall, if_neg ht]
      exact hc rfl t ht
    · rw [update_syscall, if_pos rfl] at ht
      obtain rfl := Option.some.inj ht
      exact s.load_trap st.mem u
  | dispatch hr hs =>
    refine h.ring0 hr rfl (sub_of_self (update_syscall _) fun c' hc' => ?_)
    obtain rfl := Option.some.inj hc'
    exact ⟨_, hs, rfl⟩
  | dispatchYield hr hs =>
    refine h.ring0 hr rfl (sub_of_self (switchInfo_syscall _ _) fun c' hc' => ?_)
    rw [yielding_syscall] at hc'
    obtain rfl := Option.some.inj hc'
    exact ⟨_, hs, rfl⟩
  | dispatchExit hr =>
    exact h.ring0 hr rfl (sub_of_self (switchInfo_syscall _ _) fun c' hc' => (by cases hc'))
  | sysReturn hr hs =>
    -- The one thread that was inside a syscall has left it.
    refine FrameInv.none_inside fun t => ?_
    rw [update_syscall]
    split
    · rfl
    · next hne =>
      cases ht : (st.info t).syscall with
      | none => rfl
      | some c => exact absurd (h.unique t _ c _ ht hs) hne
  | interrupt hr =>
    refine FrameInv.none_inside fun t => ?_
    by_cases ht : t = st.current
    · rw [ht]
      exact h.ring3 _ hr
    · exact hc rfl t ht
  | fault hr =>
    refine FrameInv.none_inside fun t => ?_
    rw [switchInfo_syscall]
    split
    · rfl
    · next hne => exact hc rfl t hne

theorem frameInv_reach (h : ((system p s).restrict NoneParked).Reach st) : FrameInv s st := by
  refine Sys.Preserved.reach (I := FrameInv s) ⟨?_, ?_⟩ h
  · rintro st ⟨heap, console, mem, rfl⟩
    exact FrameInv.none_inside fun t => rfl
  · intro st e st' _ hi hst
    exact hi.step hst.1 hst.2

/-- In every run in which no thread enters ring 0 from ring 3 while another is inside a syscall, a
thread inside a syscall returns through the frame it trapped with. -/
theorem intact_of_noneParked (p : Profile) (s : PrivilegeStack) (st : Machine)
    (h : ((system p s).restrict NoneParked).Reach st) : Intact p s st := by
  have hi := frameInv_reach h
  intro c hr hs
  have hframe := hi.frame _ c hs
  refine ⟨hframe, fun st' hst => ?_⟩
  cases hst with
  | sysReturn _ hs' =>
    rw [hs] at hs'
    obtain rfl := Option.some.inj hs'
    refine ⟨_, rfl, ?_⟩
    show some (SyscallFrame.load _ _) = _
    rw [SyscallFrame.load_setRax, hframe]

/-- Registers in ring 3 after entry, with `rax` and `rbx` as given. -/
def demoRegs (rax rbx : UInt64) : SyscallFrame where
  r15 := 0
  r14 := 0
  r13 := 0
  r12 := 0
  r11 := 0
  r10 := 0
  r9 := 0
  r8 := 0
  rdi := 0
  rsi := 0
  rbp := 0
  rbx := rbx
  rdx := 0
  rcx := 0
  rax := rax
  rip := userCodeBase
  cs := userCs
  rflags := 0x202
  userRsp := userStackTop
  userSs := userSs

/-- A privilege stack. -/
def demoStack : PrivilegeStack := ⟨0x10000, ⟨0x1000, rfl⟩, by decide⟩

/-- The machine at boot, with nothing in memory. -/
def demoBoot : Machine :=
  ⟨.boot .empty ⟨0, 7, fun _ _ => ⟨0x20, 7⟩⟩, fun _ => 0, true, none, fun _ => .fresh false⟩

theorem reach_demoBoot (C : Machine → MachineEvent → Prop) :
    ((system .dev demoStack).restrict C).Reach demoBoot :=
  .init ⟨_, _, _, rfl⟩

theorem noneParked_of_not_entersRing0 (h : e.entersRing0 = false) : NoneParked st e := by
  intro he
  rw [h] at he
  cases he

/-- One host thread yields in a syscall and runs again after the bootstrap thread: its frame is
still the one it trapped with. -/
theorem intact_of_noneParked_yield : ∃ st, ((system .dev demoStack).restrict NoneParked).Reach st ∧
    st.self.syscall = some ⟨demoRegs 3 1, some 0⟩ ∧ Intact .dev demoStack st := by
  have hC := @noneParked_of_not_entersRing0
  have h1 := reach_call (reach_demoBoot NoneParked) default
    (.processCreate ⟨userCodeBase, by decide⟩ ⟨userStackTop, by decide⟩) (hC rfl)
    ⟨rfl, rfl, rfl⟩ trivial rfl
  have h2 := reach_spawn h1 ⟨1⟩ true 0x100000 (hC rfl) ⟨rfl, rfl, rfl⟩ rfl
  have h3 := reach_yieldNow h2 0 (hC rfl) ⟨rfl, rfl, rfl⟩ rfl
  have h4 := reach_enterUserland h3 (demoRegs 0 0) (hC rfl) rfl rfl rfl rfl rfl rfl rfl
  have h5 := reach_exec h4 (demoRegs 3 1) (hC rfl) rfl rfl
  have h6 := reach_trap h5 (fun _ t (h1 : t ≠ ⟨1⟩) => by
    by_cases h0 : t = ⟨0⟩
    · subst h0
      rfl
    · have hinfo : (Function.update demoBoot.info ⟨1⟩ (.fresh true) t).syscall = none := by
        rw [Function.update_of_ne h1]
        rfl
      exact (update_syscall _ t).trans ((if_neg h1).trans
        ((switchInfo_syscall _ _ t).trans ((if_neg h0).trans hinfo)))) rfl
  have h7 := reach_dispatchYield h6 default (fun _ => .ok 0) (hC rfl) rfl rfl
    (demoStack.load_trap _ _) rfl rfl
  have h8 := reach_yieldNow h7 0 (hC rfl) ⟨rfl, rfl, rfl⟩ rfl
  exact ⟨_, h8, rfl, intact_of_noneParked _ _ _ h8⟩

/-- Two host threads of one process yield in turn. The first one then finds the frame of the
second: the `rbx` it would return with is 2, and it trapped with 1. -/
theorem not_intact : ∃ st, (system .dev demoStack).Reach st ∧
    st.self.syscall = some ⟨demoRegs 3 1, some 0⟩ ∧
    (SyscallFrame.load st.mem demoStack.frame).rbx = 2 ∧ ¬ Intact .dev demoStack st := by
  have h1 := reach_call (reach_demoBoot fun _ _ => True) default
    (.processCreate ⟨userCodeBase, by decide⟩ ⟨userStackTop, by decide⟩) trivial
    ⟨rfl, rfl, rfl⟩ trivial rfl
  have h2 := reach_spawn h1 ⟨1⟩ true 0x100000 trivial ⟨rfl, rfl, rfl⟩ rfl
  have h3 := reach_spawn h2 ⟨1⟩ true 0x200000 trivial ⟨rfl, rfl, rfl⟩ rfl
  have h4 := reach_yieldNow h3 0 trivial ⟨rfl, rfl, rfl⟩ rfl
  have h5 := reach_enterUserland h4 (demoRegs 0 0) trivial rfl rfl rfl rfl rfl rfl rfl
  have h6 := reach_exec h5 (demoRegs 3 1) trivial rfl rfl
  have h7 := reach_trap h6 trivial rfl
  have h8 := reach_dispatchYield h7 default (fun _ => .ok 0) trivial rfl rfl
    (demoStack.load_trap _ _) rfl rfl
  have h9 := reach_enterUserland h8 (demoRegs 0 0) trivial rfl rfl rfl rfl rfl rfl rfl
  have h10 := reach_exec h9 (demoRegs 3 2) trivial rfl rfl
  have h11 := reach_trap h10 trivial rfl
  have h12 := reach_dispatchYield h11 default (fun _ => .ok 0) trivial rfl rfl
    (demoStack.load_trap _ _) rfl rfl
  have h13 := reach_yieldNow h12 0 trivial ⟨rfl, rfl, rfl⟩ rfl
  refine ⟨_, h13.of_restrict, rfl, congrArg SyscallFrame.rbx (demoStack.load_trap _ _),
    fun hi => ?_⟩
  have hframe : demoRegs 3 2 = demoRegs 3 1 := (demoStack.load_trap _ _).symm.trans (hi _ rfl rfl).1
  exact absurd hframe (by decide)

end Apogee.Machine
