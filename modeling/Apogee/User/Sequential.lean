import Apogee.Kernel.Authorization
import Apogee.Lib.Progress
import Apogee.User.SetupSpec
import Apogee.User.Syscall

/-!
# One user process after another

Runs of the whole machine from boot, with setups that succeed or fail, host threads, kernel calls by
anyone, processes that end by `sys_exit` or by a fault, and whatever else goes on. A process that
ends by a request of the kernel itself is a `call`. Only the setup maps the two user pages, and
nothing unmaps a page, so a setup after one that got past the code page finds it mapped.

* `Setup.Step.userPages`: what a step does to the two pages.
* `createProcess_after_cycles`: with frames left, the next setup succeeds exactly if both user pages
  are free, and they are exactly if no setup of the run has mapped the code page.
-/

namespace Apogee

open Verif

/-- The current thread, which belongs to `pid`, ends its process. -/
def EndsProcess (p : Profile) (pid : ProcessId) (k k' : Kernel) : Prop :=
  k.threads.currentProcess = pid ∧
    ((∃ code, k.sysExit p (.user pid) code = .ok k') ∨
      ∃ reason, k.killFaultingProcess p reason = .ok k')

/-- A step of the machine, with what came of it. -/
inductive SetupEvent where
  | setup (result : Except String ProcessId)
  | spawn (pid : ProcessId)
  | call (caller : Caller) (request : Request) (response : Option Response)
  | ended (pid : ProcessId)
  | other

/-- The step is a setup that got past the code page. -/
def SetupEvent.MapsCode : SetupEvent → Prop
  | .setup (.ok _) => True
  | .setup (.error e) => ¬ Setup.FailsBeforeCode e
  | _ => False

namespace Setup

variable {M A : Type} [FrameAllocator A] [Mapper M A] [PageWalk M]

/-- Neither user page is mapped. -/
def UserPagesFree (s : Setup M A) : Prop := s.mapping codePage = none ∧ s.mapping stackPage = none

/-- One step. Code other than the setup may use frames and memory, and it may map other pages. -/
inductive Step (p : Profile) : Setup M A → SetupEvent → Setup M A → Prop
  | setup {s s' : Setup M A} {program : List UInt8} {r : Except String ProcessId} :
      s.createProcessFromProgram p program = .ok (s', r) → Step p s (.setup r) s'
  | spawn {s : Setup M A} {env : Env} {pid : ProcessId} {k : Kernel} :
      s.kernel.spawnUserThread p env pid = .ok k → Step p s (.spawn pid) { s with kernel := k }
  | call {s : Setup M A} {env : Env} {caller : Caller} {request : Request} {k : Kernel}
      {r : Option Response} : s.kernel.call p env caller request = .ok (k, r) →
      Step p s (.call caller request r) { s with kernel := k }
  | ended {s : Setup M A} {pid : ProcessId} {k : Kernel} : EndsProcess p pid s.kernel k →
      Step p s (.ended pid) { s with kernel := k }
  | other {s s' : Setup M A} : s'.mapping codePage = s.mapping codePage →
      s'.mapping stackPage = s.mapping stackPage → Step p s .other s'

/-- The runs from boot. The bootloader leaves the user pages free. -/
def system (p : Profile) : Sys (Setup M A) SetupEvent where
  init := UserPagesFree
  step := Step p

variable [LawfulMapper M A] {p : Profile} {s s' : Setup M A} {program : List UInt8}
  {r : Except String ProcessId} {e : SetupEvent} {es : List SetupEvent}

/-- A setup found the code page free and mapped it, or it mapped nothing. The result says which. -/
theorem createProcess_mapsCode (h : s.createProcessFromProgram p program = .ok (s', r)) :
    (SetupEvent.MapsCode (.setup r) ∧ s'.mapping codePage ≠ none) ∨
      (¬ SetupEvent.MapsCode (.setup r) ∧ s'.mapping = s.mapping) := by
  cases r with
  | ok pid =>
    obtain ⟨-, -, codeFrame, stackFrame, he, -⟩ := createProcess_ok h
    refine .inl ⟨trivial, ?_⟩
    rw [he, Function.update_of_ne (by decide), Function.update_self]
    exact Option.some_ne_none _
  | error e =>
    obtain ⟨-, ⟨hbefore, -, hm⟩ | ⟨hpast, -, -, frame, hm⟩⟩ := createProcess_error h
    · exact .inr ⟨not_not.mpr hbefore, hm⟩
    · refine .inl ⟨hpast, ?_⟩
      rw [hm, Function.update_self]
      exact Option.some_ne_none _

/-- A step leaves the code page mapped, or it leaves both user pages as they were. -/
theorem Step.userPages (h : Step p s e s') :
    (e.MapsCode ∧ s'.mapping codePage ≠ none) ∨
      (¬ e.MapsCode ∧ s'.mapping codePage = s.mapping codePage ∧
        s'.mapping stackPage = s.mapping stackPage) := by
  cases h with
  | setup hs =>
    obtain hmaps | ⟨hnot, hm⟩ := createProcess_mapsCode hs
    · exact .inl hmaps
    · exact .inr ⟨hnot, by rw [hm], by rw [hm]⟩
  | spawn | call | ended => exact .inr ⟨id, rfl, rfl⟩
  | other hcode hstack => exact .inr ⟨id, hcode, hstack⟩

/-- A run never unmaps the code page. -/
theorem code_mapped_of_run (h : (system p).Run s es s') (hs : s.mapping codePage ≠ none) :
    s'.mapping codePage ≠ none := by
  induction h with
  | nil => exact hs
  | cons hst _ ih =>
    apply ih
    obtain ⟨-, hmapped⟩ | ⟨-, hcode, -⟩ := Step.userPages hst
    · exact hmapped
    · rwa [hcode]

/-- From free user pages, a run leaves them free exactly if none of its setups maps the code
page. -/
theorem userPagesFree_iff (h : (system p).Run s es s') (hs : s.UserPagesFree) :
    s'.UserPagesFree ↔ ∀ e ∈ es, ¬ e.MapsCode := by
  induction h with
  | nil => exact iff_of_true hs (by simp)
  | cons hst hrun ih =>
    rw [List.forall_mem_cons]
    obtain ⟨hmaps, hmapped⟩ | ⟨hnot, hcode, hstack⟩ := Step.userPages hst
    · exact iff_of_false (fun hfree => code_mapped_of_run hrun hmapped hfree.1)
        fun hnone => hnone.1 hmaps
    · rw [ih ⟨hcode.trans hs.1, hstack.trans hs.2⟩, and_iff_right hnot]

/-- With eight frames left, a setup succeeds exactly if both user pages are free. -/
theorem createProcess_iff (hlen : program.length ≤ 4096)
    (hframes : 8 ≤ LawfulMapper.available M s.frameAllocator) :
    (∃ s' pid, s.createProcessFromProgram p program = .ok (s', .ok pid)) ↔ s.UserPagesFree := by
  constructor
  · rintro ⟨s', pid, hs⟩
    obtain ⟨hcode, hstack, -⟩ := createProcess_ok hs
    exact ⟨hcode, hstack⟩
  · rintro ⟨hcode, hstack⟩
    exact createProcess_free hlen hcode hstack hframes

omit [LawfulMapper M A] in
/-- A cycle in which the new thread runs after one yield and exits at once. -/
theorem run_of_exit (s : Setup M A) (program : List UInt8) (env : Env) {pid : ProcessId}
    {s₁ : Setup M A} {k₂ k₄ : Kernel} {r : Kernel × Option Response}
    (hcreate : s.createProcessFromProgram p program = .ok (s₁, .ok pid))
    (hspawn : s₁.kernel.spawnUserThread p env pid = .ok k₂)
    (hyield : k₂.call p env .kernel .threadYield = .ok r)
    (hcur : r.1.threads.currentProcess = pid) (hexit : r.1.sysExit p (.user pid) 0 = .ok k₄) :
    (system p).Run s
      [.setup (.ok pid), .spawn pid, .call .kernel .threadYield r.2, .ended pid]
      { s₁ with kernel := k₄ } :=
  .cons (.setup hcreate) (.cons (.spawn hspawn) (.cons (.call hyield)
    (.cons (.ended ⟨hcur, .inl ⟨0, hexit⟩⟩) .nil)))

end Setup

section

variable {M A : Type} [FrameAllocator A] [Mapper M A] [PageWalk M] [LawfulMapper M A]

/-- After any run from boot, in any state with enough frames, whatever is registered: the next setup
succeeds exactly if both user pages are free, that is, if no setup of the run has mapped the code
page. How many processes have ended, and how, makes no difference. -/
theorem createProcess_after_cycles (p : Profile) (boot s : Setup M A) (es : List SetupEvent)
    (hboot : boot.UserPagesFree) (h : (Setup.system p).Run boot es s)
    (hframes : 8 ≤ LawfulMapper.available M s.frameAllocator) (program : List UInt8)
    (hlen : program.length ≤ 4096) :
    ((∃ s' pid, s.createProcessFromProgram p program = .ok (s', .ok pid)) ↔ s.UserPagesFree) ∧
      (s.UserPagesFree ↔ ∀ e ∈ es, ¬ e.MapsCode) :=
  ⟨Setup.createProcess_iff hlen hframes, Setup.userPagesFree_iff h hboot⟩

end

/-- A setup without frames fails. When frames are there, the next one succeeds. -/
theorem createProcess_after_cycles_zero :
    (Setup.system .dev).Run emptySetup [.setup (.error "no frame for user code"), .other]
      freshSetup ∧
    ∃ s' pid, freshSetup.createProcessFromProgram .dev [0xf4] = .ok (s', .ok pid) := by
  have hfail : emptySetup.createProcessFromProgram .dev [0xf4] =
      .ok (emptySetup, .error "no frame for user code") := rfl
  have hframes : Setup.Step .dev emptySetup .other freshSetup := .other rfl rfl
  have hrun : (Setup.system .dev).Run emptySetup
      [.setup (.error "no frame for user code"), .other] freshSetup :=
    .cons (.setup hfail) (.cons hframes .nil)
  obtain ⟨hiff, hfree⟩ := createProcess_after_cycles .dev emptySetup freshSetup _ ⟨rfl, rfl⟩ hrun
    (by decide) [0xf4] (by decide)
  refine ⟨hrun, hiff.mpr (hfree.mpr ?_)⟩
  simp [SetupEvent.MapsCode, Setup.FailsBeforeCode]

/-- A process is set up, its thread runs after one yield and exits. With no process registered and
eleven frames left, the next setup fails. -/
theorem createProcess_fails_after_cycle : ∃ s,
    (Setup.system .dev).Run freshSetup
      [.setup (.ok ⟨1⟩), .spawn ⟨1⟩, .call .kernel .threadYield (some .ok), .ended ⟨1⟩] s ∧
    s.kernel.processes = ∅ ∧ s.frameAllocator.length = 11 ∧
    ∃ s', s.createProcessFromProgram .dev [0xf4] = .ok (s', .error "map_to_user_code failed") := by
  have hrun := Setup.run_of_exit (p := .dev) freshSetup [0xf4] ⟨0, 0⟩ rfl rfl rfl rfl rfl
  exact ⟨_, hrun, by decide, rfl, _, rfl⟩

end Apogee
