import Apogee.User.Userland

/-!
# What the process setup maps

* `mapUserPage_ok`, `mapUserPage_error`: one page.
* `createProcess_ok`: a successful setup found the code page and the stack page unmapped and mapped
  exactly these two.
* `createProcess_error`: a failed setup mapped nothing, or only the code page. The error says which.
* `createProcess_code_mapped`: a setup over a mapped code page fails.
* `createProcess_free`: with both pages free and eight frames left, a setup succeeds.
* `createProcess_atomic_iff`: a failed setup leaves all as it was if and only if it failed before
  the code page was mapped. After that there is no way back: the page stays mapped, and every
  further setup fails on it.
-/

namespace Apogee

open Verif

/-- The page at `USER_CODE_BASE`. -/
def codePage : Page := .containingAddress userCodeBase

/-- The page at `USER_STACK_BASE`. -/
def stackPage : Page := .containingAddress userStackBase

namespace Setup

variable {M A : Type} [FrameAllocator A] [Mapper M A] [PageWalk M] [LawfulMapper M A]
  {p : Profile} {s s' : Setup M A} {page : Page} {frame : PhysFrame} {noFrame mapFailed e : String}
  {program : List UInt8} {pid : ProcessId}

/-- What the CPU finds for a page. -/
abbrev mapping (s : Setup M A) (page : Page) : Option (PhysFrame × PageTableFlags) :=
  PageWalk.mapping s.mapper page

theorem mapUserPage_ok (h : s.mapUserPage noFrame mapFailed page = (s', .ok frame)) :
    s.mapping page = none ∧
      s'.mapping = Function.update s.mapping page (some (frame, userFlags)) ∧
      s'.kernel = s.kernel := by
  unfold mapUserPage at h
  split at h
  · cases (Prod.mk.inj h).2
  · split at h
    · cases (Prod.mk.inj h).2
    · next hm =>
      obtain ⟨rfl, hf⟩ := Prod.mk.inj h
      obtain rfl := Except.ok.inj hf
      obtain ⟨h1, h2⟩ := LawfulMapper.map_ok hm
      exact ⟨h1, h2, rfl⟩

theorem mapUserPage_error (h : s.mapUserPage noFrame mapFailed page = (s', .error e)) :
    s'.mapping = s.mapping ∧ s'.kernel = s.kernel := by
  unfold mapUserPage at h
  split at h
  · obtain ⟨rfl, -⟩ := Prod.mk.inj h
    exact ⟨rfl, rfl⟩
  · split at h
    · next hm =>
      obtain ⟨rfl, -⟩ := Prod.mk.inj h
      exact ⟨LawfulMapper.map_error hm, rfl⟩
    · cases (Prod.mk.inj h).2

omit [PageWalk M] [LawfulMapper M A] in
theorem mapUserPage_error_text (h : s.mapUserPage noFrame mapFailed page = (s', .error e)) :
    e = noFrame ∨ e = mapFailed := by
  unfold mapUserPage at h
  split at h
  · exact .inl (Except.error.inj (Prod.mk.inj h).2).symm
  · split at h
    · exact .inr (Except.error.inj (Prod.mk.inj h).2).symm
    · cases (Prod.mk.inj h).2

/-- A free page is mapped if four frames are left: its own and one for each table. -/
theorem mapUserPage_free (noFrame mapFailed : String) (page : Page) (hp : s.mapping page = none)
    (ha : 4 ≤ LawfulMapper.available M s.frameAllocator) :
    ∃ s' frame, s.mapUserPage noFrame mapFailed page = (s', .ok frame) ∧
      LawfulMapper.available M s.frameAllocator ≤
        LawfulMapper.available M s'.frameAllocator + 4 := by
  obtain ⟨f, a, hf, hle⟩ := LawfulMapper.allocateFrame_some (M := M) s.frameAllocator (by omega)
  obtain ⟨m', a', hm, hle'⟩ :=
    LawfulMapper.map_free s.mapper a page f userFlags userFlags hp (by omega)
  refine ⟨{ s with mapper := m', frameAllocator := a' }, f, ?_, ?_⟩
  · simp only [mapUserPage, hf, hm]
  · show _ ≤ LawfulMapper.available M a' + 4
    omega

omit [FrameAllocator A] [Mapper M A] [PageWalk M] [LawfulMapper M A] in
/-- Registration by the kernel is always answered with the pid. -/
theorem registerProcess_eq (s : Setup M A) : s.registerProcess p =
    .ok ({ s with kernel := (s.kernel.create ⟨userCodeBase, by decide⟩
      ⟨userStackTop, by decide⟩).1 }, .ok ⟨s.kernel.nextPid⟩) := rfl

/-- What a successful setup did. -/
theorem createProcess_ok (h : s.createProcessFromProgram p program = .ok (s', .ok pid)) :
    s.mapping codePage = none ∧ s.mapping stackPage = none ∧
      ∃ codeFrame stackFrame, s'.mapping =
        Function.update (Function.update s.mapping codePage (some (codeFrame, userFlags)))
          stackPage (some (stackFrame, userFlags)) ∧
      s'.kernel = (s.kernel.create ⟨userCodeBase, by decide⟩ ⟨userStackTop, by decide⟩).1 ∧
      pid = ⟨s.kernel.nextPid⟩ := by
  unfold createProcessFromProgram at h
  split at h
  · cases (Prod.mk.inj (Except.ok.inj h)).2
  split at h
  · cases (Prod.mk.inj (Except.ok.inj h)).2
  next s1 codeFrame h1 =>
  simp only at h
  split at h
  · cases (Prod.mk.inj (Except.ok.inj h)).2
  next s2 stackFrame h2 =>
  rw [registerProcess_eq] at h
  obtain ⟨rfl, hpid⟩ := Prod.mk.inj (Except.ok.inj h)
  obtain ⟨hc, hm1, hk1⟩ := mapUserPage_ok h1
  -- The copy of the program changes neither the mapping nor the kernel.
  have hstack := mapUserPage_ok h2
  obtain ⟨hs, hm2, hk2⟩ : s1.mapping stackPage = none ∧
      s2.mapping = Function.update s1.mapping stackPage (some (stackFrame, userFlags)) ∧
      s2.kernel = s1.kernel := hstack
  rw [hm1, Function.update_of_ne (by decide)] at hs
  refine ⟨hc, hs, codeFrame, stackFrame, ?_, ?_, ?_⟩
  · show s2.mapping = _
    rw [hm2, hm1]
    rfl
  · show (s2.kernel.create _ _).1 = _
    rw [hk2, hk1]
  · rw [← Except.ok.inj hpid, hk2, hk1]

/-- A setup over a mapped code page fails. -/
theorem createProcess_code_mapped (hc : s.mapping codePage ≠ none) :
    ∀ s' pid, s.createProcessFromProgram p program ≠ .ok (s', .ok pid) :=
  fun _ _ h => hc (createProcess_ok h).1

/-- A setup with both pages free and enough frames succeeds. -/
theorem createProcess_free (hlen : program.length ≤ 4096) (hc : s.mapping codePage = none)
    (hs : s.mapping stackPage = none) (ha : 8 ≤ LawfulMapper.available M s.frameAllocator) :
    ∃ s' pid, s.createProcessFromProgram p program = .ok (s', .ok pid) := by
  obtain ⟨s1, codeFrame, h1, ha1⟩ := mapUserPage_free "no frame for user code"
    "map_to_user_code failed" codePage hc (by omega)
  have hm1 := (mapUserPage_ok h1).2.1
  obtain ⟨s2, stackFrame, h2, -⟩ := mapUserPage_free
    (s := { s1 with memory := copyBytes s1.memory codeFrame.startAddress program })
    "no frame for user stack" "map_to_user stack failed" stackPage
    (by show s1.mapping stackPage = none; rw [hm1, Function.update_of_ne (by decide), hs])
    (by show 4 ≤ LawfulMapper.available M s1.frameAllocator; omega)
  unfold createProcessFromProgram
  rw [if_neg (by omega), show s.mapUserPage _ _ (.containingAddress userCodeBase) = _ from h1]
  simp only
  rw [show Setup.mapUserPage _ _ (.containingAddress userStackBase) _ = _ from h2]
  exact ⟨_, _, registerProcess_eq s2⟩

/-! ## Failed setups -/

/-- The setup gets to map the code page: the program fits, and there is a frame and a free page for
it. -/
def CodeMapped (s : Setup M A) (program : List UInt8) : Prop :=
  program.length ≤ 4096 ∧ ∃ s' frame,
    s.mapUserPage "no frame for user code" "map_to_user_code failed" codePage = (s', .ok frame)

/-- The errors of a setup that did not get past the code page. -/
def FailsBeforeCode (e : String) : Prop :=
  e = "program doesn't fit in one page" ∨ e = "no frame for user code" ∨
    e = "map_to_user_code failed"

/-- Every page is mapped as before, and the registry and the counters are as before. -/
structure Unchanged (s s' : Setup M A) : Prop where
  mapping : ∀ page, s'.mapping page = s.mapping page
  processes : s'.kernel.processes = s.kernel.processes
  scheduler : s'.kernel.threads.scheduler = s.kernel.threads.scheduler

/-- A failed setup stopped before the code page was mapped, or it mapped the code page and
nothing else. The kernel is as before. -/
theorem createProcess_error (h : s.createProcessFromProgram p program = .ok (s', .error e)) :
    s'.kernel = s.kernel ∧
      ((FailsBeforeCode e ∧ ¬ s.CodeMapped program ∧ s'.mapping = s.mapping) ∨
        (¬ FailsBeforeCode e ∧ s.CodeMapped program ∧ s.mapping codePage = none ∧ ∃ frame,
          s'.mapping = Function.update s.mapping codePage (some (frame, userFlags)))) := by
  unfold createProcessFromProgram at h
  split at h
  · next hlen =>
    obtain ⟨rfl, he⟩ := Prod.mk.inj (Except.ok.inj h)
    exact ⟨rfl, .inl ⟨.inl (Except.error.inj he).symm, fun hc => absurd hc.1 (by omega), rfl⟩⟩
  next hlen =>
  split at h
  · next s1 e1 h1 =>
    obtain ⟨rfl, he⟩ := Prod.mk.inj (Except.ok.inj h)
    obtain rfl := Except.error.inj he
    obtain ⟨hm, hk⟩ := mapUserPage_error h1
    refine ⟨hk, .inl ⟨.inr (mapUserPage_error_text h1), ?_, hm⟩⟩
    rintro ⟨-, s2, frame, h2⟩
    cases (Prod.mk.inj (h1.symm.trans h2)).2
  next s1 codeFrame h1 =>
  obtain ⟨hc, hm1, hk1⟩ := mapUserPage_ok h1
  simp only at h
  split at h
  · next s2 e2 h2 =>
    obtain ⟨rfl, he⟩ := Prod.mk.inj (Except.ok.inj h)
    obtain rfl := Except.error.inj he
    -- The copy of the program changes neither the mapping nor the kernel.
    have hstack := mapUserPage_error h2
    obtain ⟨hm2, hk2⟩ : s2.mapping = s1.mapping ∧ s2.kernel = s1.kernel := hstack
    refine ⟨hk2.trans hk1, .inr ⟨?_, ⟨by omega, s1, codeFrame, h1⟩, hc, codeFrame, ?_⟩⟩
    · obtain rfl | rfl := mapUserPage_error_text h2
      · simp [FailsBeforeCode]
      · simp [FailsBeforeCode]
    · rw [hm2, hm1]
      rfl
  next s2 stackFrame h2 =>
  rw [registerProcess_eq] at h
  cases (Prod.mk.inj (Except.ok.inj h)).2

/-- A failed setup leaves every page, the registry and the counters as they were if and only if it
failed before the code page was mapped. If so, the same setup succeeds later with both pages free
and enough frames; if not, no later setup succeeds, whatever frames there are. -/
theorem createProcess_atomic_iff (p : Profile) (s s' : Setup M A) (program : List UInt8)
    (e : String) (h : s.createProcessFromProgram p program = .ok (s', .error e)) :
    (Unchanged s s' ↔ ¬ s.CodeMapped program) ∧
    (Unchanged s s' → program.length ≤ 4096 → s.mapping codePage = none →
      s.mapping stackPage = none → ∀ a : A, 8 ≤ LawfulMapper.available M a → ∃ s'' pid,
        { s' with frameAllocator := a }.createProcessFromProgram p program =
          .ok (s'', .ok pid)) ∧
    (¬ Unchanged s s' → ∀ (a : A) q program' s'' pid,
      { s' with frameAllocator := a }.createProcessFromProgram q program' ≠
        .ok (s'', .ok pid)) := by
  obtain ⟨hk, hcases⟩ := createProcess_error h
  have hiff : Unchanged s s' ↔ ¬ s.CodeMapped program := by
    obtain ⟨-, hnot, hm⟩ | ⟨-, hcode, hfree, frame, hm⟩ := hcases
    · exact iff_of_true ⟨fun page => by rw [hm], by rw [hk], by rw [hk]⟩ hnot
    · refine iff_of_false (fun hu => ?_) (not_not.mpr hcode)
      have hcontra := hu.mapping codePage
      rw [hm, Function.update_self, hfree] at hcontra
      cases hcontra
  refine ⟨hiff, fun hu hlen hc hs a ha => ?_, fun hu a q program' => ?_⟩
  · exact createProcess_free (s := { s' with frameAllocator := a }) hlen
      ((hu.mapping _).trans hc) ((hu.mapping _).trans hs) ha
  · apply createProcess_code_mapped
    obtain ⟨-, hnot, -⟩ | ⟨-, -, -, frame, hm⟩ := hcases
    · exact absurd (hiff.mpr hnot) hu
    · show s'.mapping codePage ≠ none
      rw [hm, Function.update_self]
      exact Option.some_ne_none _

end Setup

/-! ## A machine to set up on -/

/-- Empty page tables, sixteen frames and a kernel after boot. -/
def freshSetup : Setup PageTables (List PhysFrame) where
  mapper := ⟨[], fun _ => none⟩
  frameAllocator := (List.range 16).map fun i => ⟨UInt64.ofNat (4096 * i)⟩
  kernel := .boot .empty ⟨0, 7, fun _ _ => ⟨0x20, 7⟩⟩
  memory := fun _ => 0

/-- The same with only as many frames as the code page and its tables take. -/
def scarceSetup : Setup PageTables (List PhysFrame) :=
  { freshSetup with frameAllocator := (List.range 4).map fun i => ⟨UInt64.ofNat (4096 * i)⟩ }

/-- The same with no frames. -/
def emptySetup : Setup PageTables (List PhysFrame) := { freshSetup with frameAllocator := [] }

/-- A setup with no frames fails before it maps anything. -/
theorem createProcess_atomic_iff_empty : ∃ s' e,
    emptySetup.createProcessFromProgram .dev [0xf4] = .ok (s', .error e) ∧
      Setup.Unchanged emptySetup s' := by
  refine ⟨_, _, rfl, ?_⟩
  refine (Setup.createProcess_atomic_iff .dev _ _ [0xf4] _ rfl).1.mpr ?_
  rintro ⟨-, s', frame, h⟩
  cases (Prod.mk.inj h).2

/-- A setup that runs out of frames after the code page leaves it mapped, and the same setup with
enough frames then fails. -/
theorem scarceSetup_stuck : ∃ s' s'',
    scarceSetup.createProcessFromProgram .dev [0xf4] =
      .ok (s', .error "no frame for user stack") ∧
    scarceSetup.mapping codePage = none ∧ s'.mapping codePage ≠ none ∧
    { s' with frameAllocator := freshSetup.frameAllocator }.createProcessFromProgram .dev [0xf4] =
      .ok (s'', .error "map_to_user_code failed") := by
  refine ⟨_, _, rfl, rfl, ?_, rfl⟩
  decide

theorem freshSetup_ok : ∃ s', freshSetup.createProcessFromProgram .dev [0xf4] =
    .ok (s', .ok ⟨1⟩) := ⟨_, rfl⟩

end Apogee
