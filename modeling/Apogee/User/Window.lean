import Apogee.User.SetupSpec
import Apogee.User.Syscall

/-!
# User buffers against the mapped pages

`user_bytes` checks a buffer against the window from `USER_CODE_BASE` to `USER_STACK_TOP`. The setup
maps the first and the last of the three pages of that window, so a buffer can pass the check and
reach the page in between.

* `userBytes_isSome`: what the check accepts.
* `mappedBySetup_iff`: the addresses in the two pages that a successful setup maps.
* `sysWrite_ok`: a write whose buffer can be loaded returns.
* `bufferChecked_iff`: the check agrees with the mapping exactly on the buffers that stay out of the
  page in between.
-/

namespace Apogee

open Verif

variable {M A : Type} [FrameAllocator A] [Mapper M A] [PageWalk M] [LawfulMapper M A]

/-- `addr` is in a page that is user-accessible after the setup and was not mapped before it. -/
def MappedBySetup (s s' : Setup M A) (addr : UInt64) : Prop :=
  s.mapping (.containingAddress addr) = none ∧
    ∃ frame flags, s'.mapping (.containingAddress addr) = some (frame, flags) ∧
      flags.present = true ∧ flags.userAccessible = true

/-- The bytes from `ptr` on, `len` of them. -/
def InBuffer (ptr len addr : UInt64) : Prop :=
  ptr.toNat ≤ addr.toNat ∧ addr.toNat < ptr.toNat + len.toNat

/-- The buffers that the kernel may read: short, not wrapping, and of mapped bytes only. -/
def ValidBuffer (Mapped : UInt64 → Prop) (ptr len : UInt64) : Prop :=
  len.toNat ≤ maxUserIo.toNat ∧ ptr.toNat + len.toNat < 2 ^ 64 ∧
    ∀ addr, InBuffer ptr len addr → Mapped addr

/-- The check accepts exactly the valid buffers, and a write never loads an unmapped byte: it
returns under any `load` that works on the mapped ones. -/
structure BufferChecked (Mapped : UInt64 → Prop) (p : Profile) (ptr len : UInt64) : Prop where
  exact : (userBytes ptr len).isSome ↔ ValidBuffer Mapped ptr len
  write_ok : ∀ (load : UInt64 → Panics UInt8) (caller : Caller) (frame : SyscallFrame) (k : Kernel),
    (∀ addr, Mapped addr → ∃ b, load addr = .ok b) → frame.rsi = ptr → frame.rdx = len →
    ∃ r, k.sysWrite p load caller frame = .ok r

/-- A short buffer in the window that has a byte between the code page and the stack page. -/
def ReachesGap (ptr len : UInt64) : Prop :=
  len.toNat ≤ maxUserIo.toNat ∧ userCodeBase.toNat ≤ ptr.toNat ∧
    ptr.toNat + len.toNat ≤ userStackTop.toNat ∧
    ptr.toNat < userStackBase.toNat ∧ userCodeBase.toNat + 4096 < ptr.toNat + len.toNat

theorem userBytes_eq_some {ptr len : UInt64} {slice : UserSlice} :
    userBytes ptr len = some slice ↔ slice = ⟨ptr, len⟩ ∧ len.toNat ≤ maxUserIo.toNat ∧
      userCodeBase.toNat ≤ ptr.toNat ∧ ptr.toNat + len.toNat ≤ userStackTop.toNat := by
  unfold userBytes Word.checkedAdd
  simp only [UInt64.lt_iff_toNat_lt]
  have htop : userStackTop.toNat < 2 ^ 64 := userStackTop.toNat_lt
  by_cases h1 : maxUserIo.toNat < len.toNat
  · simp only [if_pos h1]
    constructor
    · intro h; cases h
    · rintro ⟨-, h, -⟩; omega
  by_cases h2 : ptr.toNat + len.toNat < 2 ^ 64
  · simp only [if_neg h1, if_pos h2, Option.bind_eq_bind, Option.bind_some]
    by_cases h3 : ptr.toNat < userCodeBase.toNat ∨ userStackTop.toNat < ptr.toNat + len.toNat
    · rw [if_pos h3]
      constructor
      · intro h; cases h
      · rintro ⟨-, -, h, h'⟩; omega
    · rw [if_neg h3, Option.some.injEq, eq_comm]
      exact ⟨fun h => ⟨h, by omega, by omega, by omega⟩, fun h => h.1⟩
  · simp only [if_neg h1, if_neg h2, Option.bind_eq_bind, Option.bind_none]
    constructor
    · intro h; cases h
    · rintro ⟨-, -, -, h⟩; omega

theorem userBytes_isSome {ptr len : UInt64} : (userBytes ptr len).isSome ↔
    len.toNat ≤ maxUserIo.toNat ∧ userCodeBase.toNat ≤ ptr.toNat ∧
      ptr.toNat + len.toNat ≤ userStackTop.toNat := by
  rw [Option.isSome_iff_exists]
  constructor
  · rintro ⟨slice, h⟩
    exact (userBytes_eq_some.mp h).2
  · intro h
    exact ⟨_, userBytes_eq_some.mpr ⟨rfl, h⟩⟩

theorem containingAddress_eq_iff {addr : UInt64} (base : UInt64) (hb : base.toNat % 4096 = 0) :
    Page.containingAddress addr = .containingAddress base ↔
      base.toNat ≤ addr.toNat ∧ addr.toNat < base.toNat + 4096 := by
  unfold Page.containingAddress
  rw [Page.mk.injEq, ← UInt64.toNat_inj, UInt64.toNat_div, UInt64.toNat_div]
  show addr.toNat / 4096 = base.toNat / 4096 ↔ _
  omega

/-- The two pages of a successful setup. -/
theorem mappedBySetup_iff {p : Profile} {program : List UInt8} {pid : ProcessId}
    {s s' : Setup M A} (h : s.createProcessFromProgram p program = .ok (s', .ok pid))
    (addr : UInt64) : MappedBySetup s s' addr ↔
      (userCodeBase.toNat ≤ addr.toNat ∧ addr.toNat < userCodeBase.toNat + 4096) ∨
      (userStackBase.toNat ≤ addr.toNat ∧ addr.toNat < userStackTop.toNat) := by
  obtain ⟨hc, hs, codeFrame, stackFrame, hm, -⟩ := Setup.createProcess_ok h
  rw [show userStackTop.toNat = userStackBase.toNat + 4096 from rfl,
    ← containingAddress_eq_iff userCodeBase rfl,
    ← containingAddress_eq_iff userStackBase rfl]
  unfold MappedBySetup
  rw [hm]
  by_cases h2 : Page.containingAddress addr = stackPage
  · rw [h2, Function.update_self]
    exact ⟨fun _ => .inr rfl, fun _ => ⟨hs, stackFrame, userFlags, rfl, rfl, rfl⟩⟩
  · rw [Function.update_of_ne h2]
    by_cases h1 : Page.containingAddress addr = codePage
    · rw [h1, Function.update_self]
      exact ⟨fun _ => .inl rfl, fun _ => ⟨hc, codeFrame, userFlags, rfl, rfl, rfl⟩⟩
    · rw [Function.update_of_ne h1]
      constructor
      · rintro ⟨hn, frame, flags, he, -⟩
        rw [hn] at he
        cases he
      · rintro (h | h)
        · exact absurd h h1
        · exact absurd h h2

omit [FrameAllocator A] [Mapper M A] [PageWalk M] [LawfulMapper M A]

/-- The addresses that a slice loads are those of its buffer. -/
theorem UserSlice.read_ok {load : UInt64 → Panics UInt8} {slice : UserSlice}
    (hfit : slice.ptr.toNat + slice.len.toNat < 2 ^ 64)
    (h : ∀ addr, InBuffer slice.ptr slice.len addr → ∃ b, load addr = .ok b) :
    ∃ bytes, slice.read load = .ok bytes := by
  refine Panics.mapM_ok _ fun i hi => h _ ?_
  have hi := List.mem_range.mp hi
  have hlen := slice.len.toNat_lt
  unfold InBuffer
  rw [UInt64.toNat_add, Word.toNat_ofNat (by omega), Nat.mod_eq_of_lt (by omega)]
  omega

/-- A write whose buffer, if it is accepted, can be loaded returns. -/
theorem Kernel.sysWrite_ok {p : Profile} {load : UInt64 → Panics UInt8} {caller : Caller}
    {frame : SyscallFrame} {k : Kernel}
    (h : ∀ slice, userBytes frame.rsi frame.rdx = some slice →
      ∃ bytes, slice.read load = .ok bytes) : ∃ r, k.sysWrite p load caller frame = .ok r := by
  unfold Kernel.sysWrite
  split
  · exact ⟨_, rfl⟩
  · split
    · exact ⟨_, rfl⟩
    · next slice hs =>
      obtain ⟨bytes, hb⟩ := h slice hs
      obtain ⟨console, hc⟩ := k.console.writeBytes_ok bytes
      simp only [hb, Kernel.call, hc, Panics.bind_ok, Panics.pure_eq]
      exact ⟨_, rfl⟩

/-- The first and the last byte of a buffer that is not empty. -/
theorem inBuffer_ends {ptr len : UInt64} (hlen : 0 < len.toNat)
    (hfit : ptr.toNat + len.toNat < 2 ^ 64) : InBuffer ptr len ptr ∧
      ∃ last : UInt64, last.toNat = ptr.toNat + len.toNat - 1 ∧ InBuffer ptr len last := by
  refine ⟨⟨Nat.le_refl _, by omega⟩, UInt64.ofNat (ptr.toNat + len.toNat - 1), ?_, ?_⟩
  · rw [Word.toNat_ofNat (by omega)]
  · unfold InBuffer
    rw [Word.toNat_ofNat (by omega)]
    omega

section Exact

variable {Mapped : UInt64 → Prop} {p : Profile} {ptr len : UInt64}
  (hmap : ∀ addr : UInt64, Mapped addr ↔
    (userCodeBase.toNat ≤ addr.toNat ∧ addr.toNat < userCodeBase.toNat + 4096) ∨
    (userStackBase.toNat ≤ addr.toNat ∧ addr.toNat < userStackTop.toNat))
include hmap

/-- Out of the gap, what the check accepts is mapped. -/
theorem mapped_of_accepted (hgap : ¬ ReachesGap ptr len) (h : (userBytes ptr len).isSome)
    (addr : UInt64) (ha : InBuffer ptr len addr) : Mapped addr := by
  obtain ⟨h1, h2, h3⟩ := userBytes_isSome.mp h
  obtain ⟨ha1, ha2⟩ := ha
  rw [hmap]
  unfold ReachesGap at hgap
  omega

/-- A valid buffer is in the window. -/
theorem accepted_of_valid (hlen : 0 < len.toNat) (h : ValidBuffer Mapped ptr len) :
    (userBytes ptr len).isSome := by
  obtain ⟨h1, h2, h3⟩ := h
  obtain ⟨hfirst, last, hlast, hin⟩ := inBuffer_ends hlen h2
  have hp := (hmap ptr).mp (h3 ptr hfirst)
  have hl := (hmap last).mp (h3 last hin)
  have hbase : userCodeBase.toNat + 4096 ≤ userStackBase.toNat := by decide
  have htop : userStackBase.toNat ≤ userStackTop.toNat := by decide
  rw [userBytes_isSome]
  omega

/-- A buffer that reaches the gap is accepted and has an unmapped byte. -/
theorem not_valid_of_gap (hlen : 0 < len.toNat) (hgap : ReachesGap ptr len) :
    ¬ ValidBuffer Mapped ptr len := by
  obtain ⟨h1, h2, h3, h4, h5⟩ := hgap
  rintro ⟨-, hfit, hall⟩
  -- The first byte of the buffer that is past the code page.
  have hx : (UInt64.ofNat (max ptr.toNat (userCodeBase.toNat + 4096))).toNat =
      max ptr.toNat (userCodeBase.toNat + 4096) :=
    Word.toNat_ofNat (Nat.lt_of_le_of_lt (m := ptr.toNat + len.toNat) (by omega) hfit)
  have hbase : userCodeBase.toNat + 4096 < userStackBase.toNat := by decide
  have hm := (hmap _).mp (hall (UInt64.ofNat (max ptr.toNat (userCodeBase.toNat + 4096)))
    (by unfold InBuffer; rw [hx]; omega))
  rw [hx] at hm
  omega

theorem bufferChecked_of_mapped (hlen : 0 < len.toNat) :
    BufferChecked Mapped p ptr len ↔ ¬ ReachesGap ptr len := by
  constructor
  · intro h hgap
    have hsome := userBytes_isSome.mpr ⟨hgap.1, hgap.2.1, hgap.2.2.1⟩
    exact not_valid_of_gap hmap hlen hgap (h.exact.mp hsome)
  · intro hgap
    refine ⟨⟨fun h => ?_, accepted_of_valid hmap hlen⟩, fun load caller frame k hload hp hl => ?_⟩
    · obtain ⟨h1, -, h3⟩ := userBytes_isSome.mp h
      exact ⟨h1, Nat.lt_of_le_of_lt h3 userStackTop.toNat_lt, mapped_of_accepted hmap hgap h⟩
    · apply Kernel.sysWrite_ok
      intro slice hs
      rw [hp, hl] at hs
      obtain ⟨rfl, -, -, h3⟩ := userBytes_eq_some.mp hs
      refine UserSlice.read_ok (Nat.lt_of_le_of_lt h3 userStackTop.toNat_lt) fun addr ha => ?_
      exact hload addr (mapped_of_accepted hmap hgap (by rw [hs]; rfl) addr ha)

end Exact

/-- For every process that a successful setup made and every buffer that is not empty, the check
agrees with the mapping exactly if the buffer stays out of the page between code and stack. -/
theorem bufferChecked_iff {M A : Type} [FrameAllocator A] [Mapper M A] [PageWalk M]
    [LawfulMapper M A] (p : Profile) (program : List UInt8) (s s' : Setup M A) (pid : ProcessId)
    (h : s.createProcessFromProgram p program = .ok (s', .ok pid)) (ptr len : UInt64)
    (hlen : 0 < len.toNat) :
    BufferChecked (MappedBySetup s s') p ptr len ↔ ¬ ReachesGap ptr len :=
  bufferChecked_of_mapped (mappedBySetup_iff h) hlen

/-- A process with a one-byte program, and a buffer that ends where its stack does. -/
theorem bufferChecked_iff_stack : ∃ s' pid,
    freshSetup.createProcessFromProgram .dev [0xf4] = .ok (s', .ok pid) ∧
    BufferChecked (MappedBySetup freshSetup s') .dev 0x400000002ff0 16 := by
  obtain ⟨s', hs⟩ := freshSetup_ok
  refine ⟨s', ⟨1⟩, hs, (bufferChecked_iff .dev [0xf4] freshSetup s' ⟨1⟩ hs _ _ (by decide)).mpr ?_⟩
  rintro ⟨-, -, -, h, -⟩
  exact absurd h (by decide)

/-- The check accepts the first byte after the code page, which the setup does not map. -/
theorem not_bufferChecked_gap : ∃ s' pid,
    freshSetup.createProcessFromProgram .dev [0xf4] = .ok (s', .ok pid) ∧
    (userBytes 0x400000001000 1).isSome ∧ ¬ MappedBySetup freshSetup s' 0x400000001000 ∧
    ¬ BufferChecked (MappedBySetup freshSetup s') .dev 0x400000001000 1 := by
  obtain ⟨s', hs⟩ := freshSetup_ok
  have hacc : (userBytes 0x400000001000 1).isSome := by decide
  have hgap : ¬ MappedBySetup freshSetup s' 0x400000001000 := by
    rw [mappedBySetup_iff hs]
    decide
  refine ⟨s', ⟨1⟩, hs, hacc, hgap, fun h => hgap ?_⟩
  exact (h.exact.mp hacc).2.2 _ (by unfold InBuffer; decide)

end Apogee
