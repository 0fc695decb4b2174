import Mathlib.Tactic.Common
import Mathlib.Data.Nat.Bits
import Mathlib.Algebra.Order.Ring.Nat

/-!
# 64-bit words, panics and build profiles

Code that computes with `usize` words, as a natural number below `2 ^ 64`. A build decides what an
overflow does: `dev` panics, `release` wraps. `dev` also runs debug assertions, `release` skips
them. A computation that may panic is a `Panics α`; its error is the panic's message.

* `Word.add`, `Word.sub`, `Word.mul`: the operators `+`, `-` and `*`. `Word.checkedAdd`,
  `Word.satAdd` do not depend on the build.
* `Panics.loop`: a `loop` with a `break`, and its rule `loop_spec`.
* `Exact f`: the computation does not depend on the build, so it has no overflow.
* `Word.andNot`: `x & !m`. For `m = 2 ^ k - 1` it is the largest multiple of `2 ^ k` that is at
  most `x` (`andNot_two_pow`).
* `roundUp x a`: the least multiple of `a` that is at least `x`.
-/

namespace Verif

/-- How the code was compiled. -/
inductive Profile where
  /-- Overflows panic; debug assertions run. -/
  | dev
  /-- Overflows wrap; debug assertions do not run. -/
  | release
  deriving DecidableEq, Repr

/-- A computation that may panic, with the panic's message. -/
abbrev Panics (α : Type) := Except String α

/-- `debug_assert!(c, msg)`. The condition may itself panic. -/
def Profile.debugAssert (p : Profile) (c : Panics Bool) (msg : String) : Panics Unit :=
  match p with
  | .dev => do if ← c then pure () else throw msg
  | .release => pure ()

/-- `o.expect(msg)`. -/
def expect {α : Type} (o : Option α) (msg : String) : Panics α :=
  match o with
  | some a => pure a
  | none => throw msg

/-- The computation returns the same in both builds: nothing in it overflows and no assertion fails,
since a `dev` build panics on either. -/
def Exact {α : Type} (f : Profile → Panics α) : Prop := ∃ r, ∀ p, f p = .ok r

theorem not_exact_of_dev {α : Type} {f : Profile → Panics α} {msg : String}
    (h : f .dev = .error msg) : ¬ Exact f := by
  rintro ⟨r, hr⟩
  rw [hr .dev] at h
  cases h

@[simp] theorem Panics.bind_ok {α β : Type} (a : α) (f : α → Panics β) :
    ((Except.ok a : Panics α) >>= f) = f a := rfl

@[simp] theorem Panics.pure_eq {α : Type} (a : α) : (pure a : Panics α) = .ok a := rfl

theorem Panics.bind_eq_ok {α β : Type} {x : Panics α} {f : α → Panics β} {b : β} :
    (x >>= f) = .ok b ↔ ∃ a, x = .ok a ∧ f a = .ok b := by
  cases x with
  | error e => simp [Bind.bind, Except.bind]
  | ok a => simp

/-- A loop whose body never panics does not panic. -/
theorem Panics.foldlM_ok {α β : Type} {f : α → β → Panics α} (hf : ∀ a b, ∃ a', f a b = .ok a')
    (bs : List β) (a : α) : ∃ a', bs.foldlM f a = .ok a' := by
  induction bs generalizing a with
  | nil => exact ⟨a, rfl⟩
  | cons b bs ih =>
    obtain ⟨a', h⟩ := hf a b
    rw [List.foldlM_cons, h]
    exact ih a'

/-- `loop { body }`, up to a number of body runs. A body that gives no next state is a `break`; if
the body runs are used up, there is no result. -/
def Panics.loop {σ : Type} (body : σ → Panics (Option σ)) : Nat → σ → Panics (Option σ)
  | 0, _ => pure none
  | fuel + 1, s => do
    match ← body s with
    | none => pure (some s)
    | some s => loop body fuel s

/-- `I n` is an invariant of the states with at most `n` body runs before the `break`. -/
theorem Panics.loop_spec {σ : Type} {body : σ → Panics (Option σ)} {I : Nat → σ → Prop}
    {Q : σ → Prop}
    (step : ∀ n s, I n s → body s = .ok none ∧ Q s ∨
      ∃ s' n', body s = .ok (some s') ∧ n' < n ∧ I n' s')
    {n fuel : Nat} {s : σ} (hfuel : n < fuel) (h : I n s) :
    ∃ s', loop body fuel s = .ok (some s') ∧ Q s' := by
  induction fuel generalizing n s with
  | zero => omega
  | succ fuel ih =>
    unfold loop
    obtain ⟨hbreak, hq⟩ | ⟨s', n', hnext, hlt, hs'⟩ := step n s h
    · exact ⟨s, by rw [hbreak]; rfl, hq⟩
    · rw [hnext]
      exact ih (by omega) hs'

theorem Panics.mapM_ok {α β : Type} {f : α → Panics β} (l : List α)
    (h : ∀ a ∈ l, ∃ b, f a = .ok b) : ∃ bs, l.mapM f = .ok bs := by
  induction l with
  | nil => exact ⟨[], rfl⟩
  | cons a l ih =>
    obtain ⟨b, hb⟩ := h a (.head _)
    obtain ⟨bs, hbs⟩ := ih fun a ha => h a (.tail _ ha)
    exact ⟨b :: bs, by rw [List.mapM_cons, hb, hbs]; rfl⟩

theorem Panics.length_mapM {α β : Type} {f : α → Panics β} {l : List α} {bs : List β}
    (h : l.mapM f = .ok bs) : bs.length = l.length := by
  induction l generalizing bs with
  | nil =>
    obtain rfl := Except.ok.inj h
    rfl
  | cons a l ih =>
    rw [List.mapM_cons] at h
    obtain ⟨b, -, h⟩ := Panics.bind_eq_ok.mp h
    obtain ⟨bs', hbs, h⟩ := Panics.bind_eq_ok.mp h
    obtain rfl := Except.ok.inj h
    rw [List.length_cons, List.length_cons, ih hbs]

@[simp] theorem Profile.debugAssert_true (p : Profile) (msg : String) :
    p.debugAssert (.ok true) msg = .ok () := by
  cases p <;> rfl

@[simp] theorem expect_some {α : Type} (a : α) (msg : String) : expect (some a) msg = .ok a := rfl

theorem expect_eq_ok {α : Type} {o : Option α} {msg : String} {a : α} :
    expect o msg = .ok a ↔ o = some a := by
  cases o <;> simp [expect, throw, throwThe, MonadExceptOf.throw]

namespace Word

/-- `x + y`. -/
def add (p : Profile) (x y : Nat) : Panics Nat :=
  if x + y < 2 ^ 64 then .ok (x + y) else
    match p with
    | .dev => .error "attempt to add with overflow"
    | .release => .ok ((x + y) % 2 ^ 64)

/-- `x - y`. -/
def sub (p : Profile) (x y : Nat) : Panics Nat :=
  if y ≤ x then .ok (x - y) else
    match p with
    | .dev => .error "attempt to subtract with overflow"
    | .release => .ok (2 ^ 64 + x - y)

/-- `x * y`. -/
def mul (p : Profile) (x y : Nat) : Panics Nat :=
  if x * y < 2 ^ 64 then .ok (x * y) else
    match p with
    | .dev => .error "attempt to multiply with overflow"
    | .release => .ok (x * y % 2 ^ 64)

/-- `x.checked_add(y)`. -/
def checkedAdd (x y : Nat) : Option Nat := if x + y < 2 ^ 64 then some (x + y) else none

/-- `x.saturating_add(y)`. -/
def satAdd (x y : Nat) : Nat := min (x + y) (2 ^ 64 - 1)

/-- `x & !m`. -/
def andNot (x m : Nat) : Nat := x &&& (2 ^ 64 - 1 - m)

theorem add_of_lt {p : Profile} {x y : Nat} (h : x + y < 2 ^ 64) : add p x y = .ok (x + y) := by
  unfold add; rw [if_pos h]

theorem sub_of_le {p : Profile} {x y : Nat} (h : y ≤ x) : sub p x y = .ok (x - y) := by
  simp [sub, h]

theorem mul_of_lt {p : Profile} {x y : Nat} (h : x * y < 2 ^ 64) : mul p x y = .ok (x * y) := by
  unfold mul; rw [if_pos h]

theorem satAdd_of_lt {x y : Nat} (h : x + y < 2 ^ 64) : satAdd x y = x + y := by
  unfold satAdd; omega

theorem toNat_ofNat {n : Nat} (h : n < 2 ^ 64) : (UInt64.ofNat n).toNat = n :=
  UInt64.toNat_ofNat_of_lt' h

/-- The bits of `x` from bit `k` up. -/
theorem andNot_two_pow {x k : Nat} (hx : x < 2 ^ 64) (hk : k < 64) :
    andNot x (2 ^ k - 1) = x / 2 ^ k * 2 ^ k := by
  have hm : 2 ^ 64 - 1 - (2 ^ k - 1) = (2 ^ (64 - k) - 1) <<< k := by
    rw [Nat.shiftLeft_eq, Nat.sub_mul, ← Nat.pow_add, Nat.sub_add_cancel hk.le]
    have := Nat.two_pow_pos k
    omega
  rw [andNot, hm, ← Nat.shiftRight_eq_div_pow, ← Nat.shiftLeft_eq]
  apply Nat.eq_of_testBit_eq
  intro i
  simp only [Nat.testBit_and, Nat.testBit_shiftLeft, Nat.testBit_two_pow_sub_one,
    Nat.testBit_shiftRight]
  by_cases h : k ≤ i
  · have e : k + (i - k) = i := by omega
    by_cases hi : i < 64
    · simp [h, e, show i - k < 64 - k by omega]
    · -- A word has no bit from 64 up.
      have hb : x.testBit i = false :=
        Nat.testBit_lt_two_pow (hx.trans_le (Nat.pow_le_pow_right (by decide) (by omega)))
      simp [e, hb]
  · simp [h]

end Word

/-! ## Rounding up to a multiple -/

/-- The least multiple of `a` that is at least `x`. -/
def roundUp (x a : Nat) : Nat := (x + a - 1) / a * a

theorem dvd_roundUp (x a : Nat) : a ∣ roundUp x a := Nat.dvd_mul_left _ _

theorem le_roundUp {a : Nat} (x : Nat) (ha : 0 < a) : x ≤ roundUp x a := by
  have h := Nat.div_add_mod (x + a - 1) a
  have hm := Nat.mod_lt (x + a - 1) ha
  rw [Nat.mul_comm] at h
  unfold roundUp
  omega

/-- Minimality. -/
theorem roundUp_le {x y a : Nat} (hxy : x ≤ y) (hy : a ∣ y) : roundUp x a ≤ y := by
  obtain ⟨q, rfl⟩ := hy
  rcases Nat.eq_zero_or_pos a with rfl | ha
  · simp [roundUp]
  · unfold roundUp
    rw [Nat.mul_comm a q]
    apply Nat.mul_le_mul_right
    rw [Nat.div_le_iff_le_mul_add_pred ha]
    omega

/-- Monotone in the number and, along multiples, in what it is rounded to. -/
theorem roundUp_mono {x y a b : Nat} (hxy : x ≤ y) (hb : 0 < b) (hab : a ∣ b) :
    roundUp x a ≤ roundUp y b :=
  roundUp_le (hxy.trans (le_roundUp y hb)) (hab.trans (dvd_roundUp y b))

theorem roundUp_of_dvd {x a : Nat} (ha : 0 < a) (h : a ∣ x) : roundUp x a = x :=
  Nat.le_antisymm (roundUp_le (Nat.le_refl _) h) (le_roundUp x ha)

end Verif
