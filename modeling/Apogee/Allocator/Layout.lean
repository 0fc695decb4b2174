import Apogee.Lib.Word

/-!
# Layouts and alignment (`src/allocator/mod.rs`)

`Layout` is `core::alloc::Layout` with the two facts its constructor checks. `alignUp` is the
kernel's `align_up`, word arithmetic included; on the addresses and alignments that reach it from a
heap below `2 ^ 63` it does not overflow and rounds up (`alignUp_eq`), and where the sum of the two
does not fit in a word, a `dev` build panics (`alignUp_overflow`).
-/

namespace Apogee

open Verif

/-- `core::alloc::Layout`: the alignment is a power of two, and the size rounded up to it is at
most `isize::MAX`. -/
structure Layout where
  size : Nat
  align : Nat
  align_pow : ∃ k, align = 2 ^ k
  fits : size + align ≤ 2 ^ 63
  deriving DecidableEq

/-- A nonempty layout is aligned to at most `2 ^ 62`. -/
theorem Layout.align_le (l : Layout) (h : 0 < l.size) : l.align ≤ 2 ^ 62 := by
  obtain ⟨k, hk⟩ := l.align_pow
  have hf := l.fits
  have hk' : k < 63 := by
    apply (Nat.pow_lt_pow_iff_right (a := 2) (by decide)).mp
    omega
  rw [hk]
  exact Nat.pow_le_pow_right (by decide) (by omega)

theorem Layout.align_pos (l : Layout) : 0 < l.align := by
  obtain ⟨k, hk⟩ := l.align_pow
  rw [hk]
  exact Nat.two_pow_pos k

/-- Of two alignments, the smaller divides the larger. -/
theorem Layout.align_dvd {l l' : Layout} (h : l.align ≤ l'.align) : l.align ∣ l'.align := by
  obtain ⟨k, hk⟩ := l.align_pow
  obtain ⟨k', hk'⟩ := l'.align_pow
  rw [hk, hk'] at h ⊢
  exact Nat.pow_dvd_pow 2 ((Nat.pow_le_pow_iff_right (by decide)).mp h)

/-- `align_up`. -/
def alignUp (p : Profile) (addr align : Nat) : Panics Nat := do
  let a ← Word.add p addr align
  let b ← Word.sub p a 1
  let m ← Word.sub p align 1
  pure (Word.andNot b m)

theorem alignUp_eq {p : Profile} {addr align k : Nat} (hk : align = 2 ^ k)
    (h : addr + align < 2 ^ 64) : alignUp p addr align = .ok (roundUp addr align) := by
  have hpos : 0 < align := hk ▸ Nat.two_pow_pos k
  have hk' : k < 64 := by
    apply (Nat.pow_lt_pow_iff_right (a := 2) (by decide)).mp
    omega
  unfold alignUp
  rw [Word.add_of_lt h]
  simp only [bind, Except.bind, pure, Except.pure]
  rw [Word.sub_of_le (by omega), Word.sub_of_le (by omega)]
  simp only
  rw [hk, Word.andNot_two_pow (by omega) hk']
  rfl

theorem alignUp_overflow {addr align : Nat} (h : 2 ^ 64 ≤ addr + align) :
    alignUp .dev addr align = .error "attempt to add with overflow" := by
  unfold alignUp Word.add
  rw [if_neg (Nat.not_lt.mpr h)]
  rfl

/-- At the very end of the address space both the addition and the subtraction wrap, and the result
is right again. -/
theorem alignUp_top {addr align k : Nat} (hk : align = 2 ^ k) (hlt : align < 2 ^ 64)
    (h : addr + align = 2 ^ 64) : alignUp .release addr align = .ok (roundUp addr align) := by
  have hpos : 0 < align := hk ▸ Nat.two_pow_pos k
  have hk' : k < 64 := by
    apply (Nat.pow_lt_pow_iff_right (a := 2) (by decide)).mp
    omega
  have hadd : Word.add .release addr align = .ok 0 := by
    unfold Word.add
    rw [h]
    rfl
  have hsub : Word.sub .release 0 1 = .ok (2 ^ 64 - 1) := rfl
  unfold alignUp roundUp
  rw [hadd, Panics.bind_ok, hsub, Panics.bind_ok, Word.sub_of_le (by omega), Panics.bind_ok, h, hk,
    Word.andNot_two_pow (by decide) hk']
  rfl

end Apogee
