import Mathlib.Data.List.DropRight
import Mathlib.Data.List.FinRange
import Mathlib.Logic.Function.Basic

/-!
# A window on the end of a list

A window of fixed size shows the end of a list that grows, and moves on in place: from the first
position to the last, each takes the content of the next.

* `shift_spec`: the in-place copy, over any positions in ascending order.
* `tail_rtake_concat`: the window after one element was added to a list that fills it.
-/

namespace Verif

variable {α : Type} {n : Nat}

/-- Copies, for each of the positions in turn, the content of the next position into it. -/
def shift (positions : List (Fin n)) (b : Fin (n + 1) → α) : Fin (n + 1) → α :=
  positions.foldl (fun b i => Function.update b i.castSucc (b i.succ)) b

/-- In ascending order, no position is read after it was written. -/
theorem shift_spec {positions : List (Fin n)} (hp : positions.Pairwise (· < ·))
    (b : Fin (n + 1) → α) :
    (∀ i ∈ positions, shift positions b i.castSucc = b i.succ) ∧
      ∀ j, (∀ i ∈ positions, j ≠ i.castSucc) → shift positions b j = b j := by
  induction positions generalizing b with
  | nil => exact ⟨nofun, fun _ _ => rfl⟩
  | cons i positions ih =>
    obtain ⟨hlt, hp⟩ := List.pairwise_cons.mp hp
    obtain ⟨hcopy, hkeep⟩ := ih hp (Function.update b i.castSucc (b i.succ))
    have hcons : shift (i :: positions) b =
        shift positions (Function.update b i.castSucc (b i.succ)) := rfl
    rw [hcons]
    refine ⟨fun k hk => ?_, fun j hj => ?_⟩
    · obtain rfl | hk := List.mem_cons.mp hk
      · rw [hkeep _ fun m hm heq => (hlt m hm).ne (Fin.castSucc_injective _ heq),
          Function.update_self]
      · have hne : k.succ ≠ i.castSucc := by
          intro heq
          have hval := congrArg Fin.val heq
          have := hlt k hk
          simp only [Fin.val_succ, Fin.val_castSucc] at hval
          omega
        rw [hcopy k hk, Function.update_of_ne hne]
    · rw [hkeep j fun m hm => hj m (.tail _ hm), Function.update_of_ne (hj i (.head _))]

/-- Over all positions, the window moves by one; the last position keeps its content. -/
theorem shift_finRange (b : Fin (n + 1) → α) :
    (∀ i : Fin n, shift (List.finRange n) b i.castSucc = b i.succ) ∧
      shift (List.finRange n) b (Fin.last n) = b (Fin.last n) := by
  obtain ⟨hcopy, hkeep⟩ := shift_spec (List.pairwise_lt_finRange n) b
  exact ⟨fun i => hcopy i (List.mem_finRange i), hkeep _ fun i _ => (Fin.castSucc_lt_last i).ne'⟩

theorem tail_rtake_concat {l : List α} (x : α) (h : n ≤ l.length) :
    (l.rtake n ++ [x]).tail = (l ++ [x]).rtake n := by
  have hle : l.length - n ≤ l.length := Nat.sub_le _ _
  have hlen : (l ++ [x]).length - n = l.length - n + 1 := by
    rw [List.length_append, List.length_singleton]
    omega
  unfold List.rtake
  rw [hlen, ← List.drop_append_of_le_length hle, List.tail_drop]

end Verif
