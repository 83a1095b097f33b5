import Mathlib.Data.List.Induction
import LimbArith.Limbs.Length
import LimbArith.Proofs.Limbs.Value

/-!
# LimbArith — dropping leading zeros

Main results:

* `significantLen_concat` — the scan from the top, one limb at a time.
* `value_take_significantLen` — the limbs that are dropped do not count.
* `take_significantLen_cases` — the limbs that are kept.
* `eq_zero_of_mem_drop` — the limbs that are dropped.
* `normalized_iff` — arrays of which none is dropped.
-/

namespace LimbArith.Limbs

variable {w : Width}

/-- The scan goes on below a top limb only if that is zero. -/
theorem significantLen_concat (xs : Limbs w) (x : Limb w) :
    significantLen (xs ++ [x]) = if x = 0 then significantLen xs else xs.length + 1 := by
  unfold significantLen
  rw [List.reverse_append, List.reverse_singleton, List.singleton_append, List.dropWhile_cons]
  by_cases hx : x = 0
  · rw [if_pos hx, if_pos (beq_iff_eq.mpr hx)]
  · rw [if_neg hx, if_neg (fun h => hx (beq_iff_eq.mp h)), List.length_cons, List.length_reverse]

theorem significantLen_le (xs : Limbs w) : significantLen xs ≤ xs.length := by
  rw [← List.length_reverse]
  exact (List.dropWhile_sublist _).length_le

theorem value_take_significantLen (xs : Limbs w) :
    value (xs.take (significantLen xs)) = value xs := by
  induction xs using List.reverseRecOn with
  | nil => rfl
  | append_singleton xs x ih =>
    rw [significantLen_concat]
    by_cases hx : x = 0
    · rw [if_pos hx, List.take_append_of_le_length (significantLen_le xs), ih, hx]
      exact (Digits.value_append_zeros xs 1).symm
    · rw [if_neg hx, List.take_of_length_le (by rw [List.length_append]; rfl)]

/-- The limbs that are kept end with one that is not zero, if there are any. -/
theorem take_significantLen_cases (xs : Limbs w) :
    xs.take (significantLen xs) = [] ∨
      ∃ ys y, y ≠ 0 ∧ xs.take (significantLen xs) = ys ++ [y] := by
  induction xs using List.reverseRecOn with
  | nil => exact .inl rfl
  | append_singleton xs x ih =>
    rw [significantLen_concat]
    by_cases hx : x = 0
    · rw [if_pos hx, List.take_append_of_le_length (significantLen_le xs)]
      exact ih
    · rw [if_neg hx, List.take_of_length_le (by rw [List.length_append]; rfl)]
      exact .inr ⟨xs, x, hx, rfl⟩

theorem eq_zero_of_mem_drop {xs : Limbs w} {y : Limb w}
    (hy : y ∈ xs.drop (significantLen xs)) : y = 0 := by
  induction xs using List.reverseRecOn with
  | nil => simp at hy
  | append_singleton xs x ih =>
    rw [significantLen_concat] at hy
    by_cases hx : x = 0
    · rw [if_pos hx, List.drop_append_of_le_length (significantLen_le xs), List.mem_append,
        List.mem_singleton] at hy
      rcases hy with hBelow | hTop
      · exact ih hBelow
      · rw [hTop, hx]
    · rw [if_neg hx, List.drop_of_length_le (by simp)] at hy
      simp at hy

/-- No leading zero limb: the most significant limb, if there is one, is not zero. -/
theorem normalized_iff (xs : Limbs w) : Normalized xs ↔ xs.getLast? ≠ some 0 := by
  unfold Normalized
  induction xs using List.reverseRecOn with
  | nil => exact ⟨fun _ => nofun, fun _ => rfl⟩
  | append_singleton xs x _ =>
    rw [significantLen_concat, List.getLast?_concat, List.length_append, List.length_singleton]
    by_cases hx : x = 0
    · have hLess := significantLen_le xs
      rw [if_pos hx, hx]
      exact ⟨fun h => by omega, fun h => absurd rfl h⟩
    · rw [if_neg hx]
      exact ⟨fun _ h => hx (Option.some.inj h), fun _ => rfl⟩

end LimbArith.Limbs
