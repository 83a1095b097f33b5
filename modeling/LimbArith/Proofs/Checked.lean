import LimbArith.Fault

/-!
# LimbArith — checks that pass

Main results:

* `ok_bind`, `error_bind` — a step after an answer, and after a fault.
* `Size.add_eq`, `Size.mul_eq` — counts that stay below their bound.
* `overwrite_low` — writing over the front of a list.
-/

namespace LimbArith

theorem ok_bind {α β : Type} (a : α) (f : α → Checked β) :
    (Except.ok a : Checked α) >>= f = f a := rfl

theorem error_bind {α β : Type} (e : Fault) (f : α → Checked β) :
    (Except.error e : Checked α) >>= f = .error e := rfl

namespace Size

theorem add_eq {m n : Nat} (h : m + n < bound) : add m n = .ok (m + n) := by
  rw [add, require_pos h]
  rfl

theorem mul_eq {m n : Nat} (h : m * n < bound) : mul m n = .ok (m * n) := by
  rw [mul, require_pos h]
  rfl

/-- A product and a sum overflow together exactly if the sum does. -/
theorem mul_bind_add (m n k : Nat) :
    (mul m n >>= fun p => add p k)
      = (do require (m * n + k < bound) .sizeOverflow; pure (m * n + k)) := by
  by_cases h : m * n < bound
  · rw [mul_eq h]
    rfl
  · have hMore : ¬ m * n + k < bound := fun hSum => h (Nat.lt_of_le_of_lt (Nat.le_add_right ..) hSum)
    rw [mul, require_neg h, require_neg hMore]
    rfl

end Size

theorem overwrite_low {α : Type} {xs piece : List α} (h : piece.length ≤ xs.length) :
    overwrite xs 0 piece = .ok (piece ++ xs.drop piece.length) := by
  rw [overwrite_of_le (by rwa [Nat.zero_add]), Nat.zero_add]
  rfl

end LimbArith
