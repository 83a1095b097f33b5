import Mathlib.Tactic.Common
import LimbArith.Proofs.Checked

/-!
# LimbArith — operations that their contracts decide

An operation checks its contract first and relies on bounds of its own
afterwards. Its contract decides it if the own checks never fail: it answers if
the contract holds, and names what is broken if not.

Main results:

* `Fault.OfContract` — the faults that a caller is to blame for.
* `Decided` — what a contract decides, for checks and sequences.
-/

namespace LimbArith

/-- The faults that name what a caller got wrong: lengths, a shift distance, an operand with a
leading zero limb, or a condition that is no bit. -/
def Fault.OfContract : Fault → Prop
  | .resultTooShort | .lengthMismatch | .operandTooLong | .shiftTooWide | .leadingZero
  | .notABit => True
  | _ => False

variable {α β : Type}

/-- The operation answers if `p` holds, and refuses with a fault of its caller if not. -/
structure Decided (p : Prop) (x : Checked α) : Prop where
  answers : p → ∃ a, x = .ok a
  refuses : ¬ p → ∃ fault, x = .error fault ∧ fault.OfContract

namespace Decided

variable {p q : Prop} {x : Checked α} {fault : Fault}

theorem answers_iff (h : Decided p x) : (∃ a, x = .ok a) ↔ p := by
  refine ⟨fun ⟨a, ha⟩ => ?_, h.answers⟩
  by_contra hNot
  obtain ⟨fault, hFault, -⟩ := h.refuses hNot
  rw [ha] at hFault
  cases hFault

theorem ofContract (h : Decided p x) (hFault : x = .error fault) : fault.OfContract := by
  by_cases hp : p
  · obtain ⟨a, ha⟩ := h.answers hp
    rw [ha] at hFault
    cases hFault
  · obtain ⟨other, hOther, hContract⟩ := h.refuses hp
    rw [hOther] at hFault
    cases hFault
    exact hContract

theorem congr (h : Decided p x) (hIff : q ↔ p) : Decided q x :=
  ⟨fun hq => h.answers (hIff.mp hq), fun hq => h.refuses fun hp => hq (hIff.mpr hp)⟩

/-- An operation without a contract. -/
theorem always (h : ∃ a, x = .ok a) : Decided True x := ⟨fun _ => h, fun hNot => absurd trivial hNot⟩

/-- One check more. -/
theorem require_and [Decidable p] {f : Unit → Checked α} (hFault : fault.OfContract)
    (h : p → Decided q (f ())) : Decided (p ∧ q) (require p fault >>= f) := by
  by_cases hp : p
  · rw [require_pos hp, ok_bind]
    exact (h hp).congr ⟨And.right, fun hq => ⟨hp, hq⟩⟩
  · rw [require_neg hp, error_bind]
    exact ⟨fun hpq => absurd hpq.1 hp, fun _ => ⟨fault, rfl, hFault⟩⟩

/-- The last check. -/
theorem require [Decidable p] {f : Unit → Checked α} (hFault : fault.OfContract)
    (h : p → ∃ a, f () = .ok a) : Decided p (require p fault >>= f) :=
  (require_and hFault fun hp => always (h hp)).congr (and_iff_left trivial).symm

/-- What comes after an operation that is decided and always answers. -/
theorem bind {f : α → Checked β} (h : Decided p x) (hf : ∀ a, x = .ok a → ∃ b, f a = .ok b) :
    Decided p (x >>= f) where
  answers hp := by
    obtain ⟨a, ha⟩ := h.answers hp
    rw [ha]
    exact hf a ha
  refuses hp := by
    obtain ⟨fault, hFault, hContract⟩ := h.refuses hp
    rw [hFault]
    exact ⟨fault, rfl, hContract⟩

end Decided

end LimbArith
