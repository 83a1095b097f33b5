import LimbArith.Proofs.Kernel.Contract
import LimbArith.Proofs.Limbs.InPlace

/-!
# LimbArith — calls and their counterparts in place

An operation with a result and its counterpart in place are two calls that a
caller may exchange: within the contract both answer, with the same carry or the
same limb shifted out, and the limbs that one leaves in its operand are the limbs
that the other leaves at the bottom of its result. The rest of the result is not
touched.

Main results:

* `Call.inPlace?` — the counterpart of a call.
* `LimbOp.into_eq_onto`, `Additive.into_eq_onto`, `Direction.into_eq_onto` — the
  families, faults included.
* `Call.run_inPlace` — all counterparts at once.
-/

namespace LimbArith

variable {w : Width} {result xs : Limbs w}

-- ---------------------------------------------------------------------------
-- Families of operations
-- ---------------------------------------------------------------------------

theorem LimbOp.into_eq_onto (alu : Alu w) (op : LimbOp) (y : Limb w)
    (hLength : xs.length ≤ result.length) :
    op.into alu result xs y = Swept.onto result <$> op.inPlace alu xs y := by
  cases op with
  | add => exact Limbs.addLimbInto_eq_onto alu y hLength
  | sub => exact Limbs.subLimbInto_eq_onto alu y hLength
  | mul => exact Limbs.mulLimbInto_eq_onto alu y hLength

theorem LimbOp.length_inPlace {alu : Alu w} {op : LimbOp} {y : Limb w} {s : Swept w}
    (h : op.inPlace alu xs y = .ok s) : s.limbs.length = xs.length := by
  cases op <;> exact Limbs.length_sweep h

theorem Additive.into_eq_onto (alu : Alu w) (op : Additive) (lengths : Lengths) (ys : Limbs w)
    (hLength : xs.length ≤ result.length) :
    op.into alu lengths result xs ys = Swept.onto result <$> op.inPlace alu lengths xs ys := by
  cases op with
  | add =>
    cases lengths with
    | same => exact Limbs.addSameInto_eq_onto alu ys hLength
    | mixed => exact Limbs.addInto_eq_onto alu ys hLength
  | sub =>
    cases lengths with
    | same => exact Limbs.subSameInto_eq_onto alu ys hLength
    | mixed => exact Limbs.subInto_eq_onto alu ys hLength

theorem Additive.length_inPlace {alu : Alu w} {op : Additive} {lengths : Lengths} {ys : Limbs w}
    {s : Swept w} (h : op.inPlace alu lengths xs ys = .ok s) : s.limbs.length = xs.length := by
  cases op with
  | add =>
    cases lengths with
    | same => exact Limbs.length_addSame h
    | mixed => exact Limbs.length_add h
  | sub =>
    cases lengths with
    | same => exact Limbs.length_subSame h
    | mixed => exact Limbs.length_sub h

theorem Direction.into_eq_onto (direction : Direction) (count : ℕ)
    (hLength : xs.length ≤ result.length) :
    direction.into result xs count = Swept.onto result <$> direction.inPlace xs count := by
  cases direction with
  | left => exact Limbs.shiftLeftInto_eq_onto count hLength
  | right => exact Limbs.shiftRightInto_eq_onto count hLength

theorem Direction.length_inPlace {direction : Direction} {count : ℕ} {s : Swept w}
    (h : direction.inPlace xs count = .ok s) : s.limbs.length = xs.length := by
  cases direction with
  | left => exact Limbs.length_shiftLeft h
  | right => exact Limbs.length_shiftRight h

-- ---------------------------------------------------------------------------
-- Calls
-- ---------------------------------------------------------------------------

namespace Call

/-- The call of the same operation, with the same operands, that works in place. Products of arrays
and the operations that accumulate have none. -/
def inPlace? {α σ : Type} : Call α σ → Option (Call α σ)
  | limbInto op _ x y => some (limbInPlace op x y)
  | pairInto op lengths _ x y => some (pairInPlace op lengths x y)
  | shiftInto direction _ x count => some (shiftInPlace direction x count)
  | _ => none

/-- What the call in place answers, and what the call with a result makes of it. -/
theorem answers_onto {into inPlace : Checked (Swept w)} (hOnto : into = Swept.onto result <$> inPlace)
    (hLength : ∀ s, inPlace = .ok s → s.limbs.length = xs.length)
    (hAnswers : ∃ answer, (Answer.ofOperand <$> inPlace : Checked (Answer w)) = .ok answer) :
    ∃ carry low, low.length = xs.length ∧
      (Answer.ofOperand <$> inPlace : Checked (Answer w)) = .ok (.ofOperand ⟨carry, low⟩) ∧
      (Answer.ofResult <$> into : Checked (Answer w))
        = .ok (.ofResult ⟨carry, low ++ result.drop xs.length⟩) := by
  obtain ⟨answer, hAnswer⟩ := hAnswers
  rcases inPlace with fault | ⟨carry, low⟩
  · cases hAnswer
  · have hLow : low.length = xs.length := hLength ⟨carry, low⟩ rfl
    refine ⟨carry, low, hLow, rfl, ?_⟩
    rw [hOnto, Swept.onto_ok hLow]
    rfl

/-- **In place and with a result is the same operation.** For every implementation of the primitives
and every call within its contract that has a counterpart in place: both answer, with the same
carry, borrow or limb shifted out. The counterpart leaves in its operand the limbs that the call
writes to the bottom of its result, and the call leaves the limbs above them as they were. -/
theorem run_inPlace (impl : Implementation w) {call counterpart : Call (Limbs w) (Limb w)}
    (hInPlace : call.inPlace? = some counterpart) (hResult : call.result? = some result)
    (hContract : call.Contract) :
    ∃ carry low, low.length = call.first.length ∧
      counterpart.run impl.alu = .ok (.ofOperand ⟨carry, low⟩) ∧
      call.run impl.alu = .ok (.ofResult ⟨carry, low ++ result.drop call.first.length⟩) := by
  have hAnswers : counterpart.Contract → ∃ answer, counterpart.run impl.alu = .ok answer :=
    (decided impl.lawful counterpart).answers
  cases call with
  | limbInto op _ x y =>
    cases hInPlace
    cases hResult
    exact answers_onto (op.into_eq_onto impl.alu y hContract) (fun _ => LimbOp.length_inPlace)
      (hAnswers trivial)
  | pairInto op lengths _ x y =>
    cases hInPlace
    cases hResult
    cases lengths <;>
      exact answers_onto (op.into_eq_onto impl.alu _ y hContract.2)
        (fun _ => Additive.length_inPlace) (hAnswers hContract.1)
  | shiftInto direction _ x count =>
    cases hInPlace
    cases hResult
    exact answers_onto (direction.into_eq_onto count hContract.2)
      (fun _ => Direction.length_inPlace) (hAnswers hContract.1)
  | _ => cases hInPlace

/-- A difference of arrays of two lengths that borrows from its top limb, in a result with a limb to
spare. -/
theorem run_inPlace_borrowing :
    (pairInto .sub .mixed [1, 2, 3, 4] [0, 0, 5] [1] : Call (Limbs .w32) (Limb .w32)).inPlace?
        = some (pairInPlace .sub .mixed [0, 0, 5] [1]) ∧
      (pairInto .sub .mixed [1, 2, 3, 4] [0, 0, 5] [1] : Call (Limbs .w32) (Limb .w32)).result?
        = some [1, 2, 3, 4] ∧
      (pairInto .sub .mixed [1, 2, 3, 4] [0, 0, 5] [1] : Call (Limbs .w32) (Limb .w32)).Contract ∧
      ∃ carry low, low.length = 3 ∧
        (pairInPlace .sub .mixed [0, 0, 5] [1]).run (Implementation.portable .w32).alu
          = .ok (.ofOperand ⟨carry, low⟩) ∧
        (pairInto .sub .mixed [1, 2, 3, 4] [0, 0, 5] [1]).run (Implementation.portable .w32).alu
          = .ok (.ofResult ⟨carry, low ++ [4]⟩) := by
  have hContract :
      (pairInto .sub .mixed [1, 2, 3, 4] [0, 0, 5] [1] : Call (Limbs .w32) (Limb .w32)).Contract :=
    ⟨by decide, by decide⟩
  obtain ⟨carry, low, hLow, hOperand, hResult⟩ := run_inPlace (.portable .w32) rfl rfl hContract
  exact ⟨rfl, rfl, hContract, carry, low, hLow, hOperand, hResult⟩

end Call

end LimbArith
