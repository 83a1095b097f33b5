import LimbArith.Limbs.Multiply
import LimbArith.Limbs.Shift

/-!
# LimbArith — squares

The square of `Σ u i * B ^ i` is `Σ u i ^ 2 * B ^ (2 * i)` plus twice the sum of the `u i * u j *
B ^ (i + j)` with `i < j`. The cross products are added up row by row, doubled by a shift, and the
squares of the limbs are added in one carry chain. This takes half the limb products of `mulInto`
and leaves the same limbs.

* `squareInto` — the square of an array.
* `mulSameInto` — the product of two arrays of equal length, a square if both are the same array.
-/

namespace LimbArith.Limbs

variable {w : Width} (alu : Alu w)

/-- Adds the cross products of an array. The result starts at the position of the first limb's
square, and the row of its products with the other limbs starts one above. -/
def addCrossRows : (result xs : Limbs w) → Checked (Limbs w)
  | result, [] => pure result
  | [], _ :: _ => throw .outOfRange
  | low :: above, x :: xs => do
    match ← addRow alu above xs x with
    | [] => throw .outOfRange
    | next :: rest =>
      let high ← addCrossRows rest xs
      pure (low :: next :: high)

/-- Adds the square of each limb at twice its position. -/
def addSquares : (result xs : Limbs w) → (carry : Limb w) → Checked (Swept w)
  | low :: high :: rest, x :: xs, carry => do
    let square ← alu.mul x x
    let first ← alu.addCarry low square.low carry
    let second ← alu.addCarry high square.high first.carry
    let above ← addSquares rest xs second.carry
    pure ⟨above.carry, first.limb :: second.limb :: above.limbs⟩
  | result, _, carry => pure ⟨carry, result⟩

/-- Squares an array. The square takes twice as many limbs; the limbs of the result above stay. -/
def squareInto (result xs : Limbs w) : Checked (Limbs w) := do
  let n := 2 * xs.length
  require (n ≤ result.length) .resultTooShort
  let cross ← addCrossRows alu (List.replicate n 0) xs
  let doubled ← shiftLeft cross 1
  require (doubled.carry = 0) .squareTooLarge
  let square ← addSquares alu doubled.limbs xs 0
  require (square.carry = 0) .squareTooLarge
  pure (square.limbs ++ result.drop n)

end Limbs

/-- The second factor of a product. -/
inductive Factor (α : Type) where
  /-- The very array that is the first factor. -/
  | same
  /-- An array of its own. -/
  | other (x : α)
  deriving DecidableEq, Repr

namespace Limbs

variable {w : Width} (alu : Alu w)

/-- Multiplies two arrays of equal length. -/
def mulSameInto (result xs : Limbs w) : Factor (Limbs w) → Checked (Limbs w)
  | .same => squareInto alu result xs
  | .other ys => do
    require (xs.length = ys.length) .lengthMismatch
    mulInto alu result xs ys

end LimbArith.Limbs
