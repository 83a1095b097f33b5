import LimbArith.Alu.Basic
import LimbArith.Limbs.Basic

/-!
# LimbArith — conditional operations

Operations that happen if a mask is set and leave the arrays as they are if it is not. They visit
every limb either way and choose by masks.

* `copyIf`, `swapIf` — on two arrays of equal length.
* `negateIf` — two's complement negation.
-/

namespace LimbArith.Limbs

variable {w : Width}

/-- Replaces the limbs of `xs` by those of `ys` if the mask is set. -/
def copyIf (xs ys : Limbs w) (cond : Mask w) : Checked (Limbs w) := do
  require (xs.length = ys.length) .lengthMismatch
  pure (List.zipWith cond.select xs ys)

/-- The bits to flip in two limbs to exchange them where `bits` is set. -/
def maskedDifference (bits x y : Limb w) : Limb w := (x ^^^ y) &&& bits

/-- Exchanges two arrays if the mask is set. -/
def swapIf (xs ys : Limbs w) (cond : Mask w) : Checked (Limbs w × Limbs w) := do
  require (xs.length = ys.length) .lengthMismatch
  let bits := cond.select 0 (-1)
  pure (List.zipWith (fun x y => x ^^^ maskedDifference bits x y) xs ys,
    List.zipWith (fun x y => y ^^^ maskedDifference bits x y) xs ys)

/-- Replaces the value `v` of an array of `n` limbs by `B ^ n - v`, or zero for zero, if the mask
is set: all bits are flipped and one is added. -/
def negateIf (alu : Alu w) (xs : Limbs w) (cond : Mask w) : Checked (Limbs w) := do
  let bits := cond.select 0 (-1)
  let s ← sweep (fun x carry => pure (alu.add (x ^^^ bits) carry)) xs (bits &&& 1)
  pure s.limbs

end LimbArith.Limbs
