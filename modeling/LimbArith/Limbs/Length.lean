import LimbArith.Alu.Basic
import LimbArith.Limbs.Basic

/-!
# LimbArith — significant lengths

The number of limbs of an array without the leading zero ones, found in two ways.

* `significantLen` — from the top down to the first limb that is not zero.
* `significantLenScan` — over every limb, with a selection at each.
-/

namespace LimbArith.Limbs

variable {w : Width}

/-- The number of limbs up to the topmost one that is not zero. -/
def significantLen (xs : Limbs w) : Nat := (xs.reverse.dropWhile (· == 0)).length

/-- The array has no leading zero limb. -/
def Normalized (xs : Limbs w) : Prop := significantLen xs = xs.length

instance (xs : Limbs w) : Decidable (Normalized xs) := inferInstanceAs (Decidable (_ = _))

variable (alu : Alu w)

/-- The scan behind `significantLenScan`: `xs` starts at position `i`, and `best` is the length of
the limbs below. -/
def scanLen (i best : Nat) : Limbs w → Checked Nat
  | [] => pure best
  | x :: xs => do
    let nonzero ← alu.ne x 0
    scanLen (i + 1) (nonzero.selectSize best (i + 1)) xs

/-- The number of limbs up to the topmost one that is not zero, visiting all of them. -/
def significantLenScan (xs : Limbs w) : Checked Nat := scanLen alu 0 0 xs

end LimbArith.Limbs
