import LimbArith.Alu.Basic
import LimbArith.Limbs.Basic

/-!
# LimbArith — sums and differences

Addition and subtraction of arrays. Every function answers with the carry or borrow out of the top
position; the limbs are the sum or difference modulo `B ^ n`, where `n` is the length of the first
operand.

* `addLimb`, `subLimb` — with one limb, which enters as the carry into the lowest position.
* `addSame`, `subSame` — with an array of the same length.
* `addSameIf`, `subSameIf` — the same, done only if a mask is set.
* `add`, `sub` — with an array that may be shorter.

The `Into` form writes to the low limbs of a separate result and leaves those above.
-/

namespace LimbArith.Limbs

variable {w : Width} (alu : Alu w)

/-! ## One limb -/

/-- Adds a limb to an array. -/
def addLimbInto (result xs : Limbs w) (y : Limb w) : Checked (Swept w) := do
  require (xs.length ≤ result.length) .resultTooShort
  sweepInto (fun _ x carry => pure (alu.add x carry)) result xs y

/-- Adds a limb to an array in place. -/
def addLimb (xs : Limbs w) (y : Limb w) : Checked (Swept w) :=
  sweep (fun x carry => pure (alu.add x carry)) xs y

/-- Subtracts a limb from an array. -/
def subLimbInto (result xs : Limbs w) (y : Limb w) : Checked (Swept w) := do
  require (xs.length ≤ result.length) .resultTooShort
  sweepInto (fun _ x borrow => pure (alu.sub x borrow)) result xs y

/-- Subtracts a limb from an array in place. -/
def subLimb (xs : Limbs w) (y : Limb w) : Checked (Swept w) :=
  sweep (fun x borrow => pure (alu.sub x borrow)) xs y

/-! ## Equal lengths -/

/-- Adds two arrays of equal length. -/
def addSameInto (result xs ys : Limbs w) : Checked (Swept w) := do
  require (xs.length = ys.length) .lengthMismatch
  require (xs.length ≤ result.length) .resultTooShort
  sweepInto (fun _ (x, y) carry => alu.addCarry x y carry) result (xs.zip ys) 0

/-- Subtracts two arrays of equal length. -/
def subSameInto (result xs ys : Limbs w) : Checked (Swept w) := do
  require (xs.length = ys.length) .lengthMismatch
  require (xs.length ≤ result.length) .resultTooShort
  sweepInto (fun _ (x, y) borrow => alu.subBorrow x y borrow) result (xs.zip ys) 0

/-- Adds an array of equal length in place if the mask is set; else the limbs stay and no carry
leaves. -/
def addSameIf (xs ys : Limbs w) (cond : Mask w) : Checked (Swept w) := do
  require (xs.length = ys.length) .lengthMismatch
  sweepInto (fun x y carry => alu.addCarry x (cond.select 0 y) carry) xs ys 0

/-- Subtracts an array of equal length in place if the mask is set; else the limbs stay and no
borrow leaves. -/
def subSameIf (xs ys : Limbs w) (cond : Mask w) : Checked (Swept w) := do
  require (xs.length = ys.length) .lengthMismatch
  sweepInto (fun x y borrow => alu.subBorrow x (cond.select 0 y) borrow) xs ys 0

/-- Adds an array of equal length in place. -/
def addSame (xs ys : Limbs w) : Checked (Swept w) := addSameIf alu xs ys Mask.set

/-- Subtracts an array of equal length in place. -/
def subSame (xs ys : Limbs w) : Checked (Swept w) := subSameIf alu xs ys Mask.set

/-! ## Mixed lengths -/

/-- Adds an array that is not longer: the common low part, then the carry from there to the rest. -/
def addInto (result xs ys : Limbs w) : Checked (Swept w) := do
  require (ys.length ≤ xs.length) .operandTooLong
  require (xs.length ≤ result.length) .resultTooShort
  let n := ys.length
  let low ← addSameInto alu (result.take n) (xs.take n) ys
  let high ← addLimbInto alu (result.drop n) (xs.drop n) low.carry
  pure ⟨high.carry, low.limbs ++ high.limbs⟩

/-- Adds an array that is not longer in place. -/
def add (xs ys : Limbs w) : Checked (Swept w) := do
  require (ys.length ≤ xs.length) .operandTooLong
  let n := ys.length
  let low ← addSame alu (xs.take n) ys
  let high ← addLimb alu (xs.drop n) low.carry
  pure ⟨high.carry, low.limbs ++ high.limbs⟩

/-- Subtracts an array that is not longer: the common low part, then the borrow from there from the
rest. -/
def subInto (result xs ys : Limbs w) : Checked (Swept w) := do
  require (ys.length ≤ xs.length) .operandTooLong
  require (xs.length ≤ result.length) .resultTooShort
  let n := ys.length
  let low ← subSameInto alu (result.take n) (xs.take n) ys
  let high ← subLimbInto alu (result.drop n) (xs.drop n) low.carry
  pure ⟨high.carry, low.limbs ++ high.limbs⟩

/-- Subtracts an array that is not longer in place. -/
def sub (xs ys : Limbs w) : Checked (Swept w) := do
  require (ys.length ≤ xs.length) .operandTooLong
  let n := ys.length
  let low ← subSame alu (xs.take n) ys
  let high ← subLimb alu (xs.drop n) low.carry
  pure ⟨high.carry, low.limbs ++ high.limbs⟩

end LimbArith.Limbs
