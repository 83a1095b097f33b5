import LimbArith.Limbs.Add
import LimbArith.Limbs.Square
import LimbArith.Storage.Buffer

/-!
# LimbArith — arithmetic on buffers

A buffer is set to the product, square, sum or difference of others. It is given room first and
becomes secure if an operand is; then the array operation writes to its low slots, and leading zero
limbs are dropped from the result.
-/

namespace LimbArith.Buffer

variable {w : Width} (alu : Alu w)

/-- Writes a result over the low slots and makes it the number, without leading zeros. -/
def finish (b : Buffer w) (xs : Limbs w) : Checked (Buffer w) := do
  let slots ← overwrite b.slots 0 xs
  trim { b with slots, size := xs.length }

/-- The limbs of a factor. -/
def factorLimbs : Factor (Buffer w) → Checked (Factor (Limbs w))
  | .same => pure .same
  | .other y => do pure (.other (← y.limbs))

/-- Sets the number to a product. A buffer times itself is squared. -/
def setProduct (x : Buffer w) (factor : Factor (Buffer w)) : InPlace (Buffer w) Unit := do
  let y := match factor with
    | .same => x
    | .other y => y
  let n ← Size.add x.size y.size
  makeRoom n (x.isSecure || y.isSecure)
  let b ← get
  let window ← front n b.slots
  let xs ← x.limbs
  let product ←
    if x.size = y.size then do
      let factor ← factorLimbs factor
      Limbs.mulSameInto alu window xs factor
    else do
      let ys ← y.limbs
      Limbs.mulInto alu window xs ys
  set (← b.finish product)

/-- Sets the number to a square. -/
def setSquare (x : Buffer w) : InPlace (Buffer w) Unit := do
  let n ← Size.mul 2 x.size
  makeRoom n x.isSecure
  let b ← get
  let window ← front n b.slots
  let xs ← x.limbs
  let square ← Limbs.squareInto alu window xs
  set (← b.finish square)

/-- Sets the number to a sum. The carry becomes its top limb. -/
def setSum (x y : Buffer w) : InPlace (Buffer w) Unit := do
  let (long, short) := if y.size ≤ x.size then (x, y) else (y, x)
  let n ← Size.add long.size 1
  makeRoom n (long.isSecure || short.isSecure)
  let b ← get
  let window ← front long.size b.slots
  let xs ← long.limbs
  let ys ← short.limbs
  let sum ← Limbs.addInto alu window xs ys
  set (← b.finish (sum.limbs ++ [sum.carry]))

/-- Sets the number to the difference modulo `B ^ n`, where `n` is the larger size, and answers with
the borrow. -/
def setDifference (x y : Buffer w) : InPlace (Buffer w) (Limb w) := do
  let n := max x.size y.size
  makeRoom n (x.isSecure || y.isSecure)
  let b ← get
  let window ← front n b.slots
  let xs ← x.limbs
  let low ← overwrite window 0 xs
  let minuend ← overwrite low x.size (List.replicate (n - x.size) 0)
  let ys ← y.limbs
  let difference ← Limbs.sub alu minuend ys
  set (← b.finish difference.limbs)
  pure difference.carry

end LimbArith.Buffer
