import LimbArith.Alu.Basic
import LimbArith.Limbs.Basic

/-!
# LimbArith — products

Products of arrays by rows: one factor times one limb of the other, added at that limb's position. A
row sees only its window, which is as long as the factor, and puts its carry right above it.

* `mulLimb`, `mulLimbInto` — an array times a limb; the top limb of the product is the carry.
* `mulAddLimb`, `mulSubLimb` — such a product added to or subtracted from an array.
* `writeRow` — a row and its carry.
* `mulInto` — the product of two arrays of any lengths, in the sum of their lengths.
-/

namespace LimbArith.Limbs

variable {w : Width} (alu : Alu w)

/-! ## One limb -/

/-- One position of a product with `y`. -/
def mulStep (y x carry : Limb w) : Checked (Carried w) := do
  let product ← alu.mul x y
  alu.addToWide product carry

/-- Multiplies an array by a limb. -/
def mulLimbInto (result xs : Limbs w) (y : Limb w) : Checked (Swept w) := do
  require (xs.length ≤ result.length) .resultTooShort
  sweepInto (fun _ x carry => mulStep alu y x carry) result xs 0

/-- Multiplies an array by a limb in place. -/
def mulLimb (xs : Limbs w) (y : Limb w) : Checked (Swept w) :=
  sweep (fun x carry => mulStep alu y x carry) xs 0

/-- Adds the product of an array and a limb to the low limbs of `acc`. -/
def mulAddLimb (acc xs : Limbs w) (y : Limb w) : Checked (Swept w) := do
  require (xs.length ≤ acc.length) .resultTooShort
  sweepInto (fun r x carry => alu.mulAdd r x y carry) acc xs 0

/-- Subtracts the product of an array and a limb from the low limbs of `acc`. -/
def mulSubLimb (acc xs : Limbs w) (y : Limb w) : Checked (Swept w) := do
  require (xs.length ≤ acc.length) .resultTooShort
  sweepInto (fun r x borrow => alu.mulSub r x y borrow) acc xs 0

/-! ## Rows -/

/-- Writes a row over its window, which is the `n` low limbs of `result`. Its carry becomes the limb
right above them, whatever was there. -/
def writeRow (n : Nat) (row : Limbs w → Checked (Swept w)) (result : Limbs w) :
    Checked (Limbs w) := do
  let window ← front n result
  let s ← row window
  put (s.limbs ++ result.drop n) n s.carry

/-- Writes the product of `xs` and `y` over what is there. -/
def mulRow (result xs : Limbs w) (y : Limb w) : Checked (Limbs w) :=
  writeRow xs.length (fun window => mulLimbInto alu window xs y) result

/-- Adds the product of `xs` and `y` to what is there. -/
def addRow (result xs : Limbs w) (y : Limb w) : Checked (Limbs w) :=
  writeRow xs.length (fun window => mulAddLimb alu window xs y) result

/-- Adds the product of `xs` and each limb in turn, each row one position above the last. -/
def addRows (xs : Limbs w) : (result ys : Limbs w) → Checked (Limbs w)
  | result, [] => pure result
  | result, y :: ys => do
    match ← addRow alu result xs y with
    | [] => throw .outOfRange
    | low :: rest =>
      let high ← addRows xs rest ys
      pure (low :: high)

/-- The product of `xs` and a non-empty array in a result of the sum of their lengths. The first row
overwrites what is there, the others add to it. -/
def mulRows (result xs : Limbs w) (y : Limb w) (ys : Limbs w) : Checked (Limbs w) := do
  match ← mulRow alu result xs y with
  | [] => throw .outOfRange
  | low :: rest =>
    let high ← addRows alu xs rest ys
    pure (low :: high)

/-- Multiplies two arrays. The product takes as many limbs as both factors together; the limbs of
the result above stay. The rows are products with the longer factor. -/
def mulInto (result xs ys : Limbs w) : Checked (Limbs w) := do
  let (long, short) := if ys.length ≤ xs.length then (xs, ys) else (ys, xs)
  let n := long.length + short.length
  require (n ≤ result.length) .resultTooShort
  let product ← match short with
    | [] => pure (List.replicate n 0)
    | y :: rest => mulRows alu (result.take n) long y rest
  pure (product ++ result.drop n)

end LimbArith.Limbs
