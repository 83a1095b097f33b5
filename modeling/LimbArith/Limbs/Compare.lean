import LimbArith.Limbs.Length

/-!
# LimbArith — comparison

Comparisons of arrays. Those of equal lengths and those with one limb visit every limb; only
lengths decide early.

* `eq`, `lt`, `le`, `gt`, `ge` and `Relation` — arrays of equal length, answered by a mask.
* `compareSame` — arrays of equal length, answered by a sign.
* `compareLimb` — an array of any length and a limb, answered by a sign.
* `compareNormalized` — arrays of any lengths without leading zero limbs.
-/

namespace LimbArith

/-- The comparisons of two arrays. -/
inductive Relation where
  | eq
  | lt
  | le
  | gt
  | ge
  deriving DecidableEq, Repr

namespace Limbs

variable {w : Width} (alu : Alu w)

/-! ## Masks -/

/-- What is known of two arrays after a scan. -/
structure Comparison (w : Width) where
  below : Mask w
  equal : Mask w

/-- Compares two arrays from the top down. Below the first difference nothing counts. -/
def scan : Limbs w → Limbs w → Checked (Comparison w)
  | x :: xs, y :: ys => do
    let above ← scan xs ys
    let lt ← alu.lt x y
    let eq ← alu.eq x y
    pure ⟨above.below.or (above.equal.and lt), above.equal.and eq⟩
  | _, _ => pure ⟨Mask.unset, Mask.set⟩

/-- Compares two arrays of equal length. -/
def scanSame (xs ys : Limbs w) : Checked (Comparison w) := do
  require (xs.length = ys.length) .lengthMismatch
  scan alu xs ys

/-- Whether two arrays of equal length are equal, from the bottom up; `equal` is what is known of
the limbs below. -/
def scanEq (equal : Mask w) : Limbs w → Limbs w → Checked (Mask w)
  | x :: xs, y :: ys => do
    let here ← alu.eq x y
    scanEq (equal.and here) xs ys
  | _, _ => pure equal

/-- Whether two arrays of equal length have equal values. -/
def eq (xs ys : Limbs w) : Checked (Mask w) := do
  require (xs.length = ys.length) .lengthMismatch
  scanEq alu Mask.set xs ys

/-- Whether the value of `xs` is below that of `ys`, of equal length. -/
def lt (xs ys : Limbs w) : Checked (Mask w) := do
  let c ← scanSame alu xs ys
  pure c.below

/-- Whether the value of `xs` is at most that of `ys`, of equal length. -/
def le (xs ys : Limbs w) : Checked (Mask w) := do
  let c ← scanSame alu xs ys
  pure (c.below.or c.equal)

/-- Whether the value of `xs` is above that of `ys`, of equal length. -/
def gt (xs ys : Limbs w) : Checked (Mask w) := lt alu ys xs

/-- Whether the value of `xs` is at least that of `ys`, of equal length. -/
def ge (xs ys : Limbs w) : Checked (Mask w) := le alu ys xs

/-- Whether the value is zero. -/
def isZero (xs : Limbs w) : Checked (Mask w) :=
  Mask.ofLimb (alu.isZero (xs.foldl (· ||| ·) 0))

/-! ## Signs and orderings -/

/-- The sign that two masks stand for, of which at most one is set: the difference of their bits. -/
def sign (above below : Mask w) : Int := (above.bit.toNat : Int) - below.bit.toNat

/-- Compares the values of two arrays of equal length. -/
def compareSame (xs ys : Limbs w) : Checked Int := do
  let c ← scanSame alu xs ys
  pure (sign (c.below.or c.equal).not c.below)

/-- Compares the value of an array with a limb: if a limb above the lowest is not zero, the array is
above. -/
def compareLimb (xs : Limbs w) (y : Limb w) : Checked Int := do
  let (low, high) := match xs with
    | [] => (0, [])
    | x :: xs => (x, xs)
  let highZero ← isZero alu high
  let lowLt ← alu.lt low y
  let lowGt ← alu.gt low y
  pure (sign (highZero.not.or lowGt) (highZero.and lowLt))

/-- Compares the values of two arrays without leading zero limbs: the longer one is above, and
between equal lengths the sign tells. -/
def compareNormalized (xs ys : Limbs w) : Checked Ordering := do
  require (Normalized xs) .leadingZero
  require (Normalized ys) .leadingZero
  match compare xs.length ys.length with
  | .eq => return compare (← compareSame alu xs ys) 0
  | ordering => pure ordering

end Limbs

/-- Decides a comparison of two arrays of equal length. -/
def Relation.decide {w : Width} (alu : Alu w) : Relation → Limbs w → Limbs w → Checked (Mask w)
  | eq => Limbs.eq alu
  | lt => Limbs.lt alu
  | le => Limbs.le alu
  | gt => Limbs.gt alu
  | ge => Limbs.ge alu

end LimbArith
