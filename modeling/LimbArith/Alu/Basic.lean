import LimbArith.Mask

/-!
# LimbArith — arithmetic logic units

An `Alu` is a set of single-limb primitives. The array operations are written against it, so that
one kernel runs on every implementation of the primitives. This module holds the interface and
what is the same for all implementations.

* `Alu` — the primitives.
* `Alu.eq`, `Alu.lt`, … and `LimbRelation` — comparisons of two limbs as masks.
* `Alu.addToWide` — a limb added to a product.
* `Alu.bitLength` — the position of the top bit, by halving.
-/

namespace LimbArith

variable {w : Width}

/-- The primitives that the array operations are built on. -/
structure Alu (w : Width) where
  /-- One if the limb is not zero, else zero. -/
  isNonzero : Limb w → Limb w
  /-- One if the limb is zero, else zero. -/
  isZero : Limb w → Limb w
  /-- The sum of two limbs. -/
  add : Limb w → Limb w → Carried w
  /-- The sum of two limbs and a carry of at most one. -/
  addCarry : (x y carry : Limb w) → Checked (Carried w)
  /-- The difference of two limbs. -/
  sub : Limb w → Limb w → Carried w
  /-- The difference of two limbs, less a borrow of at most one. -/
  subBorrow : (x y borrow : Limb w) → Checked (Carried w)
  /-- The product of two limbs. -/
  mul : Limb w → Limb w → Checked (WideLimb w)
  /-- The value `acc + x * y + carry`, for any limb as carry. -/
  mulAdd : (acc x y carry : Limb w) → Checked (Carried w)
  /-- The value `acc - x * y - borrow`, for any limb as borrow. -/
  mulSub : (acc x y borrow : Limb w) → Checked (Carried w)

namespace Alu

/-! ## Comparison -/

/-- Whether `x` equals `y`. -/
def eq (alu : Alu w) (x y : Limb w) : Checked (Mask w) :=
  Mask.ofLimb (alu.isZero (x ^^^ y))

/-- Whether `x` differs from `y`. -/
def ne (alu : Alu w) (x y : Limb w) : Checked (Mask w) := do
  let same ← alu.eq x y
  pure same.not

/-- Whether `x` is below `y`: the difference borrows. -/
def lt (alu : Alu w) (x y : Limb w) : Checked (Mask w) :=
  Mask.ofLimb (alu.sub x y).carry

/-- Whether `x` is at most `y`. -/
def le (alu : Alu w) (x y : Limb w) : Checked (Mask w) := do
  let above ← alu.lt y x
  pure above.not

/-- Whether `x` is above `y`. -/
def gt (alu : Alu w) (x y : Limb w) : Checked (Mask w) := alu.lt y x

/-- Whether `x` is at least `y`. -/
def ge (alu : Alu w) (x y : Limb w) : Checked (Mask w) := alu.le y x

end Alu

/-- The comparisons of two limbs. -/
inductive LimbRelation where
  | eq
  | ne
  | lt
  | le
  | gt
  | ge
  deriving DecidableEq, Repr

/-- Decides a comparison of two limbs. -/
def LimbRelation.decide (alu : Alu w) : LimbRelation → Limb w → Limb w → Checked (Mask w)
  | eq => alu.eq
  | ne => alu.ne
  | lt => alu.lt
  | le => alu.le
  | gt => alu.gt
  | ge => alu.ge

namespace Alu

/-! ## Products and carries -/

/-- Adds a limb to a double limb whose sum with it fits two limbs. The high limb of the sum is the
carry into the next position. -/
def addToWide (alu : Alu w) (d : WideLimb w) (x : Limb w) : Checked (Carried w) := do
  let low := alu.add d.low x
  require (d.high ≠ -1 ∨ low.carry = 0) .wideLimbOverflow
  pure ⟨d.high + low.carry, low.limb⟩

/-! ## The top bit -/

/-- The search behind `bitLength`. All bits of `x` at or above position `span` are zero; `mask` has
the bits below `span` set. Each round halves the span and keeps the upper half if it has a bit set,
adding its position to `count`. -/
def bitLengthFrom (alu : Alu w) (span : Nat) (mask x : Limb w) (count : Nat) : Checked Nat :=
  if span > 1 then do
    let half := span / 2
    let mask ← mask.shiftRightExact half
    let low := x &&& mask
    let high ← x.shiftRightExact half
    let upper ← alu.ne high 0
    let count ← Size.add count (upper.select 0 (BitVec.ofNat _ half)).toNat
    alu.bitLengthFrom half mask (upper.select low high) count
  else do
    require (x.toNat ≤ 1) .searchUnfinished
    Size.add count x.toNat
termination_by span

/-- The position of the most significant set bit plus one, zero for zero. -/
def bitLength (alu : Alu w) (x : Limb w) : Checked Nat :=
  alu.bitLengthFrom w.bits (-1) x 0

end Alu

end LimbArith
