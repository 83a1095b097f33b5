import LimbArith.Alu.Basic

/-!
# LimbArith — portable primitives

The primitives of either width from bitwise operations, wrapping sums and products of half limbs.
No step depends on the value of a limb: a carry is computed from the top bits of operands and sum,
and the product of two limbs is put together from four products of their halves.
-/

namespace LimbArith.Portable

variable {w : Width}

/-- One if the limb is not zero: then it or its negation has the top bit set. -/
def isNonzero (x : Limb w) : Limb w := (x ||| -x) >>> (w.bits - 1)

/-- One if the limb is zero. -/
def isZero (x : Limb w) : Limb w := 1 ^^^ isNonzero x

/-- The wrapping sum. A carry leaves it if both operands have the top bit set, or one has it and the
sum has not. -/
def add (x y : Limb w) : Carried w :=
  let sum := x + y
  ⟨(((x ||| y) &&& ~~~sum) ||| (x &&& y)) >>> (w.bits - 1), sum⟩

/-- The wrapping difference. It borrows if `y` and the difference have the top bit set, or one of
them has it and `x` has not. -/
def sub (x y : Limb w) : Carried w :=
  let difference := x - y
  ⟨(((difference ||| y) &&& ~~~x) ||| (y &&& difference)) >>> (w.bits - 1), difference⟩

/-- The sum of two limbs and a carry. -/
def addCarry (x y carry : Limb w) : Checked (Carried w) := do
  require (carry.toNat ≤ 1) .carryTooLarge
  let first := add x carry
  let second := add first.limb y
  let carry ← first.carry.addExact second.carry
  require (carry.toNat ≤ 1) .carryTooLarge
  pure ⟨carry, second.limb⟩

/-- The difference of two limbs, less a borrow. -/
def subBorrow (x y borrow : Limb w) : Checked (Carried w) := do
  require (borrow.toNat ≤ 1) .carryTooLarge
  let first := sub x borrow
  let second := sub first.limb y
  let borrow ← first.carry.addExact second.carry
  require (borrow.toNat ≤ 1) .carryTooLarge
  pure ⟨borrow, second.limb⟩

/-! ## Products -/

/-- The upper half of a limb. -/
def upper (x : Limb w) : Limb w := x >>> w.half

/-- The lower half of a limb. -/
def lower (x : Limb w) : Limb w := x &&& Limb.lowMask w w.half

/-- The product of two limbs. The products of a lower and an upper half straddle the two result
limbs: their lower halves go to the low limb, with a carry, and their upper halves to the high
one. -/
def mul (x y : Limb w) : Checked (WideLimb w) := do
  let lowLow ← (lower x).mulExact (lower y)
  let lowHigh ← (lower x).mulExact (upper y)
  let highLow ← (upper x).mulExact (lower y)
  let highHigh ← (upper x).mulExact (upper y)
  let low := add lowLow (lower lowHigh <<< w.half)
  let high ← highHigh.addExact low.carry
  let high ← high.addExact (upper lowHigh)
  let low := add low.limb (lower highLow <<< w.half)
  let high ← high.addExact low.carry
  let high ← high.addExact (upper highLow)
  pure ⟨high, low.limb⟩

/-- The largest product of two limbs has the high limb `B - 2` and the low limb one. -/
def InProductRange (d : WideLimb w) : Prop :=
  d.high < -2 ∨ d.high = -2 ∧ d.low = 1

instance (d : WideLimb w) : Decidable (InProductRange d) :=
  inferInstanceAs (Decidable (_ ∨ _))

/-- Joins the high limb of a product with the two carries out of its low position. If the high limb
is the largest possible, at most one of the carries is set. -/
def joinCarries (product : WideLimb w) (c d : Limb w) : Checked (Limb w) := do
  if ¬ product.high < -2 then
    let both ← c.addExact d
    require (both.toNat ≤ 1) .carriesTooLarge
  let high ← product.high.addExact c
  high.addExact d

/-- The value `acc + x * y + carry`. -/
def mulAdd (acc x y carry : Limb w) : Checked (Carried w) := do
  let product ← mul x y
  require (InProductRange product) .productTooLarge
  let first := add acc carry
  let second := add first.limb product.low
  let high ← joinCarries product first.carry second.carry
  pure ⟨high, second.limb⟩

/-- The value `acc - x * y - borrow`. -/
def mulSub (acc x y borrow : Limb w) : Checked (Carried w) := do
  let product ← mul x y
  require (InProductRange product) .productTooLarge
  let first := sub acc borrow
  let second := sub first.limb product.low
  let high ← joinCarries product first.carry second.carry
  pure ⟨high, second.limb⟩

/-- The portable primitives of either width. -/
def alu (w : Width) : Alu w where
  isNonzero := isNonzero
  isZero := isZero
  add := add
  addCarry := addCarry
  sub := sub
  subBorrow := subBorrow
  mul := mul
  mulAdd := mulAdd
  mulSub := mulSub

end LimbArith.Portable
