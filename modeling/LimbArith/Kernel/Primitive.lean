import LimbArith.Kernel.Call

/-!
# LimbArith — primitive calls

One type for a call of any operation on single limbs, beside `Call` for the operations on arrays.

* `Primitive` — an operation with its operands.
* `Primitive.run` — the value that it returns on a given unit.
-/

namespace LimbArith

variable {w : Width}

/-- A call of an operation on single limbs. -/
inductive Primitive (w : Width) where
  | add (x y : Limb w)
  | addCarry (x y carry : Limb w)
  | sub (x y : Limb w)
  | subBorrow (x y borrow : Limb w)
  | mul (x y : Limb w)
  | mulAdd (acc x y carry : Limb w)
  | mulSub (acc x y borrow : Limb w)
  | addToWide (d : WideLimb w) (x : Limb w)
  | isZero (x : Limb w)
  | isNonzero (x : Limb w)
  | relation (r : LimbRelation) (x y : Limb w)
  | bitLength (x : Limb w)
  deriving DecidableEq, Repr

/-- The value that a primitive returns. -/
def Primitive.run (alu : Alu w) : Primitive w → Checked (Returned w)
  | add x y => pure (.carried (alu.add x y))
  | addCarry x y carry => return .carried (← alu.addCarry x y carry)
  | sub x y => pure (.carried (alu.sub x y))
  | subBorrow x y borrow => return .carried (← alu.subBorrow x y borrow)
  | mul x y => return .wide (← alu.mul x y)
  | mulAdd acc x y carry => return .carried (← alu.mulAdd acc x y carry)
  | mulSub acc x y borrow => return .carried (← alu.mulSub acc x y borrow)
  | addToWide d x => return .carried (← alu.addToWide d x)
  | isZero x => pure (.limb (alu.isZero x))
  | isNonzero x => pure (.limb (alu.isNonzero x))
  | relation r x y => return .mask (← r.decide alu x y)
  | bitLength x => return .length (← alu.bitLength x)

end LimbArith
