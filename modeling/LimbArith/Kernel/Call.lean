import LimbArith.Limbs.Add
import LimbArith.Limbs.Compare
import LimbArith.Limbs.Conditional
import LimbArith.Limbs.Square

/-!
# LimbArith — kernel calls

One type for a call of any array operation, so that operations can be named, read from a script and
spoken of all at once. The type is parametric in how arrays and limbs are given: `Call (Limbs w)
(Limb w)` has the operands themselves, a script has references to registers.

* `Call` — an operation with its operands; operations of one shape share a constructor.
* `Call.resolve` — replaces references by what they refer to.
* `Call.run` — the answer of a call.
-/

namespace LimbArith

variable {w : Width}

/-! ## Operations -/

/-- The two additive operations. -/
inductive Additive where
  | add
  | sub
  deriving DecidableEq, Repr

/-- The operations on an array and a limb that have an in-place form. -/
inductive LimbOp where
  | add
  | sub
  | mul
  deriving DecidableEq, Repr

/-- The operations that accumulate a product with a limb. -/
inductive Accumulate where
  | mulAdd
  | mulSub
  deriving DecidableEq, Repr

/-- Whether two operands have to be equally long or the second may be shorter. -/
inductive Lengths where
  | same
  | mixed
  deriving DecidableEq, Repr

/-- The direction of a shift. -/
inductive Direction where
  | left
  | right
  deriving DecidableEq, Repr

/-- A call of an array operation. Arrays are given as `α`, limbs as `σ`. An operation that has a
`result` writes to it and reads the others; one that has none works in place. -/
inductive Call (α σ : Type) where
  | limbInto (op : LimbOp) (result x : α) (y : σ)
  | limbInPlace (op : LimbOp) (x : α) (y : σ)
  | accumulate (op : Accumulate) (result x : α) (y : σ)
  | pairInto (op : Additive) (lengths : Lengths) (result x y : α)
  | pairInPlace (op : Additive) (lengths : Lengths) (x y : α)
  | pairIf (op : Additive) (x y : α) (cond : σ)
  | shiftInto (direction : Direction) (result x : α) (count : Nat)
  | shiftInPlace (direction : Direction) (x : α) (count : Nat)
  | mulInto (result x y : α)
  | mulSameInto (result x : α) (y : Factor α)
  | squareInto (result x : α)
  | copyIf (x y : α) (cond : σ)
  | swapIf (x y : α) (cond : σ)
  | negateIf (x : α) (cond : σ)
  | relation (r : Relation) (x y : α)
  | isZero (x : α)
  | compareSame (x y : α)
  | compareLimb (x : α) (y : σ)
  | compareNormalized (x y : α)
  | significantLen (x : α)
  | significantLenScan (x : α)
  deriving DecidableEq, Repr

namespace Call

variable {α β σ τ : Type}

/-- Replaces the arrays and limbs of a call, the result first, then the operands in order. -/
def resolve (array : α → Checked β) (limb : σ → Checked τ) : Call α σ → Checked (Call β τ)
  | limbInto op result x y =>
    return limbInto op (← array result) (← array x) (← limb y)
  | limbInPlace op x y => return limbInPlace op (← array x) (← limb y)
  | accumulate op result x y =>
    return accumulate op (← array result) (← array x) (← limb y)
  | pairInto op lengths result x y =>
    return pairInto op lengths (← array result) (← array x) (← array y)
  | pairInPlace op lengths x y => return pairInPlace op lengths (← array x) (← array y)
  | pairIf op x y cond => return pairIf op (← array x) (← array y) (← limb cond)
  | shiftInto direction result x count =>
    return shiftInto direction (← array result) (← array x) count
  | shiftInPlace direction x count => return shiftInPlace direction (← array x) count
  | mulInto result x y => return mulInto (← array result) (← array x) (← array y)
  | mulSameInto result x .same => return mulSameInto (← array result) (← array x) .same
  | mulSameInto result x (.other y) =>
    return mulSameInto (← array result) (← array x) (.other (← array y))
  | squareInto result x => return squareInto (← array result) (← array x)
  | copyIf x y cond => return copyIf (← array x) (← array y) (← limb cond)
  | swapIf x y cond => return swapIf (← array x) (← array y) (← limb cond)
  | negateIf x cond => return negateIf (← array x) (← limb cond)
  | relation r x y => return relation r (← array x) (← array y)
  | isZero x => return isZero (← array x)
  | compareSame x y => return compareSame (← array x) (← array y)
  | compareLimb x y => return compareLimb (← array x) (← limb y)
  | compareNormalized x y => return compareNormalized (← array x) (← array y)
  | significantLen x => return significantLen (← array x)
  | significantLenScan x => return significantLenScan (← array x)

/-- The array given as `result`, if the operation has one. -/
def result? : Call α σ → Option α
  | limbInto _ result _ _ | accumulate _ result _ _ | pairInto _ _ result _ _
  | shiftInto _ result _ _ | mulInto result _ _ | mulSameInto result _ _
  | squareInto result _ => some result
  | _ => none

/-- The array given as first operand. -/
def first : Call α σ → α
  | limbInto _ _ x _ | limbInPlace _ x _ | accumulate _ _ x _ | pairInto _ _ _ x _
  | pairInPlace _ _ x _ | pairIf _ x _ _ | shiftInto _ _ x _ | shiftInPlace _ x _
  | mulInto _ x _ | mulSameInto _ x _ | squareInto _ x | copyIf x _ _ | swapIf x _ _
  | negateIf x _ | relation _ x _ | isZero x | compareSame x _ | compareLimb x _
  | compareNormalized x _ | significantLen x | significantLenScan x => x

/-- The array given as second operand, if there is one. -/
def second? : Call α σ → Option α
  | pairInto _ _ _ _ y | pairInPlace _ _ _ y | pairIf _ _ y _ | mulInto _ _ y
  | mulSameInto _ _ (.other y) | copyIf _ y _ | swapIf _ y _ | relation _ _ y
  | compareSame _ y | compareNormalized _ y => some y
  | _ => none

end Call

/-! ## Answers -/

/-- The value that an operation returns. -/
inductive Returned (w : Width) where
  | limb (x : Limb w)
  | mask (c : Mask w)
  /-- One for above, minus one for below, zero for equal. -/
  | sign (s : Int)
  | ordering (o : Ordering)
  | length (n : Nat)
  /-- A limb with a carry or borrow out of it, of the operations on single limbs. -/
  | carried (c : Carried w)
  /-- A product of two limbs. -/
  | wide (d : WideLimb w)
  deriving DecidableEq, Repr

/-- What a call answers: the value it returns, if any, and the arrays it changes, in full. -/
structure Answer (w : Width) where
  returned : Option (Returned w) := none
  result : Option (Limbs w) := none
  first : Option (Limbs w) := none
  second : Option (Limbs w) := none
  deriving DecidableEq, Repr

namespace Answer

/-- A carry and a new result. -/
def ofResult (s : Swept w) : Answer w :=
  { returned := some (.limb s.carry), result := some s.limbs }

/-- A carry and a new first operand. -/
def ofOperand (s : Swept w) : Answer w :=
  { returned := some (.limb s.carry), first := some s.limbs }

/-- A value alone. -/
def ofReturned (r : Returned w) : Answer w := { returned := some r }

end Answer

/-! ## Running a call -/

namespace LimbOp

/-- The form with a separate result. -/
def into (alu : Alu w) : LimbOp → (result xs : Limbs w) → Limb w → Checked (Swept w)
  | add => Limbs.addLimbInto alu
  | sub => Limbs.subLimbInto alu
  | mul => Limbs.mulLimbInto alu

/-- The in-place form. -/
def inPlace (alu : Alu w) : LimbOp → (xs : Limbs w) → Limb w → Checked (Swept w)
  | add => Limbs.addLimb alu
  | sub => Limbs.subLimb alu
  | mul => Limbs.mulLimb alu

end LimbOp

/-- The operation on the accumulator, an array and a limb. -/
def Accumulate.into (alu : Alu w) :
    Accumulate → (acc xs : Limbs w) → Limb w → Checked (Swept w)
  | mulAdd => Limbs.mulAddLimb alu
  | mulSub => Limbs.mulSubLimb alu

namespace Additive

/-- The form with a separate result. -/
def into (alu : Alu w) : Additive → Lengths → (result xs ys : Limbs w) → Checked (Swept w)
  | add, .same => Limbs.addSameInto alu
  | add, .mixed => Limbs.addInto alu
  | sub, .same => Limbs.subSameInto alu
  | sub, .mixed => Limbs.subInto alu

/-- The in-place form. -/
def inPlace (alu : Alu w) : Additive → Lengths → (xs ys : Limbs w) → Checked (Swept w)
  | add, .same => Limbs.addSame alu
  | add, .mixed => Limbs.add alu
  | sub, .same => Limbs.subSame alu
  | sub, .mixed => Limbs.sub alu

/-- The conditional form. -/
def conditional (alu : Alu w) : Additive → (xs ys : Limbs w) → Mask w → Checked (Swept w)
  | add => Limbs.addSameIf alu
  | sub => Limbs.subSameIf alu

end Additive

namespace Direction

/-- The form with a separate result. -/
def into : Direction → (result xs : Limbs w) → Nat → Checked (Swept w)
  | left => Limbs.shiftLeftInto
  | right => Limbs.shiftRightInto

/-- The in-place form. -/
def inPlace : Direction → (xs : Limbs w) → Nat → Checked (Swept w)
  | left => Limbs.shiftLeft
  | right => Limbs.shiftRight

end Direction

/-- The answer of a call. A condition is a limb that has to be zero or one. -/
def Call.run (alu : Alu w) : Call (Limbs w) (Limb w) → Checked (Answer w)
  | limbInto op result x y => return .ofResult (← op.into alu result x y)
  | limbInPlace op x y => return .ofOperand (← op.inPlace alu x y)
  | accumulate op result x y => return .ofResult (← op.into alu result x y)
  | pairInto op lengths result x y => return .ofResult (← op.into alu lengths result x y)
  | pairInPlace op lengths x y => return .ofOperand (← op.inPlace alu lengths x y)
  | pairIf op x y cond =>
    return .ofOperand (← op.conditional alu x y (← Mask.ofLimb cond))
  | shiftInto direction result x count => return .ofResult (← direction.into result x count)
  | shiftInPlace direction x count => return .ofOperand (← direction.inPlace x count)
  | mulInto result x y => return { result := some (← Limbs.mulInto alu result x y) }
  | mulSameInto result x y =>
    return { result := some (← Limbs.mulSameInto alu result x y) }
  | squareInto result x => return { result := some (← Limbs.squareInto alu result x) }
  | copyIf x y cond =>
    return { first := some (← Limbs.copyIf x y (← Mask.ofLimb cond)) }
  | swapIf x y cond => do
    let (xs, ys) ← Limbs.swapIf x y (← Mask.ofLimb cond)
    return { first := some xs, second := some ys }
  | negateIf x cond =>
    return { first := some (← Limbs.negateIf alu x (← Mask.ofLimb cond)) }
  | relation r x y => return .ofReturned (.mask (← r.decide alu x y))
  | isZero x => return .ofReturned (.mask (← Limbs.isZero alu x))
  | compareSame x y => return .ofReturned (.sign (← Limbs.compareSame alu x y))
  | compareLimb x y => return .ofReturned (.sign (← Limbs.compareLimb alu x y))
  | compareNormalized x y =>
    return .ofReturned (.ordering (← Limbs.compareNormalized alu x y))
  | significantLen x => return .ofReturned (.length (Limbs.significantLen x))
  | significantLenScan x =>
    return .ofReturned (.length (← Limbs.significantLenScan alu x))

end LimbArith
