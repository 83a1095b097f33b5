import LimbArith.Alu.Basic
import LimbArith.Mask.Choice

/-!
# LimbArith — programs over a stack of masks

Masks are combined by a stack program: a step pushes a mask, replaces the top one or two, or
looks at the top. Masks come from limbs, from comparisons and from the choices of another library,
and the top can be looked at as a choice. A step that fails leaves the stack as it was.

* `MaskStack.Step` — the steps.
* `MaskStack.apply`, `MaskStack.run` — their effect.
-/

namespace LimbArith.MaskStack

variable {w : Width}

/-- One step. -/
inductive Step (w : Width) where
  /-- Pushes the mask of a limb that is zero or one. -/
  | ofLimb (x : Limb w)
  /-- Pushes the mask of the choice that is made from a byte. -/
  | ofChoice (x : Byte)
  /-- Pushes the unset mask. -/
  | unset
  /-- Pushes a comparison of two limbs. -/
  | relation (r : LimbRelation) (x y : Limb w)
  /-- Negates the top. -/
  | not
  /-- Makes the top unset. -/
  | wipe
  /-- Replaces the two topmost masks by their conjunction. -/
  | and
  /-- Replaces the two topmost masks by their disjunction. -/
  | or
  /-- Selects a limb by the top. -/
  | select (x y : Limb w)
  /-- Selects a count by the top. -/
  | selectSize (m n : Word)
  /-- Reads the bit of the top. -/
  | bit
  /-- Reads the byte of the choice that the top is converted to. -/
  | toChoice
  deriving DecidableEq, Repr

/-- What a step answers. -/
inductive Reply (w : Width) where
  /-- The new top of the stack. -/
  | top (c : Mask w)
  | limb (x : Limb w)
  | size (n : Word)
  | bit (x : Limb w)
  | choice (x : Byte)
  deriving DecidableEq, Repr

/-- Why a step fails. -/
inductive StepError where
  /-- The stack has too few masks. -/
  | underflow
  | fault (f : Fault)
  deriving DecidableEq, Repr

/-- A stack, its top first. -/
abbrev Stack (w : Width) : Type := List (Mask w)

/-- A stack that got a new top. -/
def push (c : Mask w) (rest : Stack w) : Except StepError (Reply w × Stack w) :=
  .ok (.top c, c :: rest)

/-- Pushes what a check lets through. -/
def pushChecked (c : Checked (Mask w)) (rest : Stack w) :
    Except StepError (Reply w × Stack w) := do
  push (← c.mapError .fault) rest

/-- The effect of a step: its answer and the new stack. -/
def apply (alu : Alu w) (type : ChoiceType) :
    Step w → Stack w → Except StepError (Reply w × Stack w)
  | .ofLimb x, stack => pushChecked (Mask.ofLimb x) stack
  | .ofChoice x, stack => pushChecked (do Mask.ofChoice type (← type.ofByte x)) stack
  | .unset, stack => push Mask.unset stack
  | .relation r x y, stack => pushChecked (r.decide alu x y) stack
  | .not, c :: rest => push c.not rest
  | .wipe, _ :: rest => push Mask.unset rest
  | .and, d :: c :: rest => push (c.and d) rest
  | .or, d :: c :: rest => push (c.or d) rest
  | .select x y, c :: rest => .ok (.limb (c.select x y), c :: rest)
  | .selectSize m n, c :: rest => .ok (.size (c.selectWord m n), c :: rest)
  | .bit, c :: rest => .ok (.bit c.bit, c :: rest)
  | .toChoice, c :: rest => do
    let choice ← (c.toChoice type).mapError .fault
    pure (.choice (type.toByte choice), c :: rest)
  | _, _ => .error .underflow

/-- Runs a program from a stack; each step answers or fails, and a failed one changes nothing. -/
def run (alu : Alu w) (type : ChoiceType) :
    List (Step w) → Stack w → List (Except StepError (Reply w))
  | [], _ => []
  | step :: steps, stack =>
    match apply alu type step stack with
    | .ok (reply, next) => .ok reply :: run alu type steps next
    | .error e => .error e :: run alu type steps stack

end LimbArith.MaskStack
