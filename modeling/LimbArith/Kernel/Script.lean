import LimbArith.Kernel.Primitive
import LimbArith.Text.Hex

/-!
# LimbArith — scripts

A script is a list of steps over registers that hold arrays. The operands of a step are read before
it runs; then every array that it changed goes back to where it came from. A step that faults
changes nothing, and the script goes on. Every step has an answer, and a later step can take the
limb that an earlier one returned.

* `Script.Operand`, `Script.Scalar` — where a step takes its arrays and limbs from.
* `Script.Step`, `Script.Reply` — the steps and what they answer.
* `Script.step`, `Script.run` — one step and a list of steps.
-/

namespace LimbArith.Script

variable {w : Width}

/-! ## Steps and answers -/

/-- Where an array comes from. -/
inductive Operand (w : Width) where
  /-- The script itself. -/
  | literal (xs : Limbs w)
  /-- A whole register. -/
  | register (r : Nat)
  /-- The limbs of a register from position `start` up to, not including, `stop`. -/
  | window (r start stop : Nat)
  deriving DecidableEq, Repr

/-- Where a limb comes from. -/
inductive Scalar (w : Width) where
  /-- The script itself. -/
  | literal (x : Limb w)
  /-- The limb that a step returned. -/
  | returned (step : Nat)
  /-- One limb of a register. -/
  | limbAt (r i : Nat)
  deriving DecidableEq, Repr

/-- One step of a script. Only a call on arrays changes registers. -/
inductive Step (w : Width) where
  /-- Runs an operation on arrays. -/
  | call (call : Call (Operand w) (Scalar w))
  /-- Runs an operation on limbs of the script itself. -/
  | primitive (p : Primitive w)
  /-- Looks at a double limb and compares it with another one. -/
  | inspect (d e : WideLimb w)
  /-- Asks for the width of a limb. -/
  | width
  /-- Reads hexadecimal text. -/
  | parse (text : String)
  /-- Writes an array as hexadecimal text. -/
  | render (x : Operand w)
  deriving DecidableEq, Repr

/-- What a step answers. -/
inductive Reply (w : Width) where
  | answer (a : Answer w)
  /-- A double limb, and whether it equals the other one. -/
  | inspected (d : WideLimb w) (same : Bool)
  /-- The bits and the bytes of a limb. -/
  | width (bits bytes : Nat)
  | limbs (xs : Limbs w)
  | text (s : String)
  deriving DecidableEq, Repr

/-- Why a step has no answer: a fault, or text that cannot be read. -/
abbrev Failure : Type := Hex.Error

/-- The limb that a step returned. Of a mask, that is its bit. -/
def Reply.limb? : Reply w → Option (Limb w)
  | .answer { returned := some (.limb x), .. } => some x
  | .answer { returned := some (.mask c), .. } => some c.bit
  | _ => none

/-- The registers and the answers of the steps so far. -/
structure State (w : Width) where
  registers : List (Limbs w)
  answers : List (Except Failure (Reply w)) := []

/-! ## Operands -/

namespace State

/-- The contents of a register. -/
def register (s : State w) (r : Nat) : Checked (Limbs w) :=
  match s.registers[r]? with
  | some xs => .ok xs
  | none => .error .emptyRegister

/-- Reads an array. -/
def readOperand (s : State w) : Operand w → Checked (Limbs w)
  | .literal xs => pure xs
  | .register r => s.register r
  | .window r start stop => do slice start stop (← s.register r)

/-- The limb that an earlier step returned. -/
def returnedLimb? (s : State w) (step : Nat) : Option (Limb w) :=
  match s.answers[step]? with
  | some (.ok reply) => reply.limb?
  | _ => none

/-- Reads a limb. -/
def readScalar (s : State w) : Scalar w → Checked (Limb w)
  | .literal x => pure x
  | .returned step =>
    match s.returnedLimb? step with
    | some x => pure x
    | none => throw .noLimb
  | .limbAt r i => do
    match (← s.register r)[i]? with
    | some x => pure x
    | none => throw .outOfRange

/-- Writes an array back to where it came from. -/
def writeBack (s : State w) (operand : Option (Operand w)) (xs : Option (Limbs w)) :
    Checked (State w) :=
  match operand, xs with
  | some (.register r), some xs => pure { s with registers := s.registers.set r xs }
  | some (.window r start _), some xs => do
    let whole ← overwrite (← s.register r) start xs
    pure { s with registers := s.registers.set r whole }
  | _, _ => pure s

end State

/-! ## Running a script -/

/-- Runs a call and writes back what it changed: the result, then the operands. -/
def runCall (alu : Alu w) (s : State w) (call : Call (Operand w) (Scalar w)) :
    Checked (Answer w × State w) := do
  let resolved ← call.resolve s.readOperand s.readScalar
  let answer ← resolved.run alu
  let s ← s.writeBack call.result? answer.result
  let s ← s.writeBack (some call.first) answer.first
  let s ← s.writeBack call.second? answer.second
  pure (answer, s)

/-- A checked value as part of a step: its fault is the step's failure. -/
def ofChecked {α : Type} : Checked α → Except Failure α
  | .ok a => .ok a
  | .error f => .error (.fault f)

/-- The answer of a step, and the state after it but for this answer. -/
def attempt (alu : Alu w) (s : State w) : Step w → Except Failure (Reply w × State w)
  | .call call => do
    let (answer, next) ← ofChecked (runCall alu s call)
    pure (.answer answer, next)
  | .primitive p => do
    let value ← ofChecked (p.run alu)
    pure (.answer (.ofReturned value), s)
  | .inspect d e => pure (.inspected d (d == e), s)
  | .width => pure (.width w.bits w.bytes, s)
  | .parse text => do
    let xs ← Hex.parse w text
    pure (.limbs xs, s)
  | .render x => do
    let xs ← ofChecked (s.readOperand x)
    pure (.text (Hex.render xs), s)

/-- Runs one step and records its answer. -/
def step (alu : Alu w) (s : State w) (step : Step w) : State w :=
  match attempt alu s step with
  | .ok (reply, next) => { next with answers := s.answers ++ [.ok reply] }
  | .error failure => { s with answers := s.answers ++ [.error failure] }

/-- Runs a script and answers with the answers of its steps. -/
def run (alu : Alu w) (registers : List (Limbs w)) (steps : List (Step w)) :
    List (Except Failure (Reply w)) :=
  (steps.foldl (step alu) { registers }).answers

end LimbArith.Script
