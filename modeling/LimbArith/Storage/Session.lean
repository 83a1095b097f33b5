import LimbArith.Kernel.Call
import LimbArith.Storage.Arithmetic
import LimbArith.Storage.Bytes
import LimbArith.Storage.Display
import LimbArith.Text.Hex

/-!
# LimbArith — sessions

A session is a run of commands over registers that hold buffers or nothing. A command works on its
register in place. A buffer that replaces another is made before the other ends.

* `Session.Command` — the commands, each of which is given the register it is about.
* `Session.execute` — one command on the registers.
* `Session.step`, `Session.run`, `Session.close` — a whole session and its end.
-/

namespace LimbArith.Session

variable {w : Width}

/-! ## Commands -/

/-- Where a call on a buffer takes an array from. -/
inductive Source (w : Width) where
  /-- All slots of the buffer itself. -/
  | slots
  | literal (xs : Limbs w)
  /-- The number of the buffer in a register. -/
  | number (r : Nat)
  deriving DecidableEq, Repr

/-- The array of a call that goes back into the slots. -/
inductive Target where
  | result
  | first
  deriving DecidableEq, Repr

/-- What to do with a register. -/
inductive Command (w : Width) where
  | new (capacity : Nat) (sensitivity : Sensitivity)
  | ofLimbs (xs : Limbs w) (sensitivity : Sensitivity)
  | ofBytes (bytes : List Byte) (sensitivity : Sensitivity)
  | clone (src : Nat)
  | drop
  | info
  | toBytes
  | bitLength
  | debugText
  | debugLines
  | hex
  | compare (src : Nat)
  | write (start : Nat) (xs : Limbs w)
  | apply (target : Target) (call : Call (Source w) (Limb w))
  | setSize (n : Nat)
  | trim
  | wipe
  | reserve (n : Nat)
  | copyFrom (src : Nat)
  | setSquare (x : Nat)
  | setProduct (x y : Nat)
  | setSum (x y : Nat)
  | setDifference (x y : Nat)
  deriving DecidableEq, Repr

/-- What a command answers. -/
inductive Reply (w : Width) where
  | done
  | info (capacity size : Nat) (sensitivity : Sensitivity) (limbs : Limbs w)
  | bytes (bytes : List Byte)
  | text (s : String)
  | returned (r : Returned w)
  deriving DecidableEq, Repr

/-! ## Registers -/

/-- Registers, each with a buffer or empty. -/
abbrev Registers (w : Width) : Type := List (Option (Buffer w))

namespace Registers

/-- Registers that are all empty. -/
def empty (w : Width) (n : Nat) : Registers w := List.replicate n none

/-- What a register holds, if anything. -/
def lookup (regs : Registers w) (r : Nat) : Option (Buffer w) := regs[r]?.join

/-- The buffer in a register. -/
def get (regs : Registers w) (r : Nat) : Checked (Buffer w) :=
  match regs.lookup r with
  | some b => .ok b
  | none => .error .emptyRegister

/-- The buffer in a register that is not the destination. -/
def operand (regs : Registers w) (dst r : Nat) : Checked (Buffer w) := do
  require (r ≠ dst) .sharedOperand
  regs.get r

/-- The events of ending what a register holds. -/
def ending (regs : Registers w) (r : Nat) : List Event :=
  ((regs.lookup r).map Buffer.release).getD []

end Registers

/-! ## Execution -/

/-- Puts a new buffer into a register, and ends the one that was there. -/
def replace (dst : Nat) (make : Traced (Buffer w)) : InPlace (Registers w) (Reply w) := do
  let regs ← get
  require (dst < regs.length) .outOfRange
  let b ← make
  Traced.emitAll (regs.ending dst)
  set (regs.set dst (some b))
  pure .done

/-- Changes the buffer in a register in place. What the change leaves is in the register then, after
a failure too. -/
def update (dst : Nat) (change : Registers w → InPlace (Buffer w) (Reply w)) :
    InPlace (Registers w) (Reply w) := do
  let regs ← get
  let b ← regs.get dst
  let (traced, b) := change regs b
  set (regs.set dst (some b))
  traced

/-- Changes the buffer in a register and answers nothing else. -/
def change (dst : Nat) (f : Registers w → InPlace (Buffer w) Unit) :
    InPlace (Registers w) (Reply w) :=
  update dst fun regs => do
    f regs
    pure .done

/-- Looks at the buffer in a register. -/
def query (dst : Nat) (f : Registers w → Buffer w → Traced (Reply w)) :
    InPlace (Registers w) (Reply w) := do
  let regs ← get
  let b ← regs.get dst
  f regs b

/-- Reads an array of a call on a buffer. -/
def readSource (regs : Registers w) (b : Buffer w) : Source w → Checked (Limbs w)
  | .slots => pure b.slots
  | .literal xs => pure xs
  | .number r => do (← regs.get r).limbs

/-- Runs an array operation on the slots of a buffer. -/
def applyCall (alu : Alu w) (regs : Registers w) (b : Buffer w) (target : Target)
    (call : Call (Source w) (Limb w)) : Checked (Reply w × Buffer w) := do
  let call ← call.resolve (readSource regs b) pure
  let answer ← call.run alu
  let written := match target with
    | .result => answer.result
    | .first => answer.first
  let slots ← match written with
    | some xs => copyOver b.slots xs
    | none => pure b.slots
  let reply := match answer.returned with
    | some r => .returned r
    | none => .done
  pure (reply, { b with slots })

/-- The second of two factors, which may be the same buffer. -/
def factor (regs : Registers w) (dst x y : Nat) : Checked (Factor (Buffer w)) :=
  if y = x then pure .same else do pure (.other (← regs.operand dst y))

/-- One command about the register `dst`. -/
def execute (alu : Alu w) (dst : Nat) : Command w → InPlace (Registers w) (Reply w)
  | .new capacity sensitivity => replace dst (Buffer.new w capacity sensitivity)
  | .ofLimbs xs sensitivity => replace dst (Buffer.ofLimbs xs sensitivity)
  | .ofBytes bytes sensitivity => replace dst (Buffer.ofBytes w bytes sensitivity)
  | .clone src => do
    let regs ← get
    let b ← regs.get src
    replace dst b.clone
  | .drop => do
    let regs ← get
    Traced.emitAll (regs.ending dst)
    set (regs.set dst none)
    pure .done
  | .info => query dst fun _ b => do
    let xs ← b.limbs
    pure (.info b.capacity b.size b.sensitivity xs)
  | .toBytes => query dst fun _ b => do
    let bytes ← b.toBytes alu
    pure (.bytes bytes)
  | .bitLength => query dst fun _ b => do
    let n ← b.bitLength alu
    pure (.returned (.length n))
  | .debugText => query dst fun _ b => do
    let s ← b.debugText
    pure (.text s)
  | .debugLines => query dst fun _ b => do
    let s ← b.debugLines
    pure (.text s)
  | .hex => query dst fun _ b => do
    let xs ← b.limbs
    pure (.text (Hex.render xs))
  | .compare src => query dst fun regs b => do
    let xs ← b.limbs
    let ys ← (← regs.get src).limbs
    let o ← Limbs.compareNormalized alu xs ys
    pure (.returned (.ordering o))
  | .write start xs => change dst fun _ => InPlace.assign fun b => b.write start xs
  | .apply target call => update dst fun regs => do
    let b ← get
    let (reply, b) ← applyCall alu regs b target call
    set b
    pure reply
  | .setSize n => change dst fun _ => Buffer.setSize n
  | .trim => change dst fun _ => InPlace.assign Buffer.trim
  | .wipe => change dst fun _ => modify Buffer.wipe
  | .reserve n => change dst fun _ => Buffer.reserve n
  | .copyFrom src => change dst fun regs => do
    let x ← regs.operand dst src
    Buffer.copyFrom x
  | .setSquare x => change dst fun regs => do
    let x ← regs.operand dst x
    Buffer.setSquare alu x
  | .setProduct x y => change dst fun regs => do
    let f ← factor regs dst x y
    let x ← regs.operand dst x
    Buffer.setProduct alu x f
  | .setSum x y => change dst fun regs => do
    let x ← regs.operand dst x
    let y ← regs.operand dst y
    Buffer.setSum alu x y
  | .setDifference x y => update dst fun regs => do
    let x ← regs.operand dst x
    let y ← regs.operand dst y
    let borrow ← Buffer.setDifference alu x y
    pure (.returned (.limb borrow))

/-! ## Runs -/

/-- A command and the register it is about. -/
structure Step (w : Width) where
  dst : Nat
  command : Command w
  deriving DecidableEq, Repr

/-- What is seen of a step: its events, its answer or failure, and what its register holds
afterwards. -/
structure Outcome (w : Width) where
  events : List Event
  reply : Except Failure (Reply w)
  state : Option (Buffer w)

/-- One step: its outcome and the registers it leaves. -/
def step (alu : Alu w) (regs : Registers w) (s : Step w) : Outcome w × Registers w :=
  let (t, next) := execute alu s.dst s.command regs
  (⟨t.events, t.outcome, next.lookup s.dst⟩, next)

/-- A run: the outcomes of its steps and the registers at its end. -/
def run (alu : Alu w) : List (Step w) → Registers w → List (Outcome w) × Registers w
  | [], regs => ([], regs)
  | s :: steps, regs =>
    let (outcome, next) := step alu regs s
    let (outcomes, last) := run alu steps next
    (outcome :: outcomes, last)

/-- The events of ending the buffers of all registers in order. -/
def close (regs : Registers w) : List Event :=
  regs.flatMap fun r => (r.map Buffer.release).getD []

end LimbArith.Session
