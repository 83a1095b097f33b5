import LimbArith.Alu.Basic
import LimbArith.Limbs.Length
import LimbArith.Storage.InPlace

/-!
# LimbArith — buffers

A buffer owns slots for limbs, all zero when it is made, and a number in its low slots. The slots
above the number are free for results to be written to. Capacity grows on demand, to exactly what is
asked for, and never shrinks; a buffer that takes part in an operation with a secure one becomes
secure and stays so.

* `Buffer.new`, `Buffer.ofLimbs`, `Buffer.clone` — making a buffer.
* `Buffer.reserve`, `Buffer.makeRoom` — growing and promoting one in place.
* `Buffer.copyFrom`, `Buffer.wipe`, `Buffer.trim`, `Buffer.setSize` — changing its number.
-/

namespace LimbArith

/-- Slots for limbs, the first `size` of which hold a number. -/
structure Buffer (w : Width) where
  slots : Limbs w
  size : Nat
  sensitivity : Sensitivity
  deriving DecidableEq, Repr

namespace Buffer

variable {w : Width}

/-- The number of slots. -/
def capacity (b : Buffer w) : Nat := b.slots.length

/-- Whether the contents are sensitive. -/
def isSecure (b : Buffer w) : Bool := b.sensitivity == .secure

/-- The number's limbs. -/
def limbs (b : Buffer w) : Checked (Limbs w) := front b.size b.slots

/-- The number. -/
def value (b : Buffer w) : Nat := Limbs.value (b.slots.take b.size)

/-! ## Making a buffer -/

/-- Storage has less than this many bytes, half the radix of a 64-bit word. -/
def memoryBound : Nat := 0x8000000000000000

/-- Storage for `n` limbs can be had. -/
def Allocatable (w : Width) (n : Nat) : Prop := n * w.bytes < memoryBound

instance (n : Nat) : Decidable (Allocatable w n) := inferInstanceAs (Decidable (_ < _))

/-- Slots for `n` limbs, all zero. -/
def allocate (w : Width) (n : Nat) : Traced (Limbs w) :=
  if Allocatable w n then pure (List.replicate n 0)
  else do
    Traced.emit (.limbsRefused n)
    Traced.refuse (.allocationFailed n)

/-- Makes a buffer with the number zero. -/
def new (w : Width) (capacity : Nat) (sensitivity : Sensitivity) : Traced (Buffer w) := do
  let slots ← allocate w capacity
  Traced.emit (.allocated capacity sensitivity)
  pure { slots, size := 0, sensitivity }

/-- Drops leading zero limbs from the number. -/
def trim (b : Buffer w) : Checked (Buffer w) := do
  let xs ← b.limbs
  pure { b with size := xs.significantLen }

/-- Makes a buffer that holds a copy of `xs` without its leading zeros. -/
def ofLimbs (xs : Limbs w) (sensitivity : Sensitivity) : Traced (Buffer w) := do
  let b ← new w xs.length sensitivity
  let slots ← copyOver b.slots xs
  trim { b with slots, size := xs.length }

/-- Makes a copy of all slots, as secure as the buffer. -/
def clone (b : Buffer w) : Traced (Buffer w) := do
  let copy ← new w b.capacity b.sensitivity
  let slots ← copyOver copy.slots b.slots
  pure { copy with slots, size := b.size }

/-- The events of a buffer's end. -/
def release (b : Buffer w) : List Event := if b.isSecure then [.released] else []

/-! ## Growing and promoting -/

/-- Grows to at least `n` slots. The number stays, and the slots above it are zero. -/
def reserve (n : Nat) : InPlace (Buffer w) Unit := do
  let b ← get
  if n ≤ b.capacity then pure ()
  else
    let blank ← allocate w n
    let xs ← b.limbs
    let slots ← overwrite blank 0 xs
    set { b with slots }
    Traced.emit (.grew b.sensitivity b.capacity n)

/-- Makes an ordinary buffer secure. -/
def promote : InPlace (Buffer w) Unit := do
  let b ← get
  if b.isSecure then pure ()
  else
    Traced.emit (.promoted b.capacity)
    set { b with sensitivity := .secure }

/-- Makes room for a result of `n` limbs; the buffer becomes secure if the result is. -/
def makeRoom (n : Nat) (secure : Bool) : InPlace (Buffer w) Unit := do
  reserve n
  if secure then promote else pure ()

/-! ## Changing the number -/

/-- Takes the first `n` slots as the number. -/
def setSize (n : Nat) : InPlace (Buffer w) Unit := do
  let b ← get
  if n ≤ b.capacity then set { b with size := n }
  else Traced.refuse (.insufficientCapacity n b.capacity)

/-- Copies the number of `src`. Limbs of the old number above it are wiped. -/
def copyFrom (src : Buffer w) : InPlace (Buffer w) Unit := do
  makeRoom src.size src.isSecure
  let b ← get
  let xs ← src.limbs
  let slots ← overwrite b.slots 0 xs
  let slots ← overwrite slots src.size (List.replicate (b.size - src.size) 0)
  set { b with slots, size := src.size }

/-- Sets the number to zero and wipes all slots. -/
def wipe (b : Buffer w) : Buffer w :=
  { b with slots := List.replicate b.capacity 0, size := 0 }

/-- Copies limbs into the slots from position `start` on. -/
def write (b : Buffer w) (start : Nat) (xs : Limbs w) : Checked (Buffer w) := do
  let slots ← overwrite b.slots start xs
  pure { b with slots }

/-- The position of the number's top bit plus one, zero for zero. -/
def bitLength (alu : Alu w) (b : Buffer w) : Checked Nat := do
  let xs ← b.limbs
  let xs := xs.take xs.significantLen
  match xs.getLast? with
  | none => pure 0
  | some top => Size.add (← Size.mul (xs.length - 1) w.bits) (← alu.bitLength top)

end Buffer

end LimbArith
