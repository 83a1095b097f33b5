import LimbArith.Proofs.Primitive.Machine
import LimbArith.Proofs.Primitive.Portable

/-!
# LimbArith — the implementations of the primitives

The kernel runs on three sets of primitives: the portable ones for either width
of a limb, and the machine's for 64-bit limbs. A statement about the kernel is
about all of them.

Main results:

* `Implementation` — the sets of primitives.
* `Implementation.lawful` — each of them is lawful.
-/

namespace LimbArith

/-- The sets of primitives that the kernel runs on. -/
inductive Implementation : Width → Type where
  /-- Bitwise operations and products of half limbs. -/
  | portable (w : Width) : Implementation w
  /-- Instruction sequences. -/
  | machine : Implementation .w64

namespace Implementation

/-- The primitives of an implementation. -/
def alu {w : Width} : Implementation w → Alu w
  | portable w => Portable.alu w
  | machine => Machine.alu

theorem lawful {w : Width} (impl : Implementation w) : impl.alu.Lawful := by
  cases impl with
  | portable => exact Portable.lawful _
  | machine => exact Machine.lawful

end Implementation

end LimbArith
