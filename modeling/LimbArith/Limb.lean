import LimbArith.Fault

/-!
# LimbArith — limbs

A limb is the digit of multiprecision arithmetic: one machine word of 32 or 64 bits. Bitwise
operations, shifts and wrapping sums are those of `BitVec`; this module adds the shapes in which
primitives answer and the sums, products and shifts that must not overflow.

* `radix` — the base in which words of some bits are digits.
* `Width`, `Limb` — the two widths and their words.
* `Carried` — a limb with the carry or borrow that leaves it.
* `WideLimb` — the product of two limbs.
-/

namespace LimbArith

/-! ## Radix -/

/-- The base in which words of `k` bits are digits: two to the power `k`. -/
abbrev radix (k : Nat) : Nat := Nat.pow 2 k

theorem radix_zero : radix 0 = 1 := rfl

theorem radix_add (m n : Nat) : radix (m + n) = radix m * radix n := Nat.pow_add ..

theorem radix_pos (k : Nat) : 0 < radix k := Nat.two_pow_pos k

/-- A word is below its radix. -/
theorem toNat_lt_radix {k : Nat} (x : BitVec k) : x.toNat < radix k := x.isLt

/-! ## Limbs -/

/-- The supported limb widths. -/
inductive Width where
  | w32
  | w64
  deriving DecidableEq, Repr

namespace Width

/-- Bits in a limb. -/
abbrev bits : Width → Nat
  | w32 => 32
  | w64 => 64

/-- Bits in half a limb. -/
abbrev half (w : Width) : Nat := w.bits / 2

/-- Bytes in a limb. -/
abbrev bytes (w : Width) : Nat := w.bits / 8

end Width

variable {w : Width}

/-- One digit of a multiprecision number. -/
abbrev Limb (w : Width) : Type := BitVec w.bits

theorem toNat_zero : (0 : Limb w).toNat = 0 := rfl

theorem toNat_one : (1 : Limb w).toNat = 1 := by
  cases w <;> rfl

namespace Limb

/-- A sum that must fit a limb. -/
def addExact (x y : Limb w) : Checked (Limb w) := do
  require (x.toNat + y.toNat < radix w.bits) .limbOverflow
  pure (x + y)

/-- A product that must fit a limb. -/
def mulExact (x y : Limb w) : Checked (Limb w) := do
  require (x.toNat * y.toNat < radix w.bits) .limbOverflow
  pure (x * y)

/-- A right shift by less than the width. -/
def shiftRightExact (x : Limb w) (n : Nat) : Checked (Limb w) := do
  require (n < w.bits) .shiftTooWide
  pure (x >>> n)

/-- The low `n` bits set, `n` below the width. -/
def lowMask (w : Width) (n : Nat) : Limb w := (1 <<< n) - 1

end Limb

/-- A result limb and the carry or borrow into the next position. -/
structure Carried (w : Width) where
  carry : Limb w
  limb : Limb w
  deriving DecidableEq, Repr

/-- A pair of limbs read as one number with the value `high * B + low`. -/
structure WideLimb (w : Width) where
  high : Limb w
  low : Limb w
  deriving DecidableEq, Repr

namespace WideLimb

/-- The number a double limb stands for. -/
def value (d : WideLimb w) : Nat := d.high.toNat * radix w.bits + d.low.toNat

/-- The wiped double limb. -/
def zero : WideLimb w := ⟨0, 0⟩

/-- The diagnostic text: both limbs in decimal, the low one first. -/
def debugText (d : WideLimb w) : String :=
  s!"DoubleLimb \x7b v: [{d.low.toNat}, {d.high.toNat}] \x7d"

end WideLimb

end LimbArith
