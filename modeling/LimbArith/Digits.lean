import LimbArith.Limb

/-!
# LimbArith — digits

Numbers as lists of digits in a base that is a power of two, least significant digit first. Limbs,
bytes and hexadecimal digits are digits of different sizes; `placeAll` and `unpack` go from small
digits to limbs and back.

* `Digits.value` — the number that digits stand for.
* `value_append`, `value_lt` — its two basic laws.
* `Digits.placeAll`, `Digits.unpack` — several small digits to a limb.
-/

namespace LimbArith

/-- A base 256 digit. -/
abbrev Byte : Type := BitVec 8

/-- A base 16 digit. -/
abbrev Nibble : Type := BitVec 4

namespace Digits

variable {k : Nat} {w : Width}

/-! ## Value -/

/-- The number that digits in base `radix k` stand for. -/
def value : List (BitVec k) → Nat
  | [] => 0
  | d :: ds => d.toNat + radix k * value ds

@[simp] theorem value_nil : value ([] : List (BitVec k)) = 0 := rfl

@[simp] theorem value_cons (d : BitVec k) (ds : List (BitVec k)) :
    value (d :: ds) = d.toNat + radix k * value ds := rfl

/-- Digits above others count from where those end. -/
theorem value_append (ds es : List (BitVec k)) :
    value (ds ++ es) = value ds + radix (k * ds.length) * value es := by
  induction ds with
  | nil => simp
  | cons d ds ih =>
    have shifted : radix (k * (ds.length + 1)) = radix k * radix (k * ds.length) := by
      rw [Nat.mul_succ, radix_add, Nat.mul_comm]
    rw [List.cons_append, value_cons, value_cons, ih, List.length_cons, shifted, Nat.mul_add,
      Nat.mul_assoc, Nat.add_assoc]

/-- A number is below the radix of all its digits. -/
theorem value_lt (ds : List (BitVec k)) : value ds < radix (k * ds.length) := by
  induction ds with
  | nil => exact radix_pos 0
  | cons d ds ih =>
    rw [value_cons, List.length_cons, Nat.mul_succ, radix_add, Nat.mul_comm (radix (k * ds.length))]
    have digit_lt := toNat_lt_radix d
    calc d.toNat + radix k * value ds < radix k + radix k * value ds := by omega
      _ = radix k * (value ds + 1) := by rw [Nat.mul_succ, Nat.add_comm]
      _ ≤ radix k * radix (k * ds.length) := Nat.mul_le_mul_left _ ih

/-! ## Packing -/

/-- Adds the `i`-th digit to the limb that has its place. -/
def place (xs : List (Limb w)) (i : Nat) (d : BitVec k) : Checked (List (Limb w)) := do
  let perLimb := w.bits / k
  require (i / perLimb < xs.length) .outOfRange
  pure (xs.modify (i / perLimb) (· ||| d.setWidth w.bits <<< (k * (i % perLimb))))

/-- Adds digits to the limbs that have their places, the `i`-th and those that follow. -/
def placeAll (xs : List (Limb w)) (i : Nat) : List (BitVec k) → Checked (List (Limb w))
  | [] => pure xs
  | d :: ds => do
    let xs ← place xs i d
    placeAll xs (i + 1) ds

/-- The digits of one limb. -/
def split (k : Nat) (limb : Limb w) : List (BitVec k) :=
  (List.range (w.bits / k)).map fun i => (limb >>> (k * i)).setWidth k

/-- The digits of limbs. -/
def unpack (k : Nat) (limbs : List (Limb w)) : List (BitVec k) := limbs.flatMap (split k)

/-- The number of limbs that take `n` digits. -/
def limbCount (w : Width) (k n : Nat) : Nat :=
  let perLimb := w.bits / k
  (n + perLimb - 1) / perLimb

end Digits

end LimbArith
