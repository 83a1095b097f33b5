/-!
# LimbArith — faults

Every operation of this library states what it asks of its caller and checks it, together with the
bounds its own arithmetic relies on. A check that fails ends the operation with a `Fault` that names
the cause; nothing is answered and nothing is changed.

* `require` — one check.
* `Size.add`, `Size.mul` — arithmetic on counts that have to fit a 64-bit word.
* `slice`, `overwrite`, `put` — access to a part of a list, refused when the part is out of range.
-/

namespace LimbArith

/-- The reason an operation refuses to answer. -/
inductive Fault where
  /-- The output array is shorter than what has to be written. -/
  | resultTooShort
  /-- Two arrays that must have equal lengths have not. -/
  | lengthMismatch
  /-- The second operand is longer than the first. -/
  | operandTooLong
  /-- A shift distance is not below the width. -/
  | shiftTooWide
  /-- An operand that must have no leading zero limb has one. -/
  | leadingZero
  /-- An incoming carry or borrow is above one. -/
  | carryTooLarge
  /-- A mask is made from a limb that is neither zero nor one. -/
  | notABit
  /-- A sum does not fit two limbs. -/
  | wideLimbOverflow
  /-- A sum or product that must fit one limb does not. -/
  | limbOverflow
  /-- A product of two limbs is above the largest possible one. -/
  | productTooLarge
  /-- The carries out of one position do not fit the next. -/
  | carriesTooLarge
  /-- A square does not fit twice the length of its root. -/
  | squareTooLarge
  /-- The search for the top bit ends with more than one bit. -/
  | searchUnfinished
  /-- A count does not fit its word. -/
  | sizeOverflow
  /-- An index or a part lies outside its array. -/
  | outOfRange
  /-- A register that holds nothing is used. -/
  | emptyRegister
  /-- The destination of an operation is one of its operands. -/
  | sharedOperand
  /-- A step refers to an answer that is not a limb. -/
  | noLimb
  deriving DecidableEq, Repr

/-- An answer, or the fault that prevents it. -/
abbrev Checked (α : Type) : Type := Except Fault α

/-- Faults with `fault` unless `p` holds. -/
def require (p : Prop) [Decidable p] (fault : Fault) : Checked Unit :=
  if p then .ok () else .error fault

section

variable {p : Prop} [Decidable p] {fault : Fault}

theorem require_pos (h : p) : require p fault = .ok () := if_pos h

theorem require_neg (h : ¬ p) : require p fault = .error fault := if_neg h

/-- A check passes exactly if its condition holds. -/
theorem require_eq_ok_iff : require p fault = .ok () ↔ p := by
  by_cases h : p <;> simp [require, h]

end

/-- A step after another answers exactly if both do. -/
theorem bind_eq_ok_iff {α β : Type} {x : Checked α} {f : α → Checked β} {b : β} :
    x >>= f = .ok b ↔ ∃ a, x = .ok a ∧ f a = .ok b := by
  cases x with
  | error fault => simp [bind, Except.bind]
  | ok a => simp [bind, Except.bind]

/-! ## Counts -/

namespace Size

/-- Counts are below this bound, the radix of a 64-bit word. -/
def bound : Nat := 0x10000000000000000

/-- The sum of two counts. -/
def add (m n : Nat) : Checked Nat := do
  require (m + n < bound) .sizeOverflow
  pure (m + n)

/-- The product of two counts. -/
def mul (m n : Nat) : Checked Nat := do
  require (m * n < bound) .sizeOverflow
  pure (m * n)

end Size

/-! ## Parts of a list -/

variable {α : Type}

/-- The first `n` elements, all of which must be there. -/
def front (n : Nat) (xs : List α) : Checked (List α) := do
  require (n ≤ xs.length) .outOfRange
  pure (xs.take n)

/-- The elements from position `start` up to, not including, position `stop`. -/
def slice (start stop : Nat) (xs : List α) : Checked (List α) := do
  require (start ≤ stop ∧ stop ≤ xs.length) .outOfRange
  pure ((xs.take stop).drop start)

/-- Puts `x` at position `i`. -/
def put (xs : List α) (i : Nat) (x : α) : Checked (List α) := do
  require (i < xs.length) .outOfRange
  pure (xs.set i x)

/-- Writes `piece` over the elements from position `start` on. -/
def overwrite (xs : List α) (start : Nat) (piece : List α) : Checked (List α) := do
  require (start + piece.length ≤ xs.length) .outOfRange
  pure (xs.take start ++ piece ++ xs.drop (start + piece.length))

/-- Writes `xs` over `dst`, which must be equally long. -/
def copyOver (dst xs : List α) : Checked (List α) := do
  require (dst.length = xs.length) .lengthMismatch
  pure xs

theorem front_of_le {n : Nat} {xs : List α} (h : n ≤ xs.length) : front n xs = .ok (xs.take n) := by
  rw [front, require_pos h]
  rfl

theorem put_of_lt {xs : List α} {i : Nat} {x : α} (h : i < xs.length) :
    put xs i x = .ok (xs.set i x) := by
  rw [put, require_pos h]
  rfl

theorem overwrite_of_le {xs piece : List α} {start : Nat} (h : start + piece.length ≤ xs.length) :
    overwrite xs start piece = .ok (xs.take start ++ piece ++ xs.drop (start + piece.length)) := by
  rw [overwrite, require_pos h]
  rfl

theorem copyOver_of_length_eq {dst xs : List α} (h : dst.length = xs.length) :
    copyOver dst xs = .ok xs := by
  rw [copyOver, require_pos h]
  rfl

end LimbArith
