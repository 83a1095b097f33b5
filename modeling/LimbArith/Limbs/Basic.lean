import LimbArith.Digits

/-!
# LimbArith — limb arrays

A natural number of any size is an array of limbs, least significant limb first. Leading zero limbs
are allowed. This module has the arrays, their value, and the loops that go over an array once with
a carry from position to position:

* `Limbs.sweep`, `Limbs.sweepInto` — from the least significant limb up.
* `Limbs.sweepDown`, `Limbs.sweepDownInto` — from the most significant limb down.
* `length_sweep`, `length_sweepInto`, `length_sweepDown` — they do not change the length of what
  they write to.

Each of the two comes in place, with one array in and out, and as a form that writes over the low
part of a result and leaves the limbs above it as they are.
-/

namespace LimbArith

/-- A natural number, least significant limb first. -/
abbrev Limbs (w : Width) : Type := List (Limb w)

/-- What a loop over an array leaves: the carry out of the last position and the new limbs. -/
structure Swept (w : Width) where
  carry : Limb w
  limbs : Limbs w
  deriving DecidableEq, Repr

namespace Limbs

variable {w : Width} {α : Type}

/-- The number an array stands for. -/
abbrev value (xs : Limbs w) : Nat := Digits.value xs

/-- Passes a carry up through the array and replaces each limb on the way. -/
def sweep (step : Limb w → Limb w → Checked (Carried w)) : Limbs w → Limb w → Checked (Swept w)
  | [], carry => pure ⟨carry, []⟩
  | x :: xs, carry => do
    let here ← step x carry
    let above ← sweep step xs here.carry
    pure ⟨above.carry, here.limb :: above.limbs⟩

/-- Passes a carry up through `inputs` and writes a limb of the result for each of them; `step` sees
the limb that was there. Limbs above the inputs stay. -/
def sweepInto (step : Limb w → α → Limb w → Checked (Carried w)) :
    Limbs w → List α → Limb w → Checked (Swept w)
  | r :: result, x :: inputs, carry => do
    let here ← step r x carry
    let above ← sweepInto step result inputs here.carry
    pure ⟨above.carry, here.limb :: above.limbs⟩
  | result, _, carry => pure ⟨carry, result⟩

/-- Passes a carry down through the array and replaces each limb on the way. -/
def sweepDown (step : Limb w → Limb w → Checked (Carried w)) :
    Limbs w → Limb w → Checked (Swept w)
  | [], carry => pure ⟨carry, []⟩
  | x :: xs, carry => do
    let above ← sweepDown step xs carry
    let here ← step x above.carry
    pure ⟨here.carry, here.limb :: above.limbs⟩

/-- Passes a carry down through `inputs` and writes a limb of the result for each of them. Limbs
above the inputs stay. -/
def sweepDownInto (step : α → Limb w → Checked (Carried w)) :
    Limbs w → List α → Limb w → Checked (Swept w)
  | _ :: result, x :: inputs, carry => do
    let above ← sweepDownInto step result inputs carry
    let here ← step x above.carry
    pure ⟨here.carry, here.limb :: above.limbs⟩
  | result, _, carry => pure ⟨carry, result⟩

/-! ## Lengths -/

theorem length_sweep {step : Limb w → Limb w → Checked (Carried w)} {xs : Limbs w} {carry : Limb w}
    {s : Swept w} (h : sweep step xs carry = .ok s) : s.limbs.length = xs.length := by
  induction xs generalizing carry s with
  | nil =>
    cases h
    rfl
  | cons x xs ih =>
    simp only [sweep, bind_eq_ok_iff] at h
    obtain ⟨here, -, above, swept, h⟩ := h
    cases h
    simp [ih swept]

theorem length_sweepInto {step : Limb w → α → Limb w → Checked (Carried w)} {result : Limbs w}
    {inputs : List α} {carry : Limb w} {s : Swept w}
    (h : sweepInto step result inputs carry = .ok s) : s.limbs.length = result.length := by
  induction result generalizing inputs carry s with
  | nil =>
    cases h
    rfl
  | cons r result ih =>
    cases inputs with
    | nil =>
      cases h
      rfl
    | cons x inputs =>
      simp only [sweepInto, bind_eq_ok_iff] at h
      obtain ⟨here, -, above, swept, h⟩ := h
      cases h
      simp [ih swept]

theorem length_sweepDown {step : Limb w → Limb w → Checked (Carried w)} {xs : Limbs w}
    {carry : Limb w} {s : Swept w} (h : sweepDown step xs carry = .ok s) :
    s.limbs.length = xs.length := by
  induction xs generalizing s with
  | nil =>
    cases h
    rfl
  | cons x xs ih =>
    simp only [sweepDown, bind_eq_ok_iff] at h
    obtain ⟨above, swept, here, -, h⟩ := h
    cases h
    simp [ih swept]

end Limbs

end LimbArith
