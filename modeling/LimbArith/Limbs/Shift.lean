import LimbArith.Limbs.Basic

/-!
# LimbArith — shifts by less than a limb

Multiplication and division by `2 ^ count`, `count` below the width. Every function answers with the
bits that leave the array as the carry of the result: at the low end of a limb for a left shift, at
the high end for a right shift. A count of zero copies the array and no bit leaves.

The carry from position to position is the whole neighbouring limb. The bits that come in from it
are taken by two shifts, one of them by a single bit, so that neither distance reaches the width.
-/

namespace LimbArith.Limbs

variable {w : Width}

/-! ## Left -/

/-- The bits that leave a limb at the top in a left shift. -/
def leftOut (count : Nat) (x : Limb w) : Limb w := (x >>> 1) >>> (w.bits - 1 - count)

/-- One position of a left shift; the carry is the limb below. -/
def leftStep (count : Nat) (x below : Limb w) : Carried w :=
  ⟨x, (x <<< count) ||| leftOut count below⟩

/-- Shifts left. -/
def shiftLeftInto (result xs : Limbs w) (count : Nat) : Checked (Swept w) := do
  require (count < w.bits) .shiftTooWide
  require (xs.length ≤ result.length) .resultTooShort
  let s ← sweepInto (fun _ x below => pure (leftStep count x below)) result xs 0
  pure ⟨leftOut count s.carry, s.limbs⟩

/-- Shifts left in place. -/
def shiftLeft (xs : Limbs w) (count : Nat) : Checked (Swept w) := do
  require (count < w.bits) .shiftTooWide
  let s ← sweep (fun x below => pure (leftStep count x below)) xs 0
  pure ⟨leftOut count s.carry, s.limbs⟩

/-! ## Right -/

/-- The bits that leave a limb at the bottom in a right shift. -/
def rightOut (count : Nat) (x : Limb w) : Limb w := (x <<< 1) <<< (w.bits - 1 - count)

/-- One position of a right shift; the carry is the limb above. -/
def rightStep (count : Nat) (x above : Limb w) : Carried w :=
  ⟨x, (x >>> count) ||| rightOut count above⟩

/-- Shifts right. -/
def shiftRightInto (result xs : Limbs w) (count : Nat) : Checked (Swept w) := do
  require (count < w.bits) .shiftTooWide
  require (xs.length ≤ result.length) .resultTooShort
  let s ← sweepDownInto (fun x above => pure (rightStep count x above)) result xs 0
  pure ⟨rightOut count s.carry, s.limbs⟩

/-- Shifts right in place. -/
def shiftRight (xs : Limbs w) (count : Nat) : Checked (Swept w) := do
  require (count < w.bits) .shiftTooWide
  let s ← sweepDown (fun x above => pure (rightStep count x above)) xs 0
  pure ⟨rightOut count s.carry, s.limbs⟩

end LimbArith.Limbs
