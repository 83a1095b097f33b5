import LimbArith.Proofs.Limbs.InPlace
import LimbArith.Proofs.Limbs.Sum
import LimbArith.Proofs.Primitive.Implementation

/-!
# LimbArith — sums and differences undo each other

An array that is not longer is added to the low part of another one, or
subtracted from it, and the carry goes on through the rest as a limb. Two chains
with carries of different kinds meet there, and still the answer is that of one
exact operation: what leaves at the top is one or zero, and the borrow of a
difference says which of the two operands is larger.

An exact sum can be taken back. The difference over it has one number to reach,
the first operand with the same carry on top, and a number has only one carry
and one array of limbs.

Main results:

* `subInto_exact` — the difference; the sum is `addInto_exact`.
* `sum_carry_le_one`, `difference_borrow` — what leaves at the top.
* `subInto_takes_back`, `addInto_takes_back` — the operation the other way.
* `addInto_eq_addSameInto`, `subInto_eq_subSameInto` — equal lengths.
* `addInto_subInto_inverse` — both operations, and both orders.
-/

namespace LimbArith.Limbs

variable {w : Width} {alu : Alu w} {result xs ys low : Limbs w}

-- ---------------------------------------------------------------------------
-- The difference
-- ---------------------------------------------------------------------------

theorem subInto_exact (hAlu : alu.Lawful) (hShort : ys.length ≤ xs.length)
    (hLength : xs.length ≤ result.length) :
    ∃ borrow low, subInto alu result xs ys = .ok ⟨borrow, low ++ result.drop xs.length⟩ ∧
      low.length = xs.length ∧
      value low + value ys = value xs + borrow.toNat * radix (w.bits * xs.length) := by
  obtain ⟨borrow, low, hSub, hLow, hDifference⟩ := sub_exact hAlu hShort
  refine ⟨borrow, low, ?_, hLow, hDifference⟩
  rw [subInto_eq_onto alu ys hLength, hSub, Swept.onto_ok hLow]

-- ---------------------------------------------------------------------------
-- What leaves at the top
-- ---------------------------------------------------------------------------

/-- Both operands are below the radix of the longer one, so their sum is below twice that. -/
theorem sum_carry_le_one {c : Limb w} (hShort : ys.length ≤ xs.length)
    (hSum : c.toNat * radix (w.bits * xs.length) + value low = value xs + value ys) :
    c.toNat ≤ 1 := by
  have hxs := value_lt xs
  have hys : value ys < radix (w.bits * xs.length) := Digits.value_lt_of_length_le hShort
  exact carry_le_one hSum (by omega)

/-- A difference borrows at most one, and only if it is negative. -/
theorem difference_borrow {b : Limb w} (hShort : ys.length ≤ xs.length)
    (hLow : low.length = xs.length)
    (hDifference : value low + value ys
      = value xs + b.toNat * radix (w.bits * xs.length)) :
    b.toNat ≤ 1 ∧ (b = 1 ↔ value xs < value ys) := by
  have hLimbs : value low < radix (w.bits * xs.length) :=
    Digits.value_lt_of_length_le (le_of_eq hLow)
  have hys : value ys < radix (w.bits * xs.length) := Digits.value_lt_of_length_le hShort
  have hBorrow : b.toNat ≤ 1 :=
    carry_le_one ((Nat.add_comm ..).trans hDifference.symm) (by omega)
  refine ⟨hBorrow, ?_⟩
  rw [BitVec.toNat_eq, toNat_one]
  rcases Nat.le_one_iff_eq_zero_or_eq_one.mp hBorrow with hZero | hOne
  · rw [hZero, Nat.zero_mul] at hDifference
    omega
  · rw [hOne, Nat.one_mul] at hDifference
    omega

-- ---------------------------------------------------------------------------
-- The operation the other way
-- ---------------------------------------------------------------------------

/-- Subtracting what was added leaves the first operand, and borrows the carry. -/
theorem subInto_takes_back (hAlu : alu.Lawful) {c : Limb w} (hShort : ys.length ≤ xs.length)
    (hLength : xs.length ≤ result.length) (hLow : low.length = xs.length)
    (hSum : c.toNat * radix (w.bits * xs.length) + value low = value xs + value ys) :
    subInto alu result low ys = .ok ⟨c, xs ++ result.drop xs.length⟩ := by
  rw [← hLow] at hShort hLength
  obtain ⟨borrow, back, hSub, hBack, hDifference⟩ := subInto_exact hAlu hShort hLength
  rw [hLow] at hSub hBack hDifference
  obtain ⟨hBorrow, hLimbs⟩ := difference_of_sum rfl hBack hSum hDifference
  rw [hSub, hBorrow, hLimbs]

/-- Adding what was subtracted leaves the first operand, and carries the borrow. -/
theorem addInto_takes_back (hAlu : alu.Lawful) {b : Limb w} (hShort : ys.length ≤ xs.length)
    (hLength : xs.length ≤ result.length) (hLow : low.length = xs.length)
    (hDifference : value low + value ys
      = value xs + b.toNat * radix (w.bits * xs.length)) :
    addInto alu result low ys = .ok ⟨b, xs ++ result.drop xs.length⟩ := by
  rw [← hLow] at hShort hLength
  obtain ⟨carry, back, hAdd, hBack, hSum⟩ := addInto_exact hAlu hShort hLength
  rw [hLow] at hAdd hBack hSum
  obtain ⟨hCarry, hLimbs⟩ := sum_of_difference rfl hBack hDifference hSum
  rw [hAdd, hCarry, hLimbs]

-- ---------------------------------------------------------------------------
-- Equal lengths
-- ---------------------------------------------------------------------------

/-- Above an operand of full length there is nothing for the carry to go through. -/
theorem joined_nil {low : Checked (Swept w)} {high : Limb w → Checked (Swept w)}
    (hHigh : ∀ c, high c = .ok ⟨c, []⟩) : joined low high = low := by
  rcases low with fault | s
  · rfl
  · change (high s.carry >>= _) = _
    rw [hHigh, ok_bind, List.append_nil]
    rfl

theorem mixed_eq_same (same : Limbs w → Limbs w → Checked (Swept w))
    {limb : Limbs w → Limb w → Checked (Swept w)} (hNothing : ∀ c, limb [] c = .ok ⟨c, []⟩)
    (hSame : xs.length = ys.length) :
    (do require (ys.length ≤ xs.length) .operandTooLong
        joined (same (xs.take ys.length) ys) (limb (xs.drop ys.length))) = same xs ys := by
  rw [require_pos (le_of_eq hSame.symm), ok_bind, ← hSame, List.take_length, List.drop_length]
  exact joined_nil hNothing

theorem add_eq_addSame (alu : Alu w) (hSame : xs.length = ys.length) :
    add alu xs ys = addSame alu xs ys := by
  have hNothing : ∀ c, addLimb alu [] c = .ok ⟨c, []⟩ := fun _ => rfl
  exact mixed_eq_same (addSame alu) hNothing hSame

theorem sub_eq_subSame (alu : Alu w) (hSame : xs.length = ys.length) :
    sub alu xs ys = subSame alu xs ys := by
  have hNothing : ∀ c, subLimb alu [] c = .ok ⟨c, []⟩ := fun _ => rfl
  exact mixed_eq_same (subSame alu) hNothing hSame

theorem addInto_eq_addSameInto (alu : Alu w) (hSame : xs.length = ys.length)
    (hLength : xs.length ≤ result.length) :
    addInto alu result xs ys = addSameInto alu result xs ys := by
  rw [addInto_eq_onto alu ys hLength, addSameInto_eq_onto alu ys hLength, add_eq_addSame alu hSame]

theorem subInto_eq_subSameInto (alu : Alu w) (hSame : xs.length = ys.length)
    (hLength : xs.length ≤ result.length) :
    subInto alu result xs ys = subSameInto alu result xs ys := by
  rw [subInto_eq_onto alu ys hLength, subSameInto_eq_onto alu ys hLength, sub_eq_subSame alu hSame]

-- ---------------------------------------------------------------------------
-- Both operations
-- ---------------------------------------------------------------------------

/-- **Sums and differences are exact and undo each other.** Whatever the limbs, and with a second
operand of any length up to that of the first: the sum answers with a carry of at most one and the
limbs of the exact sum, the difference with a borrow of at most one, set exactly if the first operand
is the smaller one, and the limbs of the exact difference. Limbs of the result above the first
operand stay. Each operation, run over the limbs that the other left, restores the first operand and
answers with the same carry. For equal lengths these are the operations on equal lengths. -/
theorem addInto_subInto_inverse (impl : Implementation w) (hShort : ys.length ≤ xs.length)
    (hLength : xs.length ≤ result.length) :
    (∃ carry sum, addInto impl.alu result xs ys = .ok ⟨carry, sum ++ result.drop xs.length⟩ ∧
      sum.length = xs.length ∧ carry.toNat ≤ 1 ∧
      carry.toNat * radix (w.bits * xs.length) + value sum = value xs + value ys ∧
      ∀ other : Limbs w, xs.length ≤ other.length →
        subInto impl.alu other sum ys = .ok ⟨carry, xs ++ other.drop xs.length⟩) ∧
    (∃ borrow difference,
      subInto impl.alu result xs ys = .ok ⟨borrow, difference ++ result.drop xs.length⟩ ∧
      difference.length = xs.length ∧ borrow.toNat ≤ 1 ∧
      value difference + value ys = value xs + borrow.toNat * radix (w.bits * xs.length) ∧
      (borrow = 1 ↔ value xs < value ys) ∧
      ∀ other : Limbs w, xs.length ≤ other.length →
        addInto impl.alu other difference ys = .ok ⟨borrow, xs ++ other.drop xs.length⟩) ∧
    (xs.length = ys.length →
      addInto impl.alu result xs ys = addSameInto impl.alu result xs ys ∧
      subInto impl.alu result xs ys = subSameInto impl.alu result xs ys) := by
  have hAlu := impl.lawful
  refine ⟨?_, ?_, ?_⟩
  · obtain ⟨carry, sum, hAdd, hLow, hSum⟩ := addInto_exact hAlu hShort hLength
    refine ⟨carry, sum, hAdd, hLow, sum_carry_le_one hShort hSum, hSum, ?_⟩
    intro other hOther
    exact subInto_takes_back hAlu hShort hOther hLow hSum
  · obtain ⟨borrow, difference, hSub, hLow, hDifference⟩ := subInto_exact hAlu hShort hLength
    obtain ⟨hBorrow, hSmaller⟩ := difference_borrow hShort hLow hDifference
    refine ⟨borrow, difference, hSub, hLow, hBorrow, hDifference, hSmaller, ?_⟩
    intro other hOther
    exact addInto_takes_back hAlu hShort hOther hLow hDifference
  · intro hSame
    exact ⟨addInto_eq_addSameInto impl.alu hSame hLength,
      subInto_eq_subSameInto impl.alu hSame hLength⟩

/-- One is taken from an array of zeros that is longer, in a result with a limb to spare: the borrow
goes through the whole of it, and adding one again carries all the way. -/
theorem addInto_subInto_inverse_rippling :
    ([1] : Limbs .w32).length ≤ ([0, 0, 0] : Limbs .w32).length ∧
      ([0, 0, 0] : Limbs .w32).length ≤ ([1, 2, 3, 4] : Limbs .w32).length ∧
      ∃ borrow difference,
        subInto (Implementation.portable .w32).alu [1, 2, 3, 4] [0, 0, 0] [1]
          = .ok ⟨borrow, difference ++ [4]⟩ ∧
        borrow = 1 ∧
        addInto (Implementation.portable .w32).alu [1, 2, 3, 4] difference [1]
          = .ok ⟨borrow, [0, 0, 0, 4]⟩ := by
  have hShort : ([1] : Limbs .w32).length ≤ ([0, 0, 0] : Limbs .w32).length := by decide
  have hLength : ([0, 0, 0] : Limbs .w32).length ≤ ([1, 2, 3, 4] : Limbs .w32).length := by decide
  obtain ⟨-, ⟨borrow, difference, hSub, -, -, -, hSmaller, hBack⟩, -⟩ :=
    addInto_subInto_inverse (.portable .w32) hShort hLength
  exact ⟨hShort, hLength, borrow, difference, hSub, hSmaller.mpr (by decide), hBack _ hLength⟩

end LimbArith.Limbs
