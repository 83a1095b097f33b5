import LimbArith.Proofs.Limbs.SumInverse

/-!
# LimbArith — sums and differences with a limb

A limb enters an array as the carry into the lowest position. There it is a whole
limb, and from the first position on a carry of at most one; in an empty array
there is no first position, and the limb comes out as it went in.

The equation of the whole chain does not see the difference, and it is enough.
Where there is a limb to add to, the sum is one of two arrays of which the second
has one limb, and its carry is bounded by that of two arrays. Without any, the
equation leaves the limb itself.

Main results:

* `subLimbInto_exact` — the difference; the sum is `addLimbInto_exact`.
* `limb_carry`, `limb_borrow` — what leaves at the top.
* `subLimbInto_takes_back` — the difference over a sum.
* `addLimbInto_subLimbInto_inverse` — both operations.
-/

namespace LimbArith.Limbs

variable {w : Width} {alu : Alu w} {result xs low : Limbs w} {y : Limb w}

theorem subLimbInto_exact (hAlu : alu.Lawful) (y : Limb w) (hLength : xs.length ≤ result.length) :
    ∃ borrow low, subLimbInto alu result xs y = .ok ⟨borrow, low ++ result.drop xs.length⟩ ∧
      low.length = xs.length ∧
      value low + y.toNat = value xs + borrow.toNat * radix (w.bits * xs.length) := by
  obtain ⟨borrow, low, hSub, hLow, hDifference⟩ := subLimb_exact hAlu xs y
  refine ⟨borrow, low, ?_, hLow, hDifference⟩
  rw [subLimbInto_eq_onto alu y hLength, hSub, Swept.onto_ok hLow]

-- ---------------------------------------------------------------------------
-- What leaves at the top
-- ---------------------------------------------------------------------------

/-- Where there is no limb, there is no array either. -/
theorem value_of_empty (hEmpty : xs = []) (hLow : low.length = xs.length) :
    value low = 0 ∧ value xs = 0 ∧ radix (w.bits * xs.length) = 1 := by
  subst hEmpty
  rw [List.eq_nil_of_length_eq_zero hLow]
  exact ⟨rfl, rfl, rfl⟩

/-- A sum with a limb carries at most one, or the limb itself if there is nothing to add it to. -/
theorem limb_carry {c : Limb w} (hLow : low.length = xs.length)
    (hSum : c.toNat * radix (w.bits * xs.length) + value low = value xs + y.toNat) :
    (xs ≠ [] → c.toNat ≤ 1) ∧ (xs = [] → c = y) := by
  refine ⟨?_, ?_⟩
  · intro hNonempty
    have hShort : [y].length ≤ xs.length := List.length_pos_iff.mpr hNonempty
    rw [← value_singleton y] at hSum
    exact sum_carry_le_one hShort hSum
  · intro hEmpty
    obtain ⟨hZero, hNothing, hRadix⟩ := value_of_empty hEmpty hLow
    rw [hZero, hNothing, hRadix] at hSum
    exact BitVec.eq_of_toNat_eq (by omega)

/-- A difference with a limb borrows exactly if it is negative: at most one, or the limb itself if
there is nothing to take it from. -/
theorem limb_borrow {b : Limb w} (hLow : low.length = xs.length)
    (hDifference : value low + y.toNat
      = value xs + b.toNat * radix (w.bits * xs.length)) :
    (xs ≠ [] → b.toNat ≤ 1) ∧ (xs = [] → b = y) ∧ (b ≠ 0 ↔ value xs < y.toNat) := by
  refine ⟨?_, ?_, ?_⟩
  · intro hNonempty
    have hShort : [y].length ≤ xs.length := List.length_pos_iff.mpr hNonempty
    rw [← value_singleton y] at hDifference
    exact (difference_borrow hShort hLow hDifference).1
  · intro hEmpty
    obtain ⟨hZero, hNothing, hRadix⟩ := value_of_empty hEmpty hLow
    rw [hZero, hNothing, hRadix] at hDifference
    exact BitVec.eq_of_toNat_eq (by omega)
  · have hLimbs : value low < radix (w.bits * xs.length) :=
      Digits.value_lt_of_length_le (le_of_eq hLow)
    rw [ne_eq, BitVec.toNat_eq, toNat_zero]
    constructor
    · intro hBorrow
      have := Nat.le_mul_of_pos_left (radix (w.bits * xs.length)) (Nat.pos_of_ne_zero hBorrow)
      omega
    · intro hLess hNone
      rw [hNone, Nat.zero_mul] at hDifference
      omega

-- ---------------------------------------------------------------------------
-- The difference over a sum
-- ---------------------------------------------------------------------------

/-- Subtracting the limb that was added leaves the array, and borrows the carry. -/
theorem subLimbInto_takes_back (hAlu : alu.Lawful) {c : Limb w}
    (hLength : xs.length ≤ result.length) (hLow : low.length = xs.length)
    (hSum : c.toNat * radix (w.bits * xs.length) + value low = value xs + y.toNat) :
    subLimbInto alu result low y = .ok ⟨c, xs ++ result.drop xs.length⟩ := by
  rw [← hLow] at hLength
  obtain ⟨borrow, back, hSub, hBack, hDifference⟩ := subLimbInto_exact hAlu y hLength
  rw [hLow] at hSub hBack hDifference
  obtain ⟨hBorrow, hLimbs⟩ := difference_of_sum rfl hBack hSum hDifference
  rw [hSub, hBorrow, hLimbs]

/-- **Sums and differences with a limb are exact at every length.** For every implementation of the
primitives, whatever the limbs and the length of the array, none at all included: the carry and the
limbs of the sum are the exact sum, the borrow and the limbs of the difference the exact difference,
and limbs of the result above the array stay. What leaves at the top is at most one, or the limb
itself if the array is empty. A difference borrows exactly if the array is below the limb, and the
difference over a sum restores the array and borrows the carry. -/
theorem addLimbInto_subLimbInto_inverse (impl : Implementation w) (y : Limb w)
    (hLength : xs.length ≤ result.length) :
    (∃ carry sum, addLimbInto impl.alu result xs y = .ok ⟨carry, sum ++ result.drop xs.length⟩ ∧
      sum.length = xs.length ∧
      carry.toNat * radix (w.bits * xs.length) + value sum = value xs + y.toNat ∧
      (xs ≠ [] → carry.toNat ≤ 1) ∧ (xs = [] → carry = y) ∧
      ∀ other : Limbs w, xs.length ≤ other.length →
        subLimbInto impl.alu other sum y = .ok ⟨carry, xs ++ other.drop xs.length⟩) ∧
    ∃ borrow difference,
      subLimbInto impl.alu result xs y = .ok ⟨borrow, difference ++ result.drop xs.length⟩ ∧
      difference.length = xs.length ∧
      value difference + y.toNat
        = value xs + borrow.toNat * radix (w.bits * xs.length) ∧
      (xs ≠ [] → borrow.toNat ≤ 1) ∧ (xs = [] → borrow = y) ∧
      (borrow ≠ 0 ↔ value xs < y.toNat) := by
  have hAlu := impl.lawful
  refine ⟨?_, ?_⟩
  · obtain ⟨carry, sum, hAdd, hLow, hSum⟩ := addLimbInto_exact hAlu y hLength
    obtain ⟨hNonempty, hEmpty⟩ := limb_carry hLow hSum
    refine ⟨carry, sum, hAdd, hLow, hSum, hNonempty, hEmpty, ?_⟩
    intro other hOther
    exact subLimbInto_takes_back hAlu hOther hLow hSum
  · obtain ⟨borrow, difference, hSub, hLow, hDifference⟩ := subLimbInto_exact hAlu y hLength
    exact ⟨borrow, difference, hSub, hLow, hDifference, limb_borrow hLow hDifference⟩

/-- The largest limb added to the largest array carries through the whole of it and is taken back,
and in an empty array it comes out as it is. -/
theorem addLimbInto_subLimbInto_inverse_largest :
    ([-1, -1] : Limbs .w32).length ≤ ([5, 6, 7] : Limbs .w32).length ∧
      ([] : Limbs .w32).length ≤ ([7] : Limbs .w32).length ∧
      (∃ carry sum,
        addLimbInto (Implementation.portable .w32).alu [5, 6, 7] [-1, -1] (-1)
          = .ok ⟨carry, sum ++ [7]⟩ ∧
        carry.toNat ≤ 1 ∧
        subLimbInto (Implementation.portable .w32).alu [5, 6, 7] sum (-1)
          = .ok ⟨carry, [-1, -1, 7]⟩) ∧
      ∃ difference, subLimbInto (Implementation.portable .w32).alu [7] [] (-1)
        = .ok ⟨-1, difference ++ [7]⟩ := by
  have hLength : ([-1, -1] : Limbs .w32).length ≤ ([5, 6, 7] : Limbs .w32).length := by decide
  have hEmpty : ([] : Limbs .w32).length ≤ ([7] : Limbs .w32).length := by decide
  obtain ⟨⟨carry, sum, hAdd, -, -, hCarry, -, hBack⟩, -⟩ :=
    addLimbInto_subLimbInto_inverse (.portable .w32) (-1) hLength
  obtain ⟨-, borrow, difference, hSub, -, -, -, hLimb, -⟩ :=
    addLimbInto_subLimbInto_inverse (.portable .w32) (-1) hEmpty
  have hBorrow : borrow = -1 := hLimb rfl
  subst hBorrow
  exact ⟨hLength, hEmpty, ⟨carry, sum, hAdd, hCarry (by decide), hBack _ hLength⟩, difference, hSub⟩

end LimbArith.Limbs
