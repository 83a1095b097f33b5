import LimbArith.Proofs.Limbs.Product

/-!
# LimbArith — accumulated rows are exact and undo each other

A row of a product is added to an accumulator, or subtracted from it, with a
whole limb as the running carry. Each position is at the edge of what two limbs
hold, and still nothing is lost: the carry out and the new limbs are the exact
sum, the borrow out and the new limbs the exact difference.

An exact row can be taken back. The row the other way starts from the new limbs
and has one number to reach, the old limbs with the same carry on top; a number
has only one upper part and one list of lower digits.

Main results:

* `mulSubLimb_exact` — the row that subtracts; the one that adds is
  `mulAddLimb_exact`.
* `mulSubLimb_takes_back`, `mulAddLimb_takes_back` — a row the other way.
* `mulAddLimb_mulSubLimb_inverse` — both rows, and both orders.
-/

namespace LimbArith.Limbs

variable {w : Width} {alu : Alu w} {acc xs low : Limbs w}

-- ---------------------------------------------------------------------------
-- The row that subtracts
-- ---------------------------------------------------------------------------

theorem mulSubLimb_exact (hAlu : alu.Lawful) (y : Limb w) (hLength : xs.length ≤ acc.length) :
    ∃ borrow low, mulSubLimb alu acc xs y = .ok ⟨borrow, low ++ acc.drop xs.length⟩ ∧
      low.length = xs.length ∧
      value low + value xs * y.toNat
        = value (acc.take xs.length) + borrow.toNat * radix (w.bits * xs.length) := by
  have hStep : StepSubtracts (fun _ => True) (fun r _ => r.toNat)
      (fun _ x => (id x).toNat * y.toNat) (fun r x borrow => alu.mulSub r x y borrow) := by
    intro r x c _
    obtain ⟨s, hOk, hDifference⟩ := hAlu.mulSub r x y c
    exact ⟨s, hOk, trivial, hDifference⟩
  obtain ⟨borrow, low, hOk, hLow, -, hValue⟩ :=
    sweepInto_difference hStep hLength (c := 0) trivial
  refine ⟨borrow, low, ?_, hLow, ?_⟩
  · rw [mulSubLimb, require_pos hLength, ok_bind, hOk]
  · rw [total_mul, total_inputs hLength, total_result hLength, List.map_id, toNat_zero,
      Nat.add_zero] at hValue
    exact hValue

-- ---------------------------------------------------------------------------
-- Rows the other way
-- ---------------------------------------------------------------------------

/-- Subtracting the row that was added leaves the limbs from before, and borrows its carry. -/
theorem mulSubLimb_takes_back (hAlu : alu.Lawful) (y : Limb w) {c : Limb w}
    (hLength : xs.length ≤ acc.length) (hLow : low.length = xs.length)
    (hSum : c.toNat * radix (w.bits * xs.length) + value low
      = value (acc.take xs.length) + value xs * y.toNat) :
    mulSubLimb alu (low ++ acc.drop xs.length) xs y = .ok ⟨c, acc⟩ := by
  have hRoom : xs.length ≤ (low ++ acc.drop xs.length).length := by simp [hLow]
  obtain ⟨borrow, back, hOk, hBack, hDifference⟩ := mulSubLimb_exact hAlu y hRoom
  rw [List.take_left' hLow] at hDifference
  obtain ⟨hBorrow, hLimbs⟩ :=
    difference_of_sum (List.length_take_of_le hLength) hBack hSum hDifference
  rw [hOk, hBorrow, hLimbs, List.drop_left' hLow, List.take_append_drop]

/-- Adding the row that was subtracted leaves the limbs from before, and carries its borrow. -/
theorem mulAddLimb_takes_back (hAlu : alu.Lawful) (y : Limb w) {c : Limb w}
    (hLength : xs.length ≤ acc.length) (hLow : low.length = xs.length)
    (hDifference : value low + value xs * y.toNat
      = value (acc.take xs.length) + c.toNat * radix (w.bits * xs.length)) :
    mulAddLimb alu (low ++ acc.drop xs.length) xs y = .ok ⟨c, acc⟩ := by
  have hRoom : xs.length ≤ (low ++ acc.drop xs.length).length := by simp [hLow]
  obtain ⟨carry, back, hOk, hBack, hSum⟩ := mulAddLimb_exact hAlu y hRoom
  rw [List.take_left' hLow] at hSum
  obtain ⟨hCarry, hLimbs⟩ :=
    sum_of_difference (List.length_take_of_le hLength) hBack hDifference hSum
  rw [hOk, hCarry, hLimbs, List.drop_left' hLow, List.take_append_drop]

-- ---------------------------------------------------------------------------
-- Both rows
-- ---------------------------------------------------------------------------

/-- **Accumulated rows are exact and undo each other.** Whatever the limbs, the row that adds
answers with the carry and the limbs of the exact sum, and the row that subtracts with the borrow
and the limbs of the exact difference; limbs above the row stay. Each row, run over what the other
left, restores the accumulator and answers with the same limb. -/
theorem mulAddLimb_mulSubLimb_inverse (impl : Implementation w) (y : Limb w)
    (hLength : xs.length ≤ acc.length) :
    (∃ carry sum, mulAddLimb impl.alu acc xs y = .ok ⟨carry, sum⟩ ∧
      sum.length = acc.length ∧
      carry.toNat * radix (w.bits * xs.length) + value (sum.take xs.length)
        = value (acc.take xs.length) + value xs * y.toNat ∧
      sum.drop xs.length = acc.drop xs.length ∧
      mulSubLimb impl.alu sum xs y = .ok ⟨carry, acc⟩) ∧
    ∃ borrow difference, mulSubLimb impl.alu acc xs y = .ok ⟨borrow, difference⟩ ∧
      difference.length = acc.length ∧
      value (difference.take xs.length) + value xs * y.toNat
        = value (acc.take xs.length) + borrow.toNat * radix (w.bits * xs.length) ∧
      difference.drop xs.length = acc.drop xs.length ∧
      mulAddLimb impl.alu difference xs y = .ok ⟨borrow, acc⟩ := by
  have hAlu := impl.lawful
  obtain ⟨carry, low, hAdd, hLow, hSum⟩ := mulAddLimb_exact hAlu y hLength
  obtain ⟨borrow, rest, hSub, hRest, hDifference⟩ := mulSubLimb_exact hAlu y hLength
  refine ⟨⟨carry, low ++ acc.drop xs.length, hAdd, ?_, ?_, List.drop_left' hLow,
      mulSubLimb_takes_back hAlu y hLength hLow hSum⟩,
    borrow, rest ++ acc.drop xs.length, hSub, ?_, ?_, List.drop_left' hRest,
      mulAddLimb_takes_back hAlu y hLength hRest hDifference⟩
  · simp [hLow, hLength]
  · rw [List.take_left' hLow, hSum]
  · simp [hRest, hLength]
  · rw [List.take_left' hRest, hDifference]

/-- A row of the largest limbs over zeros, in an accumulator with a limb above: the difference
borrows as much as a limb holds, and the sum over it carries the same. -/
theorem mulAddLimb_mulSubLimb_inverse_largest :
    ([-1, -1] : Limbs .w32).length ≤ ([0, 0, 7] : Limbs .w32).length ∧
      ∃ borrow difference,
        mulSubLimb (Implementation.portable .w32).alu [0, 0, 7] [-1, -1] (-1)
          = .ok ⟨borrow, difference⟩ ∧
        difference.drop 2 = [7] ∧
        mulAddLimb (Implementation.portable .w32).alu difference [-1, -1] (-1)
          = .ok ⟨borrow, [0, 0, 7]⟩ := by
  have hLength : ([-1, -1] : Limbs .w32).length ≤ ([0, 0, 7] : Limbs .w32).length := by decide
  obtain ⟨-, borrow, difference, hSub, -, -, hAbove, hBack⟩ :=
    mulAddLimb_mulSubLimb_inverse (.portable .w32) (-1) hLength
  exact ⟨hLength, borrow, difference, hSub, hAbove, hBack⟩

end LimbArith.Limbs
