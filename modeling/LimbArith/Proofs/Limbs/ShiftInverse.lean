import LimbArith.Proofs.Limbs.InPlace
import LimbArith.Proofs.Limbs.Shift

/-!
# LimbArith — shifts divide, and undo each other

A right shift goes through the array from the top down, and its carry is the
whole limb above. What counts of it are the bits that leave that limb at the
bottom; they arrive at the top of the limb below. So a limb and the bits that
leave it are what is due at its position and what came in from above, and the
last carry holds the bits that the whole array loses.

A left shift loses its bits at the top. The right shift over what it leaves loses
none, and has zeros in their place: put back into the top limb, they make the
array from before.

Main results:

* `sweepDown_exact` — a loop from the top down, from what one step does.
* `rightStep_exact`, `shiftRight_exact` — one position and the whole array.
* `shiftRight_quotient` — the quotient, and where the remainder is.
* `putBack`, `putBack_exact` — the bits that a left shift lost.
* `shiftInto_inverse` — both shifts, and the right one after the left one.
-/

namespace LimbArith.Limbs

variable {w : Width} {count : ℕ} {result xs : Limbs w}

-- ---------------------------------------------------------------------------
-- Loops from the top down
-- ---------------------------------------------------------------------------

/-- Every step turns `x * factor` and what came in above into a limb and what leaves it below, which
is the `weight` of its carry. -/
def StepDivides (weight : Limb w → ℕ) (factor : ℕ)
    (step : Limb w → Limb w → Checked (Carried w)) : Prop :=
  ∀ x above, ∃ s, step x above = .ok s ∧
    s.limb.toNat * radix w.bits + weight s.carry
      = x.toNat * factor + weight above * radix w.bits

/-- A loop whose steps divide does so with the whole array. -/
theorem sweepDown_exact {step : Limb w → Limb w → Checked (Carried w)} {weight : Limb w → ℕ}
    {factor : ℕ} (hStep : StepDivides weight factor step) (xs : Limbs w) (c : Limb w) :
    ∃ carry low, sweepDown step xs c = .ok ⟨carry, low⟩ ∧ low.length = xs.length ∧
      value low * radix w.bits + weight carry
        = value xs * factor + weight c * radix (w.bits * xs.length) := by
  induction xs with
  | nil =>
    refine ⟨c, [], rfl, rfl, ?_⟩
    rw [value_nil, List.length_nil, Nat.mul_zero, radix_zero]
    omega
  | cons x xs ih =>
    -- the carry out of the limbs above is the carry into this position
    obtain ⟨carry, low, hAbove, hLow, hRest⟩ := ih
    obtain ⟨here, hHere, hBalance⟩ := hStep x carry
    refine ⟨here.carry, here.limb :: low, ?_, by rw [List.length_cons, List.length_cons, hLow], ?_⟩
    · rw [sweepDown, hAbove]
      simp only [ok_bind, hHere]
      rfl
    · rw [value_cons, value_cons, List.length_cons, radix_mul_succ]
      linear_combination hBalance + radix w.bits * hRest

-- ---------------------------------------------------------------------------
-- Right shifts
-- ---------------------------------------------------------------------------

theorem rightOut_toNat (hCount : count < w.bits) (x : Limb w) :
    (rightOut count x).toNat = 2 ^ (w.bits - count) * (x.toNat % 2 ^ count) := by
  have hDistance : 1 + (w.bits - 1 - count) = w.bits - count := by omega
  rw [rightOut, ← BitVec.shiftLeft_add, hDistance, BitVec.toNat_shiftLeft, Nat.shiftLeft_eq,
    Nat.mul_comm, ← Nat.mul_mod_mul_left, Nat.mul_comm (2 ^ (w.bits - count)) (2 ^ count),
    ← radix_split_at hCount]
  rfl

theorem rightStep_exact (hCount : count < w.bits) (x above : Limb w) :
    (rightStep count x above).limb.toNat * radix w.bits + (rightOut count x).toNat
      = x.toNat * 2 ^ (w.bits - count) + (rightOut count above).toNat * radix w.bits := by
  have hStays : (x >>> count).toNat = x.toNat / 2 ^ count := by
    rw [BitVec.toNat_ushiftRight, Nat.shiftRight_eq_div_pow]
  have hBelow : x.toNat / 2 ^ count < 2 ^ (w.bits - count) := by
    rw [Nat.div_lt_iff_lt_mul (Nat.two_pow_pos _), Nat.mul_comm, ← radix_split_at hCount]
    exact toNat_lt_radix x
  -- the bits from above fill the zeros of the shifted limb
  have hFill : (rightStep count x above).limb.toNat
      = (rightOut count above).toNat + x.toNat / 2 ^ count := by
    rw [rightStep, BitVec.toNat_or, Nat.or_comm, hStays, rightOut_toNat hCount,
      Nat.two_pow_add_eq_or_of_lt hBelow]
  have hParts := Nat.div_add_mod x.toNat (2 ^ count)
  rw [hFill, rightOut_toNat hCount x, radix_split_at hCount]
  linear_combination 2 ^ (w.bits - count) * hParts

theorem shiftRight_exact (hCount : count < w.bits) (xs : Limbs w) :
    ∃ out shifted, shiftRight xs count = .ok ⟨out, shifted⟩ ∧ shifted.length = xs.length ∧
      value shifted * radix w.bits + out.toNat = value xs * 2 ^ (w.bits - count) := by
  have hStep : StepDivides (fun c => (rightOut count c).toNat) (2 ^ (w.bits - count))
      (fun x above : Limb w => pure (rightStep count x above)) :=
    fun x above => ⟨_, rfl, rightStep_exact hCount x above⟩
  obtain ⟨bottom, shifted, hOk, hLength, hValue⟩ := sweepDown_exact hStep xs 0
  have hNothing : (rightOut count (0 : Limb w)).toNat = 0 := by
    rw [rightOut_toNat hCount, toNat_zero, Nat.zero_mod, Nat.mul_zero]
  refine ⟨rightOut count bottom, shifted, ?_, hLength, ?_⟩
  · rw [shiftRight, require_pos hCount, ok_bind, hOk]
    rfl
  · rw [hValue, hNothing, Nat.zero_mul, Nat.add_zero]

/-- The limbs are the quotient, and the remainder stands at the top of what leaves. -/
theorem shiftRight_quotient (hCount : count < w.bits) {out : Limb w} {shifted : Limbs w}
    (hValue : value shifted * radix w.bits + out.toNat = value xs * 2 ^ (w.bits - count)) :
    value shifted = value xs / 2 ^ count ∧
      out.toNat = value xs % 2 ^ count * 2 ^ (w.bits - count) := by
  have hRemainder : value xs % 2 ^ count * 2 ^ (w.bits - count) < radix w.bits := by
    rw [radix_split_at hCount]
    exact Nat.mul_lt_mul_of_pos_right (Nat.mod_lt _ (Nat.two_pow_pos _)) (Nat.two_pow_pos _)
  have hParts := Nat.div_add_mod (value xs) (2 ^ count)
  refine high_low_unique (toNat_lt_radix out) hRemainder ?_
  rw [hValue, radix_split_at hCount]
  linear_combination 2 ^ (w.bits - count) * hParts.symm

-- ---------------------------------------------------------------------------
-- With a result
-- ---------------------------------------------------------------------------

theorem shiftLeftInto_exact (hCount : count < w.bits) (hLength : xs.length ≤ result.length) :
    ∃ out shifted, shiftLeftInto result xs count = .ok ⟨out, shifted ++ result.drop xs.length⟩ ∧
      shifted.length = xs.length ∧
      out.toNat * radix (w.bits * xs.length) + value shifted = value xs * 2 ^ count := by
  obtain ⟨out, shifted, hOk, hShifted, hValue⟩ := shiftLeft_exact hCount xs
  refine ⟨out, shifted, ?_, hShifted, hValue⟩
  rw [shiftLeftInto_eq_onto count hLength, hOk, Swept.onto_ok hShifted]

theorem shiftRightInto_exact (hCount : count < w.bits) (hLength : xs.length ≤ result.length) :
    ∃ out shifted, shiftRightInto result xs count = .ok ⟨out, shifted ++ result.drop xs.length⟩ ∧
      shifted.length = xs.length ∧
      value shifted * radix w.bits + out.toNat = value xs * 2 ^ (w.bits - count) := by
  obtain ⟨out, shifted, hOk, hShifted, hValue⟩ := shiftRight_exact hCount xs
  refine ⟨out, shifted, ?_, hShifted, hValue⟩
  rw [shiftRightInto_eq_onto count hLength, hOk, Swept.onto_ok hShifted]

-- ---------------------------------------------------------------------------
-- The right shift after the left one
-- ---------------------------------------------------------------------------

/-- Puts the bits that a left shift moved out back to the top of an array, where the right shift by
as much has left zeros. -/
def putBack (count : ℕ) (out : Limb w) (xs : Limbs w) : Limbs w :=
  xs.modify (xs.length - 1) (· ||| rightOut count out)

/-- The right shift of what a left shift left loses nothing, and falls short of the array by the bits
that left it, counted at their old place. -/
theorem shiftRight_takes_back (hCount : count < w.bits) {n : ℕ} (hLength : xs.length = n + 1)
    {out lost : Limb w} {shifted back : Limbs w}
    (hLeft : out.toNat * radix (w.bits * xs.length) + value shifted = value xs * 2 ^ count)
    (hRight : value back * radix w.bits + lost.toNat = value shifted * 2 ^ (w.bits - count)) :
    value back + radix (w.bits * n) * (2 ^ (w.bits - count) * out.toNat) = value xs ∧
      lost.toNat = 0 := by
  refine high_low_unique (toNat_lt_radix lost) (radix_pos w.bits) ?_
  have hSplit := radix_split_at hCount
  rw [hLength, radix_mul_succ] at hLeft
  calc (value back + radix (w.bits * n) * (2 ^ (w.bits - count) * out.toNat)) * radix w.bits
        + lost.toNat
      = (out.toNat * (radix w.bits * radix (w.bits * n)) + value shifted)
          * 2 ^ (w.bits - count) := by linear_combination hRight
    _ = value xs * radix w.bits + 0 := by
        rw [hLeft, hSplit]
        ring

/-- A digit at the top is small if the number is. -/
theorem digit_lt {n m : ℕ} {ds : Limbs w} (h : n < ds.length)
    (hValue : value ds < radix (w.bits * n) * m) : ds[n].toNat < m := by
  rw [value, Digits.value_eq_around h, Nat.mul_add] at hValue
  have hPlace : radix (w.bits * n) * ds[n].toNat < radix (w.bits * n) * m := by omega
  exact Nat.lt_of_mul_lt_mul_left hPlace

/-- The bits fit the zeros, so that putting them back adds them at their place. -/
theorem putBack_exact (hCount : count < w.bits) {n : ℕ} {out : Limb w} {back : Limbs w}
    (hLength : back.length = n + 1) (hOut : out.toNat < 2 ^ count)
    (hZeros : value back < radix (w.bits * n) * 2 ^ (w.bits - count)) :
    value (putBack count out back)
      = value back + radix (w.bits * n) * (2 ^ (w.bits - count) * out.toNat) := by
  have hTop : n < back.length := by omega
  have hLast : back.length - 1 = n := by omega
  rw [putBack, hLast]
  refine Digits.value_modify hTop ?_
  rw [BitVec.toNat_or, Nat.or_comm, rightOut_toNat hCount, Nat.mod_eq_of_lt hOut,
    ← Nat.two_pow_add_eq_or_of_lt (digit_lt hTop hZeros), Nat.add_comm]

/-- A right shift leaves as many zeros at the top as it moves bits out. -/
theorem shiftRight_zeros {n : ℕ} (hLength : xs.length = n + 1)
    {lost : Limb w} {back : Limbs w}
    (hRight : value back * radix w.bits + lost.toNat = value xs * 2 ^ (w.bits - count)) :
    value back < radix (w.bits * n) * 2 ^ (w.bits - count) := by
  have hxs := value_lt xs
  rw [hLength, radix_mul_succ] at hxs
  have hProduct : value back * radix w.bits
      < radix (w.bits * n) * 2 ^ (w.bits - count) * radix w.bits :=
    calc value back * radix w.bits ≤ value xs * 2 ^ (w.bits - count) := Nat.le.intro hRight
      _ < radix w.bits * radix (w.bits * n) * 2 ^ (w.bits - count) :=
        Nat.mul_lt_mul_of_pos_right hxs (Nat.two_pow_pos _)
      _ = radix (w.bits * n) * 2 ^ (w.bits - count) * radix w.bits := by ring
  exact Nat.lt_of_mul_lt_mul_right hProduct

/-- The right shift after the left one, with what left in between put back, is the array from
before. -/
theorem shiftRightInto_after_left (hCount : count < w.bits) (hLength : xs.length ≤ result.length)
    {out : Limb w} {shifted : Limbs w} (hShifted : shifted.length = xs.length)
    (hLeft : out.toNat * radix (w.bits * xs.length) + value shifted = value xs * 2 ^ count) :
    ∃ back, shiftRightInto result shifted count = .ok ⟨0, back ++ result.drop xs.length⟩ ∧
      back.length = xs.length ∧ putBack count out back = xs := by
  obtain ⟨lost, back, hOk, hBack, hRight⟩ :=
    shiftRightInto_exact hCount (hShifted ▸ hLength : shifted.length ≤ result.length)
  rw [hShifted] at hOk hBack
  by_cases hEmpty : xs = []
  -- nothing is shifted, and there is no limb to put anything back to
  · subst hEmpty
    have hNoLimbs : shifted = [] := List.eq_nil_of_length_eq_zero hShifted
    have hNone : back = [] := List.eq_nil_of_length_eq_zero hBack
    subst hNoLimbs hNone
    have hLost : lost = 0 := BitVec.eq_of_toNat_eq (by simpa using hRight)
    exact ⟨[], hLost ▸ hOk, rfl, rfl⟩
  · obtain ⟨n, hn⟩ := Nat.exists_eq_succ_of_ne_zero (mt List.eq_nil_of_length_eq_zero hEmpty)
    obtain ⟨hValue, hNothing⟩ := shiftRight_takes_back hCount hn hLeft hRight
    have hLost : lost = 0 := BitVec.eq_of_toNat_eq hNothing
    have hOut : out.toNat < 2 ^ count := carry_lt (Nat.two_pow_pos _) (Nat.le.intro hLeft)
    have hZeros := shiftRight_zeros (hShifted.trans hn) hRight
    have hPut := putBack_exact hCount (hBack.trans hn) hOut hZeros
    refine ⟨back, hLost ▸ hOk, hBack, Digits.eq_of_value_eq ?_ (hPut.trans hValue)⟩
    rw [putBack, List.length_modify, hBack]

-- ---------------------------------------------------------------------------
-- No shift
-- ---------------------------------------------------------------------------

theorem shiftLeftInto_zero (hLength : xs.length ≤ result.length) :
    shiftLeftInto result xs 0 = .ok ⟨0, xs ++ result.drop xs.length⟩ := by
  obtain ⟨out, shifted, hOk, hShifted, hValue⟩ := shiftLeftInto_exact (bits_pos w) hLength
  obtain ⟨hOut, hLimbs⟩ := carry_limbs_unique (d := 0) hShifted rfl
    (hValue.trans (by rw [toNat_zero, Nat.zero_mul, Nat.zero_add, Nat.pow_zero, Nat.mul_one]))
  rw [hOk, hOut, hLimbs]

theorem shiftRightInto_zero (hLength : xs.length ≤ result.length) :
    shiftRightInto result xs 0 = .ok ⟨0, xs ++ result.drop xs.length⟩ := by
  obtain ⟨out, shifted, hOk, hShifted, hValue⟩ := shiftRightInto_exact (bits_pos w) hLength
  obtain ⟨hQuotient, hRemainder⟩ := shiftRight_quotient (bits_pos w) hValue
  rw [Nat.pow_zero, Nat.div_one] at hQuotient
  rw [Nat.pow_zero, Nat.mod_one, Nat.zero_mul] at hRemainder
  have hOut : out = 0 := BitVec.eq_of_toNat_eq hRemainder
  rw [hOk, hOut, Digits.eq_of_value_eq hShifted hQuotient]

-- ---------------------------------------------------------------------------
-- Both shifts
-- ---------------------------------------------------------------------------

/-- **Shifts are exact and undo each other.** For every array and every distance below the width, the
left shift answers with what the product by a power of two has above the array and leaves the rest
of it, and the right shift leaves the quotient and answers with the remainder at the top of a limb.
Limbs of the result above the array stay. The right shift over the limbs that the left one left
loses nothing, and with the bits that left in between put back at the top it restores the array. A
shift by nothing copies the array. -/
theorem shiftInto_inverse (hCount : count < w.bits) (hLength : xs.length ≤ result.length) :
    (∃ out shifted,
      shiftLeftInto result xs count = .ok ⟨out, shifted ++ result.drop xs.length⟩ ∧
      shifted.length = xs.length ∧
      out.toNat * radix (w.bits * xs.length) + value shifted = value xs * 2 ^ count ∧
      ∀ other : Limbs w, xs.length ≤ other.length → ∃ back,
        shiftRightInto other shifted count = .ok ⟨0, back ++ other.drop xs.length⟩ ∧
        back.length = xs.length ∧ putBack count out back = xs) ∧
    (∃ out shifted,
      shiftRightInto result xs count = .ok ⟨out, shifted ++ result.drop xs.length⟩ ∧
      shifted.length = xs.length ∧
      value shifted * radix w.bits + out.toNat = value xs * 2 ^ (w.bits - count) ∧
      value shifted = value xs / 2 ^ count ∧
      out.toNat = value xs % 2 ^ count * 2 ^ (w.bits - count)) ∧
    (count = 0 →
      shiftLeftInto result xs count = .ok ⟨0, xs ++ result.drop xs.length⟩ ∧
      shiftRightInto result xs count = .ok ⟨0, xs ++ result.drop xs.length⟩) := by
  refine ⟨?_, ?_, ?_⟩
  · obtain ⟨out, shifted, hOk, hShifted, hLeft⟩ := shiftLeftInto_exact hCount hLength
    refine ⟨out, shifted, hOk, hShifted, hLeft, ?_⟩
    intro other hOther
    exact shiftRightInto_after_left hCount hOther hShifted hLeft
  · obtain ⟨out, shifted, hOk, hShifted, hRight⟩ := shiftRightInto_exact hCount hLength
    exact ⟨out, shifted, hOk, hShifted, hRight, shiftRight_quotient hCount hRight⟩
  · rintro rfl
    exact ⟨shiftLeftInto_zero hLength, shiftRightInto_zero hLength⟩

/-- Ones that leave the array at the top come back, by the longest distance and in a result with a
limb to spare. -/
theorem shiftInto_inverse_longest :
    31 < Width.w32.bits ∧
      ([5, -1] : Limbs .w32).length ≤ ([1, 2, 3] : Limbs .w32).length ∧
      ∃ out shifted, shiftLeftInto ([1, 2, 3] : Limbs .w32) [5, -1] 31
          = .ok ⟨out, shifted ++ [3]⟩ ∧
        ∃ back, shiftRightInto ([1, 2, 3] : Limbs .w32) shifted 31 = .ok ⟨0, back ++ [3]⟩ ∧
          putBack 31 out back = [5, -1] := by
  have hCount : 31 < Width.w32.bits := by decide
  have hLength : ([5, -1] : Limbs .w32).length ≤ ([1, 2, 3] : Limbs .w32).length := by decide
  obtain ⟨⟨out, shifted, hOk, -, -, hBack⟩, -⟩ := shiftInto_inverse hCount hLength
  obtain ⟨back, hRight, -, hPut⟩ := hBack _ hLength
  exact ⟨hCount, hLength, out, shifted, hOk, back, hRight, hPut⟩

end LimbArith.Limbs
