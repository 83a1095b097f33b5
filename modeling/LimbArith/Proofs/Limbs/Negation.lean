import LimbArith.Proofs.Limbs.Conditional
import LimbArith.Proofs.Limbs.Sum
import LimbArith.Proofs.Primitive.Portable

/-!
# LimbArith — negation is that of two's complement

A negation flips all bits and adds one, in a single carry chain. Flipped, an
array of `n` limbs falls short of `B ^ n` by its value and one, so the chain adds
up to `B ^ n` less the value: those are the limbs, and a carry leaves only where
the value is zero.

The same chain with a mask of zeros flips nothing and starts with no carry. With
the top bit as the condition it negates exactly the arrays that stand for a
negative integer, and leaves the magnitude of all. The magnitude of the most
negative integer is half of `B ^ n`, which fits without a sign.

Main results:

* `Digits.value_map_not` — the value of flipped digits.
* `negateIf_set`, `negateIf_unset` — the two cases as equations.
* `addSameInto_negated` — an array and its negation add up to zero.
* `signedValue`, `signedValue_eq` — the integer that an array stands for.
* `negateIf_exact` — negation, its inverse, and magnitudes.
-/

namespace LimbArith

-- ---------------------------------------------------------------------------
-- Numbers
-- ---------------------------------------------------------------------------

/-- Negation below a bound is its own inverse. -/
theorem negate_negate {b v : ℕ} (hv : v < b) : (b - (b - v) % b) % b = v := by
  rcases Nat.eq_zero_or_pos v with rfl | hPos
  · rw [Nat.sub_zero, Nat.mod_self, Nat.sub_zero, Nat.mod_self]
  · rw [Nat.mod_eq_of_lt (by omega : b - v < b), Nat.sub_sub_self (le_of_lt hv),
      Nat.mod_eq_of_lt hv]

/-- A number and its negation add up to nothing or to the bound. -/
theorem add_negate {b v : ℕ} (hv : v < b) : v + (b - v) % b = if v = 0 then 0 else b := by
  by_cases hZero : v = 0
  · rw [if_pos hZero, hZero, Nat.sub_zero, Nat.mod_self]
  · rw [if_neg hZero, Nat.mod_eq_of_lt (by omega)]
    omega

namespace Digits

/-- Flipped digits are what all ones exceed the digits by. -/
theorem value_map_not {k : ℕ} (ds : List (BitVec k)) :
    value (ds.map (~~~ ·)) + value ds + 1 = radix (k * ds.length) := by
  induction ds with
  | nil => rfl
  | cons d ds ih =>
    have hDigit : (~~~d).toNat + d.toNat + 1 = radix k := by
      have hd := toNat_lt_radix d
      have hNot : (~~~d).toNat = radix k - 1 - d.toNat := BitVec.toNat_not
      omega
    rw [List.map_cons, value_cons, value_cons, List.length_cons, radix_mul_succ]
    linear_combination hDigit + radix k * ih

end Digits

namespace Limbs

variable {w : Width} {alu : Alu w} {xs : Limbs w}

-- ---------------------------------------------------------------------------
-- Negation
-- ---------------------------------------------------------------------------

/-- The digits of the radix less the value: what is left when all limbs are flipped and one is
added. -/
def negated (xs : Limbs w) : Limbs w :=
  Digits.ofNat xs.length (radix (w.bits * xs.length) - value xs)

theorem length_negated (xs : Limbs w) : (negated xs).length = xs.length := Digits.length_ofNat ..

theorem value_negated (xs : Limbs w) :
    value (negated xs)
      = (radix (w.bits * xs.length) - value xs) % radix (w.bits * xs.length) :=
  Digits.value_ofNat ..

theorem negated_negated (xs : Limbs w) : negated (negated xs) = xs := by
  have hLength : (negated (negated xs)).length = xs.length := by
    rw [length_negated, length_negated]
  have hValue : value (negated (negated xs)) = value xs := by
    rw [value_negated, value_negated, length_negated, negate_negate (value_lt xs)]
  exact Digits.eq_of_value_eq hLength hValue

theorem negated_of_value_eq_zero (hZero : value xs = 0) : negated xs = xs := by
  have hValue : value (negated xs) = value xs := by
    rw [value_negated, hZero, Nat.sub_zero, Nat.mod_self]
  exact Digits.eq_of_value_eq (length_negated xs) hValue

/-- The chain of flipped limbs starts with a one, which makes up for what they fall short of the
radix. -/
theorem sweep_flipped (hAlu : alu.Lawful) (xs : Limbs w) :
    ∃ carry, sweep (fun x carry => pure (alu.add (~~~x) carry)) xs 1
      = .ok ⟨carry, negated xs⟩ := by
  have hStep : StepAdds (fun _ => True) BitVec.toNat (fun _ x => (~~~x).toNat)
      (fun _ x carry => pure (alu.add (~~~x) carry)) :=
    fun _ x c _ => ⟨_, rfl, trivial, hAlu.add (~~~x) c⟩
  obtain ⟨carry, low, hOk, hLow, -, hValue⟩ :=
    sweepInto_sum hStep (le_refl xs.length) (c := 1) trivial
  have hFlipped : value (xs.map (~~~ ·)) + value xs + 1 = radix (w.bits * xs.length) :=
    Digits.value_map_not xs
  have hSum : carry.toNat * radix (w.bits * xs.length) + value low
      = radix (w.bits * xs.length) - value xs := by
    rw [hValue, total_inputs (f := (~~~ ·)) (le_refl xs.length), toNat_one]
    omega
  have hLimbs : value low < radix (w.bits * xs.length) := hLow ▸ value_lt low
  have hNegated : value low = value (negated xs) := by
    rw [value_negated, ← hSum, Nat.mul_add_mod_of_lt hLimbs]
  refine ⟨carry, ?_⟩
  rw [sweep_eq_sweepInto, hOk, List.drop_length, List.append_nil,
    Digits.eq_of_value_eq (hLow.trans (length_negated xs).symm) hNegated]

theorem negateIf_set (hAlu : alu.Lawful) (xs : Limbs w) :
    negateIf alu xs Mask.set = .ok (negated xs) := by
  obtain ⟨carry, hOk⟩ := sweep_flipped hAlu xs
  have hOne : BitVec.allOnes w.bits &&& (1 : Limb w) = 1 := BitVec.allOnes_and
  simp only [negateIf, Mask.select_ones_set, BitVec.xor_allOnes, hOne, hOk, ok_bind]
  rfl

theorem negateIf_unset (hAlu : alu.Lawful) (xs : Limbs w) :
    negateIf alu xs Mask.unset = .ok xs := by
  have hZero : (0 : Limb w) &&& 1 = 0 := BitVec.zero_and
  have hStep : ∀ x : Limb w,
      (pure (alu.add (x ^^^ 0) 0) : Checked (Carried w)) = .ok ⟨0, x⟩ := by
    intro x
    rw [show x ^^^ 0 = x from BitVec.xor_zero, hAlu.add_zero]
    rfl
  have hKept : sweep (fun x carry => pure (alu.add (x ^^^ 0) carry)) xs 0 = .ok ⟨0, xs⟩ :=
    sweep_keeps hStep xs
  rw [negateIf, Mask.select_unset]
  simp only [hZero, hKept, ok_bind]
  rfl

/-- Negating twice with the same mask changes nothing. -/
theorem negateIf_negateIf (hAlu : alu.Lawful) {cond : Mask w} (hCond : cond.Formed)
    (xs : Limbs w) :
    ∃ once, negateIf alu xs cond = .ok once ∧ negateIf alu once cond = .ok xs := by
  rcases hCond.set_or_unset with rfl | rfl
  · exact ⟨negated xs, negateIf_set hAlu xs, by rw [negateIf_set hAlu, negated_negated]⟩
  · exact ⟨xs, negateIf_unset hAlu xs, negateIf_unset hAlu xs⟩

/-- An array and its negation add up to zero, with a carry unless both are zero. -/
theorem addSameInto_negated (hAlu : alu.Lawful) {result : Limbs w}
    (hLength : xs.length ≤ result.length) :
    addSameInto alu result xs (negated xs)
      = .ok ⟨if value xs = 0 then 0 else 1,
          List.replicate xs.length 0 ++ result.drop xs.length⟩ := by
  obtain ⟨carry, low, hOk, hLow, -, hSum⟩ :=
    addSameInto_exact hAlu (length_negated xs).symm hLength
  rw [value_negated, add_negate (value_lt xs)] at hSum
  have hZeros : carry.toNat * radix (w.bits * xs.length) + value low
      = (if value xs = 0 then 0 else 1 : Limb w).toNat * radix (w.bits * xs.length)
        + value (List.replicate xs.length 0 : Limbs w) := by
    rw [hSum, value_zeros]
    by_cases hZero : value xs = 0
    · rw [if_pos hZero, if_pos hZero, toNat_zero, Nat.zero_mul]
    · rw [if_neg hZero, if_neg hZero, toNat_one, Nat.one_mul, Nat.add_zero]
  obtain ⟨hCarry, hLimbs⟩ := carry_limbs_unique hLow List.length_replicate hZeros
  rw [hOk, hCarry, hLimbs]

-- ---------------------------------------------------------------------------
-- Magnitudes
-- ---------------------------------------------------------------------------

/-- The integer that an array stands for in two's complement. -/
def signedValue (xs : Limbs w) : ℤ := (BitVec.ofNat (w.bits * xs.length) (value xs)).toInt

theorem signedValue_eq (xs : Limbs w) :
    signedValue xs = if 2 * value xs < radix (w.bits * xs.length) then (value xs : ℤ)
      else value xs - radix (w.bits * xs.length) := by
  have hValue : (BitVec.ofNat (w.bits * xs.length) (value xs)).toNat = value xs := by
    rw [BitVec.toNat_ofNat]
    exact Nat.mod_eq_of_lt (value_lt xs)
  rw [signedValue, BitVec.toInt_eq_toNat_cond, hValue]
  rfl

/-- The top bit says in which half of its range the whole array lies. -/
theorem double_value_lt_iff (low : Limbs w) (top : Limb w) :
    2 * value (low ++ [top]) < radix (w.bits * (low ++ [top]).length) ↔ top.msb = false := by
  have hValue : value (low ++ [top])
      = value low + radix (w.bits * low.length) * top.toNat := Digits.value_concat low top
  have hRadix : radix (w.bits * (low ++ [top]).length)
      = 2 * (radix (w.bits * low.length) * radix (w.bits - 1)) := by
    rw [List.length_append, List.length_singleton, radix_mul_succ, radix_bits_eq_double]
    ring
  have hLow := value_lt low
  rw [hValue, hRadix]
  rcases Portable.msb_cases top with ⟨hMsb, hTop⟩ | ⟨hMsb, hTop⟩
  · have := Nat.mul_le_mul_left (radix (w.bits * low.length)) hTop
    simp only [hMsb, Bool.true_eq_false, iff_false]
    omega
  · have := Nat.mul_le_mul_left (radix (w.bits * low.length)) hTop
    rw [Nat.mul_succ] at this
    simp only [hMsb, iff_true]
    omega

/-- The condition that the sign makes: set for negative integers. -/
theorem ofLimb_topBit (x : Limb w) :
    Mask.ofLimb (x >>> (w.bits - 1)) = .ok (Mask.decide (x.msb = true)) := by
  have hBit : x >>> (w.bits - 1) = if x.msb = true then 1 else 0 := by
    apply BitVec.eq_of_toNat_eq
    rw [Portable.topBit_toNat]
    rcases x.msb
    · rfl
    · exact toNat_one.symm
  rw [hBit, Mask.ofLimb_ite]

/-- With its sign as the condition, an array is left with the magnitude of its integer. -/
theorem negateIf_sign (hAlu : alu.Lawful) (hNonempty : xs ≠ []) :
    ∃ sign magnitude, Mask.ofLimb (xs.getLast hNonempty >>> (w.bits - 1)) = .ok sign ∧
      negateIf alu xs sign = .ok magnitude ∧ magnitude.length = xs.length ∧
      value magnitude = (signedValue xs).natAbs := by
  obtain ⟨low, top, rfl⟩ := (List.eq_nil_or_concat' xs).resolve_left hNonempty
  have hRange := double_value_lt_iff low top
  have hLt := value_lt (low ++ [top])
  rw [List.getLast_append_singleton, ofLimb_topBit, signedValue_eq]
  cases hMsb : top.msb with
  | false =>
    rw [hMsb] at hRange
    refine ⟨Mask.unset, low ++ [top], rfl, negateIf_unset hAlu _, rfl, ?_⟩
    rw [if_pos (hRange.mpr rfl), Int.natAbs_natCast]
  | true =>
    have hUpper : radix (w.bits * (low ++ [top]).length) ≤ 2 * value (low ++ [top]) := by
      simpa [hMsb] using hRange
    refine ⟨Mask.set, negated (low ++ [top]), rfl, negateIf_set hAlu _, length_negated _, ?_⟩
    rw [value_negated, Nat.mod_eq_of_lt (by omega), if_neg (by omega)]
    omega

-- ---------------------------------------------------------------------------
-- Both conditions
-- ---------------------------------------------------------------------------

/-- **Conditional negation is that of two's complement.** For every implementation of the primitives
and every array: with a set mask it leaves the radix less the value, modulo the radix, so that zero
stays zero, and the array and its negation add up to zero, with a carry exactly if the value is not
zero. With an unset mask it changes nothing, and with any mask it undoes itself. With the top bit of
an array as the mask, it leaves the magnitude of the integer that the array stands for. -/
theorem negateIf_exact (impl : Implementation w) (xs : Limbs w) :
    (∃ negation, negateIf impl.alu xs Mask.set = .ok negation ∧ negation.length = xs.length ∧
      value negation
        = (radix (w.bits * xs.length) - value xs) % radix (w.bits * xs.length) ∧
      (value xs = 0 → negation = xs) ∧
      ∀ result : Limbs w, xs.length ≤ result.length →
        addSameInto impl.alu result xs negation
          = .ok ⟨if value xs = 0 then 0 else 1,
              List.replicate xs.length 0 ++ result.drop xs.length⟩) ∧
    negateIf impl.alu xs Mask.unset = .ok xs ∧
    (∀ cond : Mask w, cond.Formed →
      ∃ once, negateIf impl.alu xs cond = .ok once ∧ negateIf impl.alu once cond = .ok xs) ∧
    ∀ hNonempty : xs ≠ [], ∃ sign magnitude,
      Mask.ofLimb (xs.getLast hNonempty >>> (w.bits - 1)) = .ok sign ∧
      negateIf impl.alu xs sign = .ok magnitude ∧ magnitude.length = xs.length ∧
      value magnitude = (signedValue xs).natAbs := by
  have hAlu := impl.lawful
  refine ⟨⟨negated xs, negateIf_set hAlu xs, length_negated xs, value_negated xs,
    negated_of_value_eq_zero, ?_⟩, negateIf_unset hAlu xs, ?_, negateIf_sign hAlu⟩
  · intro result hLength
    exact addSameInto_negated hAlu hLength
  · intro cond hCond
    exact negateIf_negateIf hAlu hCond xs

/-- The most negative integer of two limbs, which is its own negation: its sign makes a set mask, and
its magnitude takes the bit of the sign. -/
theorem negateIf_exact_lowest :
    ([0, 0x80000000] : Limbs .w32) ≠ [] ∧ (Mask.set : Mask .w32).Formed ∧
      ([0, 0x80000000] : Limbs .w32).length ≤ ([5, 6, 7] : Limbs .w32).length ∧
      signedValue ([0, 0x80000000] : Limbs .w32) = -0x8000000000000000 ∧
      (∃ negation,
        negateIf (Implementation.portable .w32).alu [0, 0x80000000] Mask.set = .ok negation ∧
        addSameInto (Implementation.portable .w32).alu [5, 6, 7] [0, 0x80000000] negation
          = .ok ⟨1, [0, 0, 7]⟩) ∧
      (∃ once, negateIf (Implementation.portable .w32).alu [0, 0x80000000] Mask.set = .ok once ∧
        negateIf (Implementation.portable .w32).alu once Mask.set = .ok [0, 0x80000000]) ∧
      ∃ sign magnitude, Mask.ofLimb ((0x80000000 : Limb .w32) >>> 31) = .ok sign ∧
        negateIf (Implementation.portable .w32).alu [0, 0x80000000] sign = .ok magnitude ∧
        value magnitude = 0x8000000000000000 := by
  have hNonempty : ([0, 0x80000000] : Limbs .w32) ≠ [] := by decide
  have hRoom : ([0, 0x80000000] : Limbs .w32).length ≤ ([5, 6, 7] : Limbs .w32).length := by decide
  obtain ⟨⟨negation, hNegate, -, -, -, hAdd⟩, -, hTwice, hSign⟩ :=
    negateIf_exact (.portable .w32) [0, 0x80000000]
  obtain ⟨sign, magnitude, hMask, hMagnitude, -, hValue⟩ := hSign hNonempty
  exact ⟨hNonempty, Mask.formed_set, hRoom, rfl, ⟨negation, hNegate, hAdd _ hRoom⟩,
    hTwice _ Mask.formed_set, sign, magnitude, hMask, hMagnitude, hValue⟩

end Limbs

end LimbArith
