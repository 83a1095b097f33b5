import Mathlib.Data.Nat.Digits.Defs
import LimbArith.Proofs.Limbs.Value
import LimbArith.Proofs.Primitive.Lawful

/-!
# LimbArith — carry chains

Sums, differences, products with a limb and left shifts are the same loop: a
carry goes up through the array, and each step exchanges a digit's worth of it
for the next position. What a whole loop computes follows from what one step
computes, once and for all.

A step is described by what it owes: with `gain` and `loss` the worth of a carry
to the side it is on, a position that reads `r` and `x` turns the incoming carry
`c` into a limb and an outgoing carry `c'` such that

  `limb + gain c' * B + (paid r x + loss c) = due r x + gain c + loss c' * B`.

A sum has `loss = 0` and a difference `gain = 0`.

Main results:

* `sweepInto_exact` — the same equation for the whole array, in place of one
  position.
* `sweepInto_sum` / `sweepInto_difference` — the two kinds of chains.
* `carry_limbs_unique` — a number has one carry and one array of limbs, so a chain
  that is known by its value is known limb by limb.
* `difference_of_sum` / `sum_of_difference` — a chain the other way takes back what
  a chain did.
* `sweep_eq_sweepInto` — the loop in place is the loop that writes over its own
  input.
-/

namespace LimbArith.Limbs

variable {w : Width} {α : Type}

-- ---------------------------------------------------------------------------
-- Sums over positions
-- ---------------------------------------------------------------------------

/-- The number whose digits, however large, are given by `f` at each position. -/
def total (f : Limb w → α → ℕ) (result : Limbs w) (inputs : List α) : ℕ :=
  Nat.ofDigits (radix w.bits) (List.zipWith f result inputs)

theorem total_nil (f : Limb w → α → ℕ) (result : Limbs w) : total f result [] = 0 := by
  rw [total, List.zipWith_nil_right, Nat.ofDigits_nil]

theorem total_cons (f : Limb w → α → ℕ) (r : Limb w) (result : Limbs w) (x : α)
    (inputs : List α) :
    total f (r :: result) (x :: inputs) = f r x + radix w.bits * total f result inputs := by
  rw [total, List.zipWith_cons_cons, Nat.ofDigits_cons]
  rfl

theorem total_zero (result : Limbs w) (inputs : List α) :
    total (fun _ _ => 0) result inputs = 0 := by
  induction inputs generalizing result with
  | nil => exact total_nil _ result
  | cons x inputs ih =>
    cases result with
    | nil => rfl
    | cons r result => rw [total_cons, ih, Nat.mul_zero]

theorem total_add (f g : Limb w → α → ℕ) (result : Limbs w) (inputs : List α) :
    total (fun r x => f r x + g r x) result inputs =
      total f result inputs + total g result inputs := by
  induction inputs generalizing result with
  | nil => simp only [total_nil]
  | cons x inputs ih =>
    cases result with
    | nil => rfl
    | cons r result =>
      rw [total_cons, total_cons, total_cons, ih]
      ring

theorem total_mul (f : Limb w → α → ℕ) (y : ℕ) (result : Limbs w) (inputs : List α) :
    total (fun r x => f r x * y) result inputs = total f result inputs * y := by
  induction inputs generalizing result with
  | nil => simp only [total_nil, Nat.zero_mul]
  | cons x inputs ih =>
    cases result with
    | nil => simp [total]
    | cons r result =>
      rw [total_cons, total_cons, ih]
      ring

/-- The old limbs below the end of the inputs. -/
theorem total_result {result : Limbs w} {inputs : List α} (h : inputs.length ≤ result.length) :
    total (fun r _ => r.toNat) result inputs = value (result.take inputs.length) := by
  induction inputs generalizing result with
  | nil => exact total_nil _ result
  | cons x inputs ih =>
    cases result with
    | nil => simp at h
    | cons r result =>
      rw [total_cons, ih (Nat.le_of_succ_le_succ h), List.length_cons, List.take_succ_cons,
        value_cons]

/-- The inputs, read as limbs by `f`. -/
theorem total_inputs {f : α → Limb w} {result : Limbs w} {inputs : List α}
    (h : inputs.length ≤ result.length) :
    total (fun _ x => (f x).toNat) result inputs = value (inputs.map f) := by
  induction inputs generalizing result with
  | nil => exact total_nil _ result
  | cons x inputs ih =>
    cases result with
    | nil => simp at h
    | cons r result =>
      rw [total_cons, ih (Nat.le_of_succ_le_succ h), List.map_cons, value_cons]

-- ---------------------------------------------------------------------------
-- Whole loops
-- ---------------------------------------------------------------------------

/-- Every step keeps the invariant `P` of carries and balances its position. -/
def StepBalances (P : Limb w → Prop) (gain loss : Limb w → ℕ) (due paid : Limb w → α → ℕ)
    (step : Limb w → α → Limb w → Checked (Carried w)) : Prop :=
  ∀ r x c, P c → ∃ s, step r x c = .ok s ∧ P s.carry ∧
    s.limb.toNat + gain s.carry * radix w.bits + (paid r x + loss c)
      = due r x + gain c + loss s.carry * radix w.bits

/-- A carry is worth its `weight`, and a limb with its carry out the sum that is due. -/
def StepAdds (P : Limb w → Prop) (weight : Limb w → ℕ) (due : Limb w → α → ℕ)
    (step : Limb w → α → Limb w → Checked (Carried w)) : Prop :=
  ∀ r x c, P c → ∃ s, step r x c = .ok s ∧ P s.carry ∧
    weight s.carry * radix w.bits + s.limb.toNat = due r x + weight c

/-- A limb with what is paid for it is what is due, less the borrow out. -/
def StepSubtracts (P : Limb w → Prop) (due paid : Limb w → α → ℕ)
    (step : Limb w → α → Limb w → Checked (Carried w)) : Prop :=
  ∀ r x c, P c → ∃ s, step r x c = .ok s ∧ P s.carry ∧
    s.limb.toNat + (paid r x + c.toNat) = due r x + s.carry.toNat * radix w.bits

section

variable {step : Limb w → α → Limb w → Checked (Carried w)} {due paid : Limb w → α → ℕ}
  {gain loss weight : Limb w → ℕ} {P : Limb w → Prop} {inputs : List α} {result : Limbs w}
  {c : Limb w}

/--
**Carry chains are exact.** If every step balances its position, the loop answers,
keeps the limbs above its inputs, and balances the whole array.
-/
theorem sweepInto_exact (hStep : StepBalances P gain loss due paid step)
    (hLength : inputs.length ≤ result.length) (hc : P c) :
    ∃ carry low, sweepInto step result inputs c = .ok ⟨carry, low ++ result.drop inputs.length⟩ ∧
      low.length = inputs.length ∧ P carry ∧
      value low + gain carry * radix (w.bits * inputs.length) + (total paid result inputs + loss c)
        = total due result inputs + gain c + loss carry * radix (w.bits * inputs.length) := by
  induction inputs generalizing result c with
  | nil =>
    refine ⟨c, [], ?_, rfl, hc, ?_⟩
    · cases result <;> rfl
    · simp only [total_nil, List.length_nil, Nat.mul_zero, radix_zero, value_nil]
      omega
  | cons x inputs ih =>
    cases result with
    | nil => simp at hLength
    | cons r result =>
      -- the carry out of this position is the carry into the chain above it
      obtain ⟨here, hHere, hCarry, hBalance⟩ := hStep r x c hc
      obtain ⟨carry, low, hAbove, hLow, hOut, hRest⟩ :=
        ih (Nat.le_of_succ_le_succ hLength) hCarry
      refine ⟨carry, here.limb :: low, ?_, by rw [List.length_cons, List.length_cons, hLow], hOut,
        ?_⟩
      · simp only [sweepInto, hHere, hAbove, ok_bind, List.length_cons, List.drop_succ_cons,
          List.cons_append]
        rfl
      · rw [total_cons, total_cons, List.length_cons, radix_mul_succ, value_cons]
        linear_combination hBalance + radix w.bits * hRest

/-- A chain whose steps add: the carry out and the new limbs are the sum. -/
theorem sweepInto_sum (hStep : StepAdds P weight due step)
    (hLength : inputs.length ≤ result.length) (hc : P c) :
    ∃ carry low, sweepInto step result inputs c = .ok ⟨carry, low ++ result.drop inputs.length⟩ ∧
      low.length = inputs.length ∧ P carry ∧
      weight carry * radix (w.bits * inputs.length) + value low
        = total due result inputs + weight c := by
  have hBalances : StepBalances P weight (fun _ => 0) due (fun _ _ => 0) step := by
    intro r x c hc
    obtain ⟨s, hOk, hP, hSum⟩ := hStep r x c hc
    refine ⟨s, hOk, hP, ?_⟩
    show s.limb.toNat + weight s.carry * radix w.bits + (0 + 0)
      = due r x + weight c + 0 * radix w.bits
    omega
  obtain ⟨carry, low, hOk, hLow, hP, hValue⟩ := sweepInto_exact hBalances hLength hc
  refine ⟨carry, low, hOk, hLow, hP, ?_⟩
  rw [total_zero] at hValue
  omega

/-- A chain whose steps subtract: the new limbs are the difference, less the borrow out. -/
theorem sweepInto_difference (hStep : StepSubtracts P due paid step)
    (hLength : inputs.length ≤ result.length) (hc : P c) :
    ∃ carry low, sweepInto step result inputs c = .ok ⟨carry, low ++ result.drop inputs.length⟩ ∧
      low.length = inputs.length ∧ P carry ∧
      value low + (total paid result inputs + c.toNat)
        = total due result inputs + carry.toNat * radix (w.bits * inputs.length) := by
  have hBalances : StepBalances P (fun _ => 0) BitVec.toNat due paid step := by
    intro r x c hc
    obtain ⟨s, hOk, hP, hDifference⟩ := hStep r x c hc
    refine ⟨s, hOk, hP, ?_⟩
    show s.limb.toNat + 0 * radix w.bits + (paid r x + c.toNat)
      = due r x + 0 + s.carry.toNat * radix w.bits
    omega
  obtain ⟨carry, low, hOk, hLow, hP, hValue⟩ := sweepInto_exact hBalances hLength hc
  refine ⟨carry, low, hOk, hLow, hP, ?_⟩
  omega

end

-- ---------------------------------------------------------------------------
-- Carries and values
-- ---------------------------------------------------------------------------

/-- The array is below the radix of its length, so what is above that in a product with a number is
below the number. -/
theorem carry_lt {c factor : ℕ} {xs : Limbs w} (hFactor : 0 < factor)
    (hProduct : c * radix (w.bits * xs.length) ≤ value xs * factor) : c < factor := by
  have hLess : c * radix (w.bits * xs.length) < factor * radix (w.bits * xs.length) :=
    calc c * radix (w.bits * xs.length) ≤ value xs * factor := hProduct
      _ < radix (w.bits * xs.length) * factor := Nat.mul_lt_mul_of_pos_right (value_lt xs) hFactor
      _ = factor * radix (w.bits * xs.length) := Nat.mul_comm ..
  exact Nat.lt_of_mul_lt_mul_right hLess

/-- Equal numbers have the same carry and the same limbs. -/
theorem carry_limbs_unique {c d : Limb w} {ds es : Limbs w} {n : ℕ} (hds : ds.length = n)
    (hes : es.length = n)
    (hValue : c.toNat * radix (w.bits * n) + value ds
      = d.toNat * radix (w.bits * n) + value es) : c = d ∧ ds = es := by
  have hdsLt : value ds < radix (w.bits * n) := hds ▸ value_lt ds
  have hesLt : value es < radix (w.bits * n) := hes ▸ value_lt es
  obtain ⟨hCarry, hLimbs⟩ := high_low_unique hdsLt hesLt hValue
  exact ⟨BitVec.eq_of_toNat_eq hCarry, Digits.eq_of_value_eq (hds.trans hes.symm) hLimbs⟩

/-- A difference over what a sum left takes the sum back: it borrows what was carried, and leaves the
array from before. -/
theorem difference_of_sum {c borrow : Limb w} {xs low back : Limbs w} {n y : ℕ}
    (hxs : xs.length = n) (hBack : back.length = n)
    (hSum : c.toNat * radix (w.bits * n) + value low = value xs + y)
    (hDifference : value back + y = value low + borrow.toNat * radix (w.bits * n)) :
    borrow = c ∧ back = xs := by
  have hSame : borrow.toNat * radix (w.bits * n) + value xs
      = c.toNat * radix (w.bits * n) + value back := by omega
  obtain ⟨hBorrow, hLimbs⟩ := carry_limbs_unique hxs hBack hSame
  exact ⟨hBorrow, hLimbs.symm⟩

/-- A sum over what a difference left takes the difference back. -/
theorem sum_of_difference {b carry : Limb w} {xs low back : Limbs w} {n y : ℕ}
    (hxs : xs.length = n) (hBack : back.length = n)
    (hDifference : value low + y = value xs + b.toNat * radix (w.bits * n))
    (hSum : carry.toNat * radix (w.bits * n) + value back = value low + y) :
    carry = b ∧ back = xs := by
  have hSame : carry.toNat * radix (w.bits * n) + value back
      = b.toNat * radix (w.bits * n) + value xs := by omega
  exact carry_limbs_unique hBack hxs hSame

-- ---------------------------------------------------------------------------
-- Loops in place
-- ---------------------------------------------------------------------------

/-- A loop in place writes over its own input. -/
theorem sweep_eq_sweepInto (step : Limb w → Limb w → Checked (Carried w)) (xs : Limbs w)
    (c : Limb w) : sweep step xs c = sweepInto (fun _ x c => step x c) xs xs c := by
  induction xs generalizing c with
  | nil => rfl
  | cons x xs ih => simp only [sweep, sweepInto, ih]

end LimbArith.Limbs
