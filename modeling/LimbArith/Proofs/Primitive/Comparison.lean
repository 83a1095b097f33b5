import LimbArith.Proofs.Primitive.Lawful

/-!
# LimbArith — what comparisons of limbs decide

Comparisons answer for all limbs, with the mask of what they ask. Equality is a
test for zero of the bits that differ, and the order is the borrow of a
difference, so no mask is ever made from anything but a bit.

Main results:

* `Mask.decide` — the mask of a statement.
* `Alu.Lawful.eq_exact`, `Alu.Lawful.lt_exact`, … — the comparisons.
* `LimbRelation.Holds`, `Alu.Lawful.decide_exact` — what each of them asks, and
  that its mask is the answer.
-/

namespace LimbArith

variable {w : Width} {alu : Alu w}

-- ---------------------------------------------------------------------------
-- Masks
-- ---------------------------------------------------------------------------

namespace Mask

/-- The mask of a statement: set if it holds. -/
def decide (p : Prop) [Decidable p] : Mask w := if p then set else unset

variable {p : Prop} [Decidable p]

theorem ofLimb_ite : ofLimb (if p then 1 else 0 : Limb w) = .ok (decide p) := by
  unfold Mask.decide
  by_cases h : p
  · rw [if_pos h, if_pos h, ofLimb_one]
  · rw [if_neg h, if_neg h, ofLimb_zero]

theorem decide_congr {q : Prop} [Decidable q] (h : p ↔ q) :
    (decide p : Mask w) = decide q := if_congr h rfl rfl

theorem not_decide : (decide p : Mask w).not = decide (¬ p) := by
  unfold Mask.decide
  by_cases h : p
  · rw [if_pos h, if_neg (not_not.mpr h)]
    cases w <;> rfl
  · rw [if_neg h, if_pos h]
    cases w <;> rfl

theorem and_decide {q : Prop} [Decidable q] :
    (decide p : Mask w).and (decide q) = decide (p ∧ q) := by
  unfold Mask.decide
  by_cases hp : p <;> by_cases hq : q <;> simp only [hp, hq] <;> cases w <;> rfl

theorem or_decide {q : Prop} [Decidable q] :
    (decide p : Mask w).or (decide q) = decide (p ∨ q) := by
  unfold Mask.decide
  by_cases hp : p <;> by_cases hq : q <;> simp only [hp, hq] <;> cases w <;> rfl

theorem toNat_bit_decide : (decide p : Mask w).bit.toNat = if p then 1 else 0 := by
  unfold Mask.decide
  by_cases h : p
  · rw [if_pos h, if_pos h, bit_set, toNat_one]
  · rw [if_neg h, if_neg h, bit_unset, toNat_zero]

theorem select_decide (x y : Limb w) : (decide p).select x y = if p then y else x := by
  unfold Mask.decide
  by_cases h : p
  · rw [if_pos h, if_pos h, select_set]
  · rw [if_neg h, if_neg h, select_unset]

theorem selectSize_decide (m n : ℕ) :
    (decide p : Mask w).selectSize m n = if p then n else m := by
  unfold Mask.decide
  by_cases h : p
  · rw [if_pos h, if_pos h, selectSize_set]
  · rw [if_neg h, if_neg h, selectSize_unset]

end Mask

-- ---------------------------------------------------------------------------
-- Comparisons
-- ---------------------------------------------------------------------------

/-- The relation of two numbers that a comparison of limbs asks for. -/
def LimbRelation.Holds : LimbRelation → ℕ → ℕ → Prop
  | eq, m, n => m = n
  | ne, m, n => m ≠ n
  | lt, m, n => m < n
  | le, m, n => m ≤ n
  | gt, m, n => n < m
  | ge, m, n => n ≤ m

instance (r : LimbRelation) (m n : ℕ) : Decidable (r.Holds m n) :=
  match r with
  | .eq => inferInstanceAs (Decidable (m = n))
  | .ne => inferInstanceAs (Decidable (m ≠ n))
  | .lt => inferInstanceAs (Decidable (m < n))
  | .le => inferInstanceAs (Decidable (m ≤ n))
  | .gt => inferInstanceAs (Decidable (n < m))
  | .ge => inferInstanceAs (Decidable (n ≤ m))

namespace Alu.Lawful

theorem eq_exact (h : alu.Lawful) (x y : Limb w) : alu.eq x y = .ok (Mask.decide (x = y)) := by
  rw [Alu.eq, h.isZero, Mask.ofLimb_ite]
  exact congrArg Except.ok (Mask.decide_congr BitVec.xor_eq_zero_iff)

theorem ne_exact (h : alu.Lawful) (x y : Limb w) : alu.ne x y = .ok (Mask.decide (x ≠ y)) := by
  rw [Alu.ne, h.eq_exact, ok_bind, Mask.not_decide]
  rfl

/-- A difference borrows exactly if it is negative. -/
theorem sub_carry (h : alu.Lawful) (x y : Limb w) :
    (alu.sub x y).carry = if x.toNat < y.toNat then 1 else 0 := by
  have hSub := h.sub x y
  have hx := toNat_lt_radix x
  have hy := toNat_lt_radix y
  have hLimb := toNat_lt_radix (alu.sub x y).limb
  apply BitVec.eq_of_toNat_eq
  by_cases hLess : x.toNat < y.toNat
  · rw [if_pos hLess, toNat_one]
    refine le_antisymm (carry_le_one (c := (alu.sub x y).carry.toNat) (l := x.toNat)
      ((Nat.add_comm ..).trans hSub.symm) (by omega)) (Nat.pos_of_ne_zero fun hZero => ?_)
    rw [hZero, Nat.zero_mul] at hSub
    omega
  · rw [if_neg hLess, toNat_zero]
    by_contra hNot
    have := Nat.mul_le_mul_right (radix w.bits) (Nat.pos_of_ne_zero hNot)
    omega

theorem lt_exact (h : alu.Lawful) (x y : Limb w) :
    alu.lt x y = .ok (Mask.decide (x.toNat < y.toNat)) := by
  rw [Alu.lt, h.sub_carry, Mask.ofLimb_ite]

theorem le_exact (h : alu.Lawful) (x y : Limb w) :
    alu.le x y = .ok (Mask.decide (x.toNat ≤ y.toNat)) := by
  rw [Alu.le, h.lt_exact, ok_bind, Mask.not_decide]
  exact congrArg Except.ok (Mask.decide_congr not_lt)

/-- Every comparison is that of the numbers. -/
theorem decide_exact (h : alu.Lawful) (r : LimbRelation) (x y : Limb w) :
    r.decide alu x y = .ok (Mask.decide (r.Holds x.toNat y.toNat)) := by
  cases r with
  | eq => exact (h.eq_exact x y).trans (congrArg Except.ok (Mask.decide_congr BitVec.toNat_inj.symm))
  | ne =>
    exact (h.ne_exact x y).trans
      (congrArg Except.ok (Mask.decide_congr (not_congr BitVec.toNat_inj.symm)))
  | lt => exact h.lt_exact x y
  | le => exact h.le_exact x y
  | gt => exact h.lt_exact y x
  | ge => exact h.le_exact y x

end Alu.Lawful

end LimbArith
