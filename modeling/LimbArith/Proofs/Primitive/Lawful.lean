import Mathlib.Tactic.Ring
import Mathlib.Tactic.Linarith
import Mathlib.Tactic.LinearCombination
import LimbArith.Alu.Basic
import LimbArith.Proofs.Checked

/-!
# LimbArith — the laws of primitives

The array operations are correct over any set of primitives that computes
exactly. `Alu.Lawful` says what that means, once for all implementations: with
`B` the radix of a limb, a sum or product comes back as `carry * B + limb`, a
difference as `limb - carry * B`, and no primitive refuses an input that its
contract allows.

Main results:

* `Carried.eq_of_sum`, `Carried.eq_of_difference` — a carry and a limb are known
  by what they add up to.
* `Alu.Lawful` — the laws.
* `Alu.Lawful.addToWide` — a limb added to a double limb, as exact as the
  primitives below it.
-/

namespace LimbArith

variable {w : Width}

-- ---------------------------------------------------------------------------
-- Numbers below a radix
-- ---------------------------------------------------------------------------

theorem toNat_zero_le_one : (0 : Limb w).toNat ≤ 1 := by
  rw [toNat_zero]
  exact Nat.zero_le 1

/-- The limb of ones is the largest. -/
theorem toNat_neg_one : (-1 : Limb w).toNat + 1 = radix w.bits := by
  cases w <;> rfl

/-- Two digits stand for a number below `b * b` only if the upper one is below `b`. -/
theorem high_lt_of_value_lt {b h l n : ℕ} (hValue : h * b + l = n) (hn : n < b * b) : h < b := by
  by_contra hLe
  have := Nat.mul_le_mul_right b (not_lt.mp hLe)
  omega

/-- A carry out of a number below `2 * b` is at most one. -/
theorem carry_le_one {b c l n : ℕ} (hValue : c * b + l = n) (hn : n < 2 * b) : c ≤ 1 := by
  by_contra hLe
  have := Nat.mul_le_mul_right b (not_le.mp hLe)
  omega

/-- A number has one upper part and one lower digit. -/
theorem high_low_unique {b h l h' l' : ℕ} (hl : l < b) (hl' : l' < b)
    (hValue : h * b + l = h' * b + l') : h = h' ∧ l = l' := by
  have hLow : l = l' := by
    have hMod := congrArg (· % b) hValue
    simpa [Nat.mod_eq_of_lt hl, Nat.mod_eq_of_lt hl'] using hMod
  subst hLow
  have hPos : 0 < b := Nat.lt_of_le_of_lt (Nat.zero_le l) hl
  exact ⟨Nat.eq_of_mul_eq_mul_right hPos (Nat.add_right_cancel hValue), rfl⟩

/-- A product of two digits leaves room for two more digits. -/
theorem mul_add_lt {b x y c d : ℕ} (hx : x < b) (hy : y < b) (hc : c < b) (hd : d < b) :
    c + x * y + d < b * b := by
  obtain ⟨k, rfl⟩ : ∃ k, b = k + 1 := ⟨b - 1, by omega⟩
  have hProduct : x * y ≤ k * k := Nat.mul_le_mul (by omega) (by omega)
  calc c + x * y + d ≤ k + k * k + k := by omega
    _ < (k + 1) * (k + 1) := by
      rw [Nat.mul_succ, Nat.succ_mul]
      omega

-- ---------------------------------------------------------------------------
-- Answers known by their values
-- ---------------------------------------------------------------------------

/-- A sum has one carry and one limb. -/
theorem Carried.eq_of_sum {s t : Carried w}
    (hValue : s.carry.toNat * radix w.bits + s.limb.toNat
      = t.carry.toNat * radix w.bits + t.limb.toNat) : s = t := by
  obtain ⟨hCarry, hLimb⟩ :=
    high_low_unique (toNat_lt_radix s.limb) (toNat_lt_radix t.limb) hValue
  rw [Carried.mk.injEq]
  exact ⟨BitVec.eq_of_toNat_eq hCarry, BitVec.eq_of_toNat_eq hLimb⟩

/-- A difference has one borrow and one limb. -/
theorem Carried.eq_of_difference {s t : Carried w} {m n : ℕ}
    (hs : s.limb.toNat + m = n + s.carry.toNat * radix w.bits)
    (ht : t.limb.toNat + m = n + t.carry.toNat * radix w.bits) : s = t := by
  have hValue : s.carry.toNat * radix w.bits + t.limb.toNat
      = t.carry.toNat * radix w.bits + s.limb.toNat := by omega
  obtain ⟨hCarry, hLimb⟩ :=
    high_low_unique (toNat_lt_radix t.limb) (toNat_lt_radix s.limb) hValue
  rw [Carried.mk.injEq]
  exact ⟨BitVec.eq_of_toNat_eq hCarry, BitVec.eq_of_toNat_eq hLimb.symm⟩

-- ---------------------------------------------------------------------------
-- The laws
-- ---------------------------------------------------------------------------

/-- Primitives that compute exactly, whatever the limbs, and refuse nothing but a carry or borrow
above one where they say so. -/
structure Alu.Lawful (alu : Alu w) : Prop where
  isNonzero : ∀ x, alu.isNonzero x = if x = 0 then 0 else 1
  isZero : ∀ x, alu.isZero x = if x = 0 then 1 else 0
  add : ∀ x y,
    (alu.add x y).carry.toNat * radix w.bits + (alu.add x y).limb.toNat = x.toNat + y.toNat
  addCarry : ∀ x y c, c.toNat ≤ 1 → ∃ s, alu.addCarry x y c = .ok s ∧
    s.carry.toNat * radix w.bits + s.limb.toNat = x.toNat + y.toNat + c.toNat
  addCarry_refused : ∀ x y c, 1 < c.toNat → alu.addCarry x y c = .error .carryTooLarge
  sub : ∀ x y,
    (alu.sub x y).limb.toNat + y.toNat = x.toNat + (alu.sub x y).carry.toNat * radix w.bits
  subBorrow : ∀ x y c, c.toNat ≤ 1 → ∃ s, alu.subBorrow x y c = .ok s ∧
    s.limb.toNat + (y.toNat + c.toNat) = x.toNat + s.carry.toNat * radix w.bits
  subBorrow_refused : ∀ x y c, 1 < c.toNat → alu.subBorrow x y c = .error .carryTooLarge
  mul : ∀ x y, ∃ d, alu.mul x y = .ok d ∧ d.value = x.toNat * y.toNat
  mulAdd : ∀ acc x y c, ∃ s, alu.mulAdd acc x y c = .ok s ∧
    s.carry.toNat * radix w.bits + s.limb.toNat = acc.toNat + x.toNat * y.toNat + c.toNat
  mulSub : ∀ acc x y c, ∃ s, alu.mulSub acc x y c = .ok s ∧
    s.limb.toNat + (x.toNat * y.toNat + c.toNat) = acc.toNat + s.carry.toNat * radix w.bits

namespace Alu.Lawful

variable {alu : Alu w}

/-- A carry of at most one stays one. -/
theorem addCarry_exact (h : alu.Lawful) (x y : Limb w) {c : Limb w} (hc : c.toNat ≤ 1) :
    ∃ s, alu.addCarry x y c = .ok s ∧ s.carry.toNat ≤ 1 ∧
      s.carry.toNat * radix w.bits + s.limb.toNat = x.toNat + y.toNat + c.toNat := by
  obtain ⟨s, hOk, hValue⟩ := h.addCarry x y c hc
  have hx := toNat_lt_radix x
  have hy := toNat_lt_radix y
  exact ⟨s, hOk, carry_le_one hValue (by omega), hValue⟩

theorem subBorrow_exact (h : alu.Lawful) (x y : Limb w) {c : Limb w} (hc : c.toNat ≤ 1) :
    ∃ s, alu.subBorrow x y c = .ok s ∧ s.carry.toNat ≤ 1 ∧
      s.limb.toNat + (y.toNat + c.toNat) = x.toNat + s.carry.toNat * radix w.bits := by
  obtain ⟨s, hOk, hValue⟩ := h.subBorrow x y c hc
  have hy := toNat_lt_radix y
  have hLimb := toNat_lt_radix s.limb
  have hSwap : s.carry.toNat * radix w.bits + x.toNat
      = s.limb.toNat + (y.toNat + c.toNat) := by
    rw [hValue, Nat.add_comm]
  exact ⟨s, hOk, carry_le_one hSwap (by omega), hValue⟩

/-- A limb added to a product of two limbs: the sum fits, because the product leaves room for one
more limb. -/
theorem addToWide (h : alu.Lawful) {d : WideLimb w} {x : Limb w}
    (hFits : d.value + x.toNat < radix w.bits * radix w.bits) :
    ∃ s, alu.addToWide d x = .ok s ∧
      s.carry.toNat * radix w.bits + s.limb.toNat = d.value + x.toNat := by
  have hLow := h.add d.low x
  have hSum : (d.high.toNat + (alu.add d.low x).carry.toNat) * radix w.bits
      + (alu.add d.low x).limb.toNat = d.value + x.toNat := by
    rw [WideLimb.value]
    linear_combination hLow
  have hHigh : d.high.toNat + (alu.add d.low x).carry.toNat < radix w.bits :=
    high_lt_of_value_lt hSum hFits
  have hGuard : d.high ≠ -1 ∨ (alu.add d.low x).carry = 0 := by
    by_contra hNot
    push Not at hNot
    have hTop : d.high.toNat + 1 = radix w.bits := by
      rw [hNot.1, toNat_neg_one]
    have hCarry : (alu.add d.low x).carry.toNat ≠ 0 := fun hz =>
      hNot.2 (BitVec.eq_of_toNat_eq hz)
    omega
  refine ⟨⟨d.high + (alu.add d.low x).carry, (alu.add d.low x).limb⟩, ?_, ?_⟩
  · simp only [Alu.addToWide, require_pos hGuard, ok_bind]
    rfl
  · rw [BitVec.toNat_add_of_lt hHigh]
    exact hSum

end Alu.Lawful

end LimbArith
