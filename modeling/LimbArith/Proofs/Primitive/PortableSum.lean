import LimbArith.Alu.Portable
import LimbArith.Proofs.Primitive.Lawful

/-!
# LimbArith — portable sums and differences

The portable primitives never branch on a limb, so each of their laws is a
statement about bit patterns that has to be brought down to numbers first. A
carry or borrow is the top bit of a pattern of top bits (`topBit_toNat`,
`msb_cases`); with `B = 2 * h` this leaves eight cases of linear arithmetic.

Main results:

* `Portable.isNonzero_eq`, `isZero_eq` — the tests for zero.
* `Portable.add_exact`, `sub_exact` — sums and differences.
* `Portable.addCarry_exact`, `subBorrow_exact` — with a carry or a borrow.
-/

namespace LimbArith

variable {w : Width}

-- ---------------------------------------------------------------------------
-- The radix in two parts
-- ---------------------------------------------------------------------------

theorem bits_pos (w : Width) : 0 < w.bits := by
  cases w <;> decide

theorem radix_bits_eq_double (w : Width) : radix w.bits = 2 * radix (w.bits - 1) := by
  cases w <;> rfl

theorem two_lt_radix_bits (w : Width) : 2 < radix w.bits := by
  cases w <;> decide

namespace Limb

/-- A sum that fits is computed. -/
theorem addExact_eq_ok {x y : Limb w} (h : x.toNat + y.toNat < radix w.bits) :
    ∃ z, addExact x y = .ok z ∧ z.toNat = x.toNat + y.toNat := by
  refine ⟨x + y, ?_, BitVec.toNat_add_of_lt h⟩
  rw [addExact, require_pos h]
  rfl

end Limb

namespace Portable

-- ---------------------------------------------------------------------------
-- Top bits
-- ---------------------------------------------------------------------------

/-- The top bit says in which half of its range a limb lies. -/
theorem msb_cases (x : Limb w) :
    x.msb = true ∧ radix (w.bits - 1) ≤ x.toNat ∨ x.msb = false ∧ x.toNat < radix (w.bits - 1) := by
  have hMsb : x.msb = decide (radix (w.bits - 1) ≤ x.toNat) := BitVec.msb_eq_decide x
  rw [hMsb]
  by_cases h : radix (w.bits - 1) ≤ x.toNat
  · exact .inl ⟨decide_eq_true h, h⟩
  · exact .inr ⟨decide_eq_false h, not_le.mp h⟩

/-- A shift by all bits but one leaves the top bit. -/
theorem topBit_toNat (x : Limb w) : (x >>> (w.bits - 1)).toNat = x.msb.toNat := by
  have hx := toNat_lt_radix x
  rw [radix_bits_eq_double] at hx
  rw [BitVec.toNat_ushiftRight, Nat.shiftRight_eq_div_pow]
  change x.toNat / radix (w.bits - 1) = x.msb.toNat
  rcases msb_cases x with ⟨hMsb, h⟩ | ⟨hMsb, h⟩
  · rw [hMsb, Bool.toNat_true]
    exact Nat.div_eq_of_lt_le (by omega) (by omega)
  · rw [hMsb, Bool.toNat_false]
    exact Nat.div_eq_of_lt h

/-- A wrapping sum is the sum, less the radix if that does not fit. -/
theorem toNat_add_cases (x y : Limb w) :
    (x + y).toNat = x.toNat + y.toNat ∨ (x + y).toNat + radix w.bits = x.toNat + y.toNat := by
  by_cases h : x.toNat + y.toNat < radix w.bits
  · exact .inl (BitVec.toNat_add_of_lt h)
  · right
    have hx := toNat_lt_radix x
    have hy := toNat_lt_radix y
    have hMod : (x + y).toNat = (x.toNat + y.toNat) % radix w.bits := BitVec.toNat_add x y
    rw [hMod, Nat.mod_eq_sub_mod (by omega), Nat.mod_eq_of_lt (by omega)]
    omega

/-- A wrapping difference is the difference, plus the radix if that is negative. -/
theorem toNat_sub_cases (x y : Limb w) :
    (x - y).toNat + y.toNat = x.toNat ∨ (x - y).toNat + y.toNat = x.toNat + radix w.bits := by
  have h := toNat_add_cases (x - y) y
  rw [BitVec.sub_add_cancel] at h
  omega

-- ---------------------------------------------------------------------------
-- Sums and differences
-- ---------------------------------------------------------------------------

theorem isNonzero_eq (x : Limb w) : isNonzero x = if x = 0 then 0 else 1 := by
  apply BitVec.eq_of_toNat_eq
  rw [isNonzero, topBit_toNat, BitVec.msb_or]
  have hZero : (0#w.bits).toNat = 0 := rfl
  have hNeg := toNat_add_cases x (-x)
  rw [BitVec.add_right_neg, hZero, radix_bits_eq_double] at hNeg
  by_cases h : x = 0
  · subst h
    cases w <;> rfl
  · have hx : x.toNat ≠ 0 := fun hz => h (BitVec.eq_of_toNat_eq hz)
    rw [if_neg h, toNat_one]
    -- a limb and its negation add up to the radix, so one of them is in the upper half
    rcases msb_cases x with ⟨hTop, _⟩ | ⟨hTop, _⟩
    · rw [hTop, Bool.true_or, Bool.toNat_true]
    · rcases msb_cases (-x) with ⟨hTop', _⟩ | ⟨hTop', _⟩
      · rw [hTop', Bool.or_true, Bool.toNat_true]
      · omega

theorem isZero_eq (x : Limb w) : isZero x = if x = 0 then 1 else 0 := by
  rw [isZero, isNonzero_eq]
  split <;> cases w <;> rfl

theorem add_exact (x y : Limb w) :
    (add x y).carry.toNat * radix w.bits + (add x y).limb.toNat = x.toNat + y.toNat := by
  have hSum := toNat_add_cases x y
  have hx := toNat_lt_radix x
  have hy := toNat_lt_radix y
  have hs := toNat_lt_radix (x + y)
  rw [radix_bits_eq_double] at *
  simp only [add, topBit_toNat, BitVec.msb_or, BitVec.msb_and, BitVec.msb_not, bits_pos,
    decide_true, Bool.true_and]
  -- the carry depends on three top bits only; given those, the law is linear
  rcases msb_cases x with ⟨hTop₁, _⟩ | ⟨hTop₁, _⟩ <;>
    rcases msb_cases y with ⟨hTop₂, _⟩ | ⟨hTop₂, _⟩ <;>
    rcases msb_cases (x + y) with ⟨hTop, _⟩ | ⟨hTop, _⟩ <;>
    simp only [hTop₁, hTop₂, hTop, Bool.or_true, Bool.or_false, Bool.or_self, Bool.and_true,
      Bool.and_false, Bool.and_self, Bool.not_true, Bool.not_false, Bool.toNat_true,
      Bool.toNat_false] <;>
    omega

theorem sub_exact (x y : Limb w) :
    (sub x y).limb.toNat + y.toNat = x.toNat + (sub x y).carry.toNat * radix w.bits := by
  have hDifference := toNat_sub_cases x y
  have hx := toNat_lt_radix x
  have hy := toNat_lt_radix y
  have hd := toNat_lt_radix (x - y)
  rw [radix_bits_eq_double] at *
  simp only [sub, topBit_toNat, BitVec.msb_or, BitVec.msb_and, BitVec.msb_not, bits_pos,
    decide_true, Bool.true_and]
  -- as in a sum, with the top bits of the operands and of the difference
  rcases msb_cases x with ⟨hTop₁, _⟩ | ⟨hTop₁, _⟩ <;>
    rcases msb_cases y with ⟨hTop₂, _⟩ | ⟨hTop₂, _⟩ <;>
    rcases msb_cases (x - y) with ⟨hTop, _⟩ | ⟨hTop, _⟩ <;>
    simp only [hTop₁, hTop₂, hTop, Bool.or_true, Bool.or_false, Bool.or_self, Bool.and_true,
      Bool.and_false, Bool.and_self, Bool.not_true, Bool.not_false, Bool.toNat_true,
      Bool.toNat_false] <;>
    omega

/-- The carry of a sum of two limbs is one bit. -/
theorem add_carry_le (x y : Limb w) : (add x y).carry.toNat ≤ 1 := by
  have hx := toNat_lt_radix x
  have hy := toNat_lt_radix y
  exact carry_le_one (add_exact x y) (by omega)

/-- The borrow of a difference of two limbs is one bit. -/
theorem sub_carry_le (x y : Limb w) : (sub x y).carry.toNat ≤ 1 := by
  have hy := toNat_lt_radix y
  have hd := toNat_lt_radix (sub x y).limb
  have hValue : (sub x y).carry.toNat * radix w.bits + x.toNat
      = (sub x y).limb.toNat + y.toNat := by
    rw [sub_exact, Nat.add_comm]
  exact carry_le_one hValue (by omega)

theorem addCarry_exact (x y c : Limb w) (hc : c.toNat ≤ 1) :
    ∃ s, addCarry x y c = .ok s ∧
      s.carry.toNat * radix w.bits + s.limb.toNat = x.toNat + y.toNat + c.toNat := by
  have hx := toNat_lt_radix x
  have hy := toNat_lt_radix y
  have hFirst := add_exact x c
  have hSecond := add_exact (add x c).limb y
  have hTotal : ((add x c).carry.toNat + (add (add x c).limb y).carry.toNat) * radix w.bits
      + (add (add x c).limb y).limb.toNat = x.toNat + y.toNat + c.toNat := by
    linear_combination hFirst + hSecond
  have hCarry := carry_le_one hTotal (by omega)
  have hB := two_lt_radix_bits w
  obtain ⟨z, hz, hzValue⟩ := Limb.addExact_eq_ok
    (x := (add x c).carry) (y := (add (add x c).limb y).carry) (by omega)
  refine ⟨⟨z, (add (add x c).limb y).limb⟩, ?_, ?_⟩
  · simp only [addCarry, require_pos hc, ok_bind, hz, require_pos (hzValue ▸ hCarry)]
    rfl
  · rw [hzValue, hTotal]

theorem subBorrow_exact (x y c : Limb w) (hc : c.toNat ≤ 1) :
    ∃ s, subBorrow x y c = .ok s ∧
      s.limb.toNat + (y.toNat + c.toNat) = x.toNat + s.carry.toNat * radix w.bits := by
  have hy := toNat_lt_radix y
  have hd := toNat_lt_radix (sub (sub x c).limb y).limb
  have hFirst := sub_exact x c
  have hSecond := sub_exact (sub x c).limb y
  have hTotal : ((sub x c).carry.toNat + (sub (sub x c).limb y).carry.toNat) * radix w.bits
      + x.toNat = (sub (sub x c).limb y).limb.toNat + (y.toNat + c.toNat) := by
    linear_combination -hFirst - hSecond
  have hCarry := carry_le_one hTotal (by omega)
  have hB := two_lt_radix_bits w
  obtain ⟨z, hz, hzValue⟩ := Limb.addExact_eq_ok
    (x := (sub x c).carry) (y := (sub (sub x c).limb y).carry) (by omega)
  refine ⟨⟨z, (sub (sub x c).limb y).limb⟩, ?_, ?_⟩
  · simp only [subBorrow, require_pos hc, ok_bind, hz, require_pos (hzValue ▸ hCarry)]
    rfl
  · rw [hzValue, ← hTotal, Nat.add_comm]

end Portable

end LimbArith
