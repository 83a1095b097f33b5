import LimbArith.Proofs.Primitive.PortableSum

/-!
# LimbArith — the portable primitives are lawful

A product is put together from products of halves, and its law is the identity
`halves_product` with `B = H * H`. Nothing overflows on the way, since the high
limb has room for all of its parts. The sharp bound on products
(`product_range`) is what keeps the two carries of a multiply-accumulate step
from overflowing that limb.

Main results:

* `Portable.mul_exact`, `mulAdd_exact`, `mulSub_exact` — the laws of products.
* `Portable.products_exact` — the laws with the bounds that they rely on.
* `Portable.lawful` — the laws of all primitives, for either width.
-/

namespace LimbArith

variable {w : Width}

theorem radix_bits_eq_square (w : Width) : radix w.bits = radix w.half * radix w.half := by
  cases w <;> rfl

namespace Limb

/-- A product that fits is computed. -/
theorem mulExact_eq_ok {x y : Limb w} (h : x.toNat * y.toNat < radix w.bits) :
    mulExact x y = .ok (x * y) := by
  rw [mulExact, require_pos h]
  rfl

end Limb

namespace Portable

-- ---------------------------------------------------------------------------
-- Products
-- ---------------------------------------------------------------------------

theorem toNat_upper (x : Limb w) : (upper x).toNat = x.toNat / radix w.half := by
  rw [upper, BitVec.toNat_ushiftRight, Nat.shiftRight_eq_div_pow]
  rfl

theorem toNat_lower (x : Limb w) : (lower x).toNat = x.toNat % radix w.half := by
  have hMask : (Limb.lowMask w w.half).toNat = radix w.half - 1 := by
    cases w <;> rfl
  rw [lower, BitVec.toNat_and, hMask]
  exact Nat.and_two_pow_sub_one_eq_mod x.toNat w.half

theorem upper_lt (x : Limb w) : (upper x).toNat < radix w.half := by
  rw [toNat_upper]
  apply Nat.div_lt_of_lt_mul
  rw [← radix_bits_eq_square]
  exact toNat_lt_radix x

theorem lower_lt (x : Limb w) : (lower x).toNat < radix w.half := by
  rw [toNat_lower]
  exact Nat.mod_lt _ (radix_pos _)

/-- A limb is the number of its halves. -/
theorem halves_value (x : Limb w) :
    radix w.half * (upper x).toNat + (lower x).toNat = x.toNat := by
  rw [toNat_upper, toNat_lower]
  exact Nat.div_add_mod _ _

/-- The lower half of a limb moved to the upper half, where it fits. -/
theorem toNat_lower_shifted (x : Limb w) :
    (lower x <<< w.half).toNat = (lower x).toNat * radix w.half := by
  rw [BitVec.toNat_shiftLeft, Nat.shiftLeft_eq]
  apply Nat.mod_eq_of_lt
  calc (lower x).toNat * radix w.half
      < radix w.half * radix w.half := Nat.mul_lt_mul_of_pos_right (lower_lt x) (radix_pos _)
    _ = radix w.bits := (radix_bits_eq_square w).symm

/-- Two half limbs have a product of one limb. -/
theorem half_mul_lt {x y : Limb w} (hx : x.toNat < radix w.half) (hy : y.toNat < radix w.half) :
    x.toNat * y.toNat < radix w.bits := by
  rw [radix_bits_eq_square]
  exact Nat.mul_lt_mul'' hx hy

/-- The four products of halves, added up as `mul` does, are the product. Here `p`, `r` and `q`, `s`
are the halves of the two middle products and `c₁`, `c₂` the carries of the two sums in the low
limb. -/
theorem halves_product {H xu xl yu yl c₁ c₂ l₁ l₂ p q r s : ℕ}
    (hFirst : c₁ * (H * H) + l₁ = xl * yl + r * H)
    (hSecond : c₂ * (H * H) + l₂ = l₁ + s * H)
    (hLowHigh : H * p + r = xl * yu) (hHighLow : H * q + s = xu * yl) :
    (xu * yu + c₁ + p + c₂ + q) * (H * H) + l₂ = (H * xu + xl) * (H * yu + yl) := by
  linear_combination hFirst + hSecond + H * hLowHigh + H * hHighLow

/-- The low limb after the first middle product: the product of the lower halves with the lower half
of that product moved up. -/
def firstLow (x y : Limb w) : Carried w :=
  add (lower x * lower y) (lower (lower x * upper y) <<< w.half)

/-- The low limb after both middle products. -/
def secondLow (x y : Limb w) : Carried w :=
  add (firstLow x y).limb (lower (upper x * lower y) <<< w.half)

/-- What the high limb of a product is added up from: the product of the upper halves, and from each
middle product the carry out of the low limb and the upper half. -/
def highParts (x y : Limb w) : List (Limb w) :=
  [upper x * upper y, (firstLow x y).carry, upper (lower x * upper y), (secondLow x y).carry,
    upper (upper x * lower y)]

/-- The parts of the high limb, added up as numbers, and the low limb are the product. -/
theorem parts_value (x y : Limb w) :
    ((highParts x y).map BitVec.toNat).sum * radix w.bits + (secondLow x y).limb.toNat
      = x.toNat * y.toNat := by
  have hLowLow := BitVec.toNat_mul_of_lt (half_mul_lt (lower_lt x) (lower_lt y))
  have hLowHigh := BitVec.toNat_mul_of_lt (half_mul_lt (lower_lt x) (upper_lt y))
  have hHighLow := BitVec.toNat_mul_of_lt (half_mul_lt (upper_lt x) (lower_lt y))
  have hHighHigh := BitVec.toNat_mul_of_lt (half_mul_lt (upper_lt x) (upper_lt y))
  have hSum : ((highParts x y).map BitVec.toNat).sum
      = (upper x).toNat * (upper y).toNat + (firstLow x y).carry.toNat
        + (upper (lower x * upper y)).toNat + (secondLow x y).carry.toNat
        + (upper (upper x * lower y)).toNat := by
    simp only [highParts, List.map_cons, List.map_nil, List.sum_cons, List.sum_nil, hHighHigh,
      Nat.add_zero, Nat.add_assoc]
  have hFirst : (firstLow x y).carry.toNat * radix w.bits + (firstLow x y).limb.toNat
      = (lower x * lower y).toNat + (lower (lower x * upper y) <<< w.half).toNat := add_exact ..
  have hSecond : (secondLow x y).carry.toNat * radix w.bits + (secondLow x y).limb.toNat
      = (firstLow x y).limb.toNat + (lower (upper x * lower y) <<< w.half).toNat := add_exact ..
  rw [toNat_lower_shifted, radix_bits_eq_square] at hFirst hSecond
  rw [hLowLow] at hFirst
  rw [hSum, radix_bits_eq_square,
    halves_product hFirst hSecond (hLowHigh ▸ halves_value _) (hHighLow ▸ halves_value _),
    halves_value, halves_value]

/-- No product of halves overflows. What is left are the sums in the high limb. -/
theorem mul_eq_sums (x y : Limb w) :
    mul x y = (do
      let high ← (upper x * upper y).addExact (firstLow x y).carry
      let high ← high.addExact (upper (lower x * upper y))
      let high ← high.addExact (secondLow x y).carry
      let high ← high.addExact (upper (upper x * lower y))
      pure ⟨high, (secondLow x y).limb⟩) := by
  rw [mul, Limb.mulExact_eq_ok (half_mul_lt (lower_lt x) (lower_lt y)), ok_bind,
    Limb.mulExact_eq_ok (half_mul_lt (lower_lt x) (upper_lt y)), ok_bind,
    Limb.mulExact_eq_ok (half_mul_lt (upper_lt x) (lower_lt y)), ok_bind,
    Limb.mulExact_eq_ok (half_mul_lt (upper_lt x) (upper_lt y)), ok_bind]
  rfl

/-- The high limb has room for all of its parts, so no partial sum of them overflows. -/
theorem mul_parts (x y : Limb w) :
    ∃ d, mul x y = .ok d ∧ d.value = x.toNat * y.toNat ∧
      d.high.toNat = ((highParts x y).map BitVec.toNat).sum := by
  have hValue := parts_value x y
  have hFits := high_lt_of_value_lt hValue
    (Nat.mul_lt_mul'' (toNat_lt_radix x) (toNat_lt_radix y))
  simp only [highParts, List.map_cons, List.map_nil, List.sum_cons, List.sum_nil]
    at hValue hFits ⊢
  obtain ⟨high₁, hHigh₁, hValue₁⟩ :=
    Limb.addExact_eq_ok (x := upper x * upper y) (y := (firstLow x y).carry) (by omega)
  obtain ⟨high₂, hHigh₂, hValue₂⟩ :=
    Limb.addExact_eq_ok (x := high₁) (y := upper (lower x * upper y)) (by omega)
  obtain ⟨high₃, hHigh₃, hValue₃⟩ :=
    Limb.addExact_eq_ok (x := high₂) (y := (secondLow x y).carry) (by omega)
  obtain ⟨high₄, hHigh₄, hValue₄⟩ :=
    Limb.addExact_eq_ok (x := high₃) (y := upper (upper x * lower y)) (by omega)
  refine ⟨⟨high₄, (secondLow x y).limb⟩, ?_, ?_, ?_⟩
  · rw [mul_eq_sums, hHigh₁, ok_bind, hHigh₂, ok_bind, hHigh₃, ok_bind, hHigh₄]
    rfl
  · rw [WideLimb.value, ← hValue, hValue₄, hValue₃, hValue₂, hValue₁]
    simp only [Nat.add_assoc, Nat.add_zero]
  · show high₄.toNat = _
    omega

theorem mul_exact (x y : Limb w) : ∃ d, mul x y = .ok d ∧ d.value = x.toNat * y.toNat := by
  obtain ⟨d, hMul, hValue, -⟩ := mul_parts x y
  exact ⟨d, hMul, hValue⟩

-- ---------------------------------------------------------------------------
-- Multiply and accumulate
-- ---------------------------------------------------------------------------

/-- A product `h * b + l` of numbers below `b` has `h < b - 2`, or `h = b - 2` and `l = 1`: only the
square of `b - 1` comes that high. -/
theorem product_range {b x y h l : ℕ} (hb : 2 < b) (hx : x < b) (hy : y < b)
    (hValue : h * b + l = x * y) : h + 2 < b ∨ h + 2 = b ∧ l = 1 := by
  obtain ⟨k, rfl⟩ : ∃ k, b = k + 2 := ⟨b - 2, by omega⟩
  by_cases hTop : x = k + 1 ∧ y = k + 1
  · obtain ⟨rfl, rfl⟩ := hTop
    have hSquare : h * (k + 2) + l = k * (k + 2) + 1 := by
      rw [hValue]
      ring
    rcases Nat.lt_trichotomy h k with hBelow | rfl | hAbove
    · exact .inl (by omega)
    · exact .inr ⟨rfl, by omega⟩
    · have := Nat.mul_le_mul_right (k + 2) hAbove
      rw [Nat.succ_mul] at this
      omega
  · left
    have hProduct : x * y ≤ k * (k + 1) := by
      rcases Nat.lt_or_ge k x with hLarge | hSmall
      · rw [Nat.mul_comm]
        exact Nat.mul_le_mul (by omega) (by omega)
      · exact Nat.mul_le_mul hSmall (by omega)
    have hLess : h * (k + 2) < k * (k + 2) := by
      rw [Nat.mul_succ k]
      omega
    have := Nat.lt_of_mul_lt_mul_right hLess
    omega

theorem lt_neg_two_iff (x : Limb w) : x < -2 ↔ x.toNat + 2 < radix w.bits := by
  have hNeg : (-2 : Limb w).toNat + 2 = radix w.bits := by
    cases w <;> rfl
  rw [BitVec.lt_def]
  omega

theorem eq_neg_two_iff (x : Limb w) : x = -2 ↔ x.toNat + 2 = radix w.bits := by
  have hNeg : (-2 : Limb w).toNat + 2 = radix w.bits := by
    cases w <;> rfl
  rw [← BitVec.toNat_inj]
  omega

/-- The product of two limbs passes the check on products. -/
theorem inProductRange {d : WideLimb w} {x y : Limb w} (hValue : d.value = x.toNat * y.toNat) :
    InProductRange d := by
  rw [InProductRange, lt_neg_two_iff, eq_neg_two_iff, ← BitVec.toNat_inj (y := (1 : Limb w)),
    toNat_one]
  exact product_range (two_lt_radix_bits w) (toNat_lt_radix x) (toNat_lt_radix y) hValue

/-- The high limb of a product has room for two carries, and beside the largest one at most one of
them is set. -/
structure Joins (d : WideLimb w) (c₁ c₂ : Limb w) : Prop where
  fits : d.high.toNat + c₁.toNat + c₂.toNat < radix w.bits
  one : d.high < -2 ∨ c₁.toNat + c₂.toNat ≤ 1

theorem joinCarries_eq_ok {d : WideLimb w} {c₁ c₂ : Limb w} (h : Joins d c₁ c₂) :
    ∃ z, joinCarries d c₁ c₂ = .ok z ∧ z.toNat = d.high.toNat + c₁.toNat + c₂.toNat := by
  have hFits := h.fits
  obtain ⟨first, hFirst, hFirstValue⟩ := Limb.addExact_eq_ok (x := d.high) (y := c₁) (by omega)
  obtain ⟨z, hz, hzValue⟩ := Limb.addExact_eq_ok (x := first) (y := c₂) (by omega)
  refine ⟨z, ?_, by omega⟩
  rw [joinCarries]
  by_cases hHigh : d.high < -2
  · rw [if_neg (not_not.mpr hHigh), hFirst]
    exact hz
  · obtain ⟨both, hBoth, hBothValue⟩ := Limb.addExact_eq_ok (x := c₁) (y := c₂) (by omega)
    have hLe : both.toNat ≤ 1 := hBothValue ▸ h.one.resolve_left hHigh
    rw [if_pos hHigh, hBoth, hFirst]
    simp only [ok_bind, require_pos hLe]
    exact hz

/-- The two sums in the low limb of `acc + x * y + c`, and their carries. -/
theorem mulAdd_joins {d : WideLimb w} {x y : Limb w} (hValue : d.value = x.toNat * y.toNat)
    (acc c : Limb w) :
    Joins d (add acc c).carry (add (add acc c).limb d.low).carry ∧
      (d.high.toNat + (add acc c).carry.toNat + (add (add acc c).limb d.low).carry.toNat)
          * radix w.bits + (add (add acc c).limb d.low).limb.toNat
        = acc.toNat + x.toNat * y.toNat + c.toNat := by
  have hFirst := add_exact acc c
  have hSecond := add_exact (add acc c).limb d.low
  have hCarry₁ := add_carry_le acc c
  have hCarry₂ := add_carry_le (add acc c).limb d.low
  set first := add acc c
  set second := add first.limb d.low
  have hTotal : (d.high.toNat + first.carry.toNat + second.carry.toNat) * radix w.bits
      + second.limb.toNat = acc.toNat + x.toNat * y.toNat + c.toNat := by
    rw [← hValue, WideLimb.value]
    linear_combination hFirst + hSecond
  have hacc := toNat_lt_radix acc
  have hc := toNat_lt_radix c
  have hFits := high_lt_of_value_lt hTotal
    (mul_add_lt (toNat_lt_radix x) (toNat_lt_radix y) hacc hc)
  refine ⟨⟨hFits, (inProductRange hValue).imp_right ?_⟩, hTotal⟩
  rintro ⟨-, hLow⟩
  -- the low limb is one, and a sum that carried is too small to carry again
  rw [hLow, toNat_one] at hSecond
  by_contra hBoth
  rw [show first.carry.toNat = 1 by omega] at hFirst
  rw [show second.carry.toNat = 1 by omega] at hSecond
  omega

theorem mulAdd_exact (acc x y c : Limb w) :
    ∃ s, mulAdd acc x y c = .ok s ∧
      s.carry.toNat * radix w.bits + s.limb.toNat = acc.toNat + x.toNat * y.toNat + c.toNat := by
  obtain ⟨d, hMul, hValue⟩ := mul_exact x y
  obtain ⟨hJoins, hTotal⟩ := mulAdd_joins hValue acc c
  obtain ⟨z, hz, hzValue⟩ := joinCarries_eq_ok hJoins
  refine ⟨⟨z, (add (add acc c).limb d.low).limb⟩, ?_, ?_⟩
  · simp only [mulAdd, hMul, ok_bind, require_pos (inProductRange hValue), hz]
    rfl
  · rw [hzValue, hTotal]

/-- The two differences in the low limb of `acc - x * y - c`, and their borrows. -/
theorem mulSub_joins {d : WideLimb w} {x y : Limb w} (hValue : d.value = x.toNat * y.toNat)
    (acc c : Limb w) :
    Joins d (sub acc c).carry (sub (sub acc c).limb d.low).carry ∧
      (sub (sub acc c).limb d.low).limb.toNat + (x.toNat * y.toNat + c.toNat)
        = acc.toNat + (d.high.toNat + (sub acc c).carry.toNat
          + (sub (sub acc c).limb d.low).carry.toNat) * radix w.bits := by
  have hFirst := sub_exact acc c
  have hSecond := sub_exact (sub acc c).limb d.low
  have hCarry₁ := sub_carry_le acc c
  have hCarry₂ := sub_carry_le (sub acc c).limb d.low
  set first := sub acc c
  set second := sub first.limb d.low
  have hTotal : (d.high.toNat + first.carry.toNat + second.carry.toNat) * radix w.bits
      + acc.toNat = second.limb.toNat + (x.toNat * y.toNat + c.toNat) := by
    rw [← hValue, WideLimb.value]
    linear_combination -hFirst - hSecond
  have hLimb := toNat_lt_radix second.limb
  have hc := toNat_lt_radix c
  have hFits := high_lt_of_value_lt hTotal
    (Nat.add_assoc _ _ _ ▸ mul_add_lt (toNat_lt_radix x) (toNat_lt_radix y) hLimb hc)
  refine ⟨⟨hFits, (inProductRange hValue).imp_right ?_⟩, ?_⟩
  · rintro ⟨-, hLow⟩
    -- the low limb is one, and a difference that borrowed is too large to borrow again
    rw [hLow, toNat_one] at hSecond
    by_contra hBoth
    rw [show first.carry.toNat = 1 by omega] at hFirst
    rw [show second.carry.toNat = 1 by omega] at hSecond
    omega
  · rw [← hTotal, Nat.add_comm]

theorem mulSub_exact (acc x y c : Limb w) :
    ∃ s, mulSub acc x y c = .ok s ∧
      s.limb.toNat + (x.toNat * y.toNat + c.toNat) = acc.toNat + s.carry.toNat * radix w.bits := by
  obtain ⟨d, hMul, hValue⟩ := mul_exact x y
  obtain ⟨hJoins, hTotal⟩ := mulSub_joins hValue acc c
  obtain ⟨z, hz, hzValue⟩ := joinCarries_eq_ok hJoins
  refine ⟨⟨z, (sub (sub acc c).limb d.low).limb⟩, ?_, ?_⟩
  · simp only [mulSub, hMul, ok_bind, require_pos (inProductRange hValue), hz]
    rfl
  · rw [hzValue, hTotal]

-- ---------------------------------------------------------------------------
-- All products
-- ---------------------------------------------------------------------------

/-- **Products are exact and never overflow.** Whatever the limbs: their halves have products of one
limb, the high limb is the sum of its parts as numbers, both limbs together are the product, and no
product is above the square of the largest limb. It is added to any limb, and subtracted from any,
along with a carry or borrow that may be a full limb itself. The two carries out of the low limb then
join the high one without an overflow, and beside the largest high limb there is at most one. None of
the checks on the way fails, so each operation answers. -/
theorem products_exact (x y : Limb w) :
    (∀ a ∈ [upper x, lower x], ∀ b ∈ [upper y, lower y], a.toNat * b.toNat < radix w.bits) ∧
    ∃ d, mul x y = .ok d ∧ d.value = x.toNat * y.toNat ∧
      d.high.toNat = ((highParts x y).map BitVec.toNat).sum ∧ InProductRange d ∧
      ∀ acc c : Limb w,
        (∃ s, mulAdd acc x y c = .ok s ∧
          s.carry.toNat * radix w.bits + s.limb.toNat = acc.toNat + x.toNat * y.toNat + c.toNat ∧
          Joins d (add acc c).carry (add (add acc c).limb d.low).carry) ∧
        ∃ s, mulSub acc x y c = .ok s ∧
          s.limb.toNat + (x.toNat * y.toNat + c.toNat) = acc.toNat + s.carry.toNat * radix w.bits ∧
          Joins d (sub acc c).carry (sub (sub acc c).limb d.low).carry := by
  refine ⟨?_, ?_⟩
  · intro a ha b hb
    have hHalf : ∀ z : Limb w, ∀ half ∈ [upper z, lower z], half.toNat < radix w.half := by
      simp only [List.forall_mem_cons]
      exact fun z => ⟨upper_lt z, lower_lt z, List.forall_mem_nil _⟩
    exact half_mul_lt (hHalf x a ha) (hHalf y b hb)
  · obtain ⟨d, hMul, hValue, hHigh⟩ := mul_parts x y
    refine ⟨d, hMul, hValue, hHigh, inProductRange hValue, ?_⟩
    intro acc c
    obtain ⟨sum, hAdd, hSum⟩ := mulAdd_exact acc x y c
    obtain ⟨difference, hSub, hDifference⟩ := mulSub_exact acc x y c
    exact ⟨⟨sum, hAdd, hSum, (mulAdd_joins hValue acc c).1⟩,
      ⟨difference, hSub, hDifference, (mulSub_joins hValue acc c).1⟩⟩

/-- The largest limbs all at once fill both limbs of the sum to the last bit. -/
theorem products_exact_largest :
    upper (-1 : Limb .w32) ∈ [upper (-1 : Limb .w32), lower (-1)] ∧
      (upper (-1 : Limb .w32)).toNat * (upper (-1 : Limb .w32)).toNat < radix 32 ∧
      ∃ s, mulAdd (-1 : Limb .w32) (-1) (-1) (-1) = .ok s ∧
        s.carry.toNat * radix 32 + s.limb.toNat + 1 = radix 64 := by
  have hMem : upper (-1 : Limb .w32) ∈ [upper (-1 : Limb .w32), lower (-1)] := List.mem_cons_self
  obtain ⟨hHalves, d, -, -, -, -, hAccumulate⟩ := products_exact (-1 : Limb .w32) (-1)
  obtain ⟨s, hAdd, hSum, -⟩ := (hAccumulate (-1) (-1)).1
  refine ⟨hMem, hHalves _ hMem _ hMem, s, hAdd, ?_⟩
  rw [hSum]
  rfl

-- ---------------------------------------------------------------------------
-- All laws
-- ---------------------------------------------------------------------------

/--
**The portable primitives are lawful**, for limbs of either width.
-/
theorem lawful (w : Width) : (alu w).Lawful where
  isNonzero := isNonzero_eq
  isZero := isZero_eq
  add := add_exact
  addCarry := addCarry_exact
  addCarry_refused x y c hc := by
    show addCarry x y c = _
    rw [addCarry, require_neg (by omega), error_bind]
  sub := sub_exact
  subBorrow := subBorrow_exact
  subBorrow_refused x y c hc := by
    show subBorrow x y c = _
    rw [subBorrow, require_neg (by omega), error_bind]
  mul := mul_exact
  mulAdd := mulAdd_exact
  mulSub := mulSub_exact

end Portable

end LimbArith
