import LimbArith.Limbs.Compare
import LimbArith.Proofs.Canonical
import LimbArith.Proofs.Limbs.Length
import LimbArith.Proofs.Primitive.Comparison
import LimbArith.Proofs.Primitive.Implementation

/-!
# LimbArith — the order of arrays

Main results:

* `scan_exact` — the scan from the top decides the order of two arrays of equal
  length.
* `signOf`, `compareSame_exact` — the sign by which two numbers compare, and that
  arrays answer with that of their values.
* `Relation.Holds`, `relation_exact` — what each of the relations asks, and that
  its mask is the answer.
* `compareLimb_exact` — an array of any length and a limb.
* `compareNormalized_exact` — any two arrays without leading zeros.
* `comparisons_exact` — all comparisons are those of the values.
* `take_significantLen` — the limbs up to the topmost one that is not zero.
-/

namespace LimbArith

/-- The relation of two numbers that a comparison asks for. -/
def Relation.Holds : Relation → ℕ → ℕ → Prop
  | eq, m, n => m = n
  | lt, m, n => m < n
  | le, m, n => m ≤ n
  | gt, m, n => n < m
  | ge, m, n => n ≤ m

instance (r : Relation) (m n : ℕ) : Decidable (r.Holds m n) :=
  match r with
  | .eq => inferInstanceAs (Decidable (m = n))
  | .lt => inferInstanceAs (Decidable (m < n))
  | .le => inferInstanceAs (Decidable (m ≤ n))
  | .gt => inferInstanceAs (Decidable (n < m))
  | .ge => inferInstanceAs (Decidable (n ≤ m))

-- ---------------------------------------------------------------------------
-- Digits
-- ---------------------------------------------------------------------------

namespace Digits

variable {k : ℕ} {d e : BitVec k} {ds es : List (BitVec k)}

/-- A number with a smaller upper part is smaller, whatever the lowest digits are. -/
theorem value_cons_lt_of_lt (h : value ds < value es) : value (d :: ds) < value (e :: es) := by
  have hDigit := toNat_lt_radix d
  have hUpper := Nat.mul_le_mul_left (radix k) (Nat.succ_le_of_lt h)
  rw [Nat.mul_succ] at hUpper
  rw [value_cons, value_cons]
  omega

/-- The lowest digit only counts between equal upper parts. -/
theorem value_cons_lt_iff :
    value (d :: ds) < value (e :: es) ↔
      value ds < value es ∨ value ds = value es ∧ d.toNat < e.toNat := by
  rcases lt_trichotomy (value ds) (value es) with hLess | hSame | hMore
  · simp only [hLess, true_or, iff_true]
    exact value_cons_lt_of_lt hLess
  · rw [value_cons, value_cons, hSame]
    omega
  · have hGreater : value (e :: es) < value (d :: ds) := value_cons_lt_of_lt hMore
    omega

theorem value_cons_eq_iff :
    value (d :: ds) = value (e :: es) ↔ value ds = value es ∧ d = e := by
  rcases lt_trichotomy (value ds) (value es) with hLess | hSame | hMore
  · have := value_cons_lt_of_lt (d := d) (e := e) hLess
    omega
  · rw [value_cons, value_cons, hSame, BitVec.toNat_eq]
    omega
  · have := value_cons_lt_of_lt (d := e) (e := d) hMore
    omega

end Digits

-- ---------------------------------------------------------------------------
-- Arrays of equal length
-- ---------------------------------------------------------------------------

namespace Limbs

variable {w : Width} {alu : Alu w}

/-- Below the first difference nothing counts, so what is left of the scan is the order of the
values. -/
theorem scan_exact (hAlu : alu.Lawful) : ∀ xs ys : Limbs w, xs.length = ys.length →
    scan alu xs ys
      = .ok ⟨Mask.decide (value xs < value ys), Mask.decide (value xs = value ys)⟩ := by
  intro xs
  induction xs with
  | nil =>
    intro ys hLength
    rw [List.eq_nil_of_length_eq_zero hLength.symm]
    rfl
  | cons x xs ih =>
    intro ys hLength
    cases ys with
    | nil => simp at hLength
    | cons y ys =>
      have hAbove := ih ys (by simpa using hLength)
      rw [scan, hAbove, ok_bind, hAlu.lt_exact, ok_bind, hAlu.eq_exact, ok_bind]
      simp only [Mask.and_decide, Mask.or_decide]
      rw [Mask.decide_congr Digits.value_cons_lt_iff, Mask.decide_congr Digits.value_cons_eq_iff]
      rfl

theorem scanSame_exact (hAlu : alu.Lawful) {xs ys : Limbs w} (hLength : xs.length = ys.length) :
    scanSame alu xs ys
      = .ok ⟨Mask.decide (value xs < value ys), Mask.decide (value xs = value ys)⟩ := by
  rw [scanSame, require_pos hLength, ok_bind, scan_exact hAlu xs ys hLength]

/-- The scan from the bottom knows at each position whether all limbs so far are equal. -/
theorem scanEq_exact (hAlu : alu.Lawful) {p : Prop} [Decidable p] {xs ys : Limbs w}
    (hLength : xs.length = ys.length) :
    scanEq alu (Mask.decide p) xs ys = .ok (Mask.decide (p ∧ xs = ys)) := by
  induction xs generalizing p ys with
  | nil =>
    rw [List.eq_nil_of_length_eq_zero hLength.symm]
    exact congrArg Except.ok (Mask.decide_congr (and_iff_left rfl).symm)
  | cons x xs ih =>
    cases ys with
    | nil => simp at hLength
    | cons y ys =>
      rw [scanEq, hAlu.eq_exact, ok_bind, Mask.and_decide, ih (Nat.succ.inj hLength)]
      exact congrArg Except.ok (Mask.decide_congr (by rw [List.cons.injEq, and_assoc]))

/-- Minus one if the first number is below the second, zero if they are equal, else one. -/
def signOf (m n : ℕ) : ℤ := if m < n then -1 else if m = n then 0 else 1

/-- The order of two numbers is that of their sign and zero. -/
theorem compare_signOf (m n : ℕ) : compare (signOf m n) 0 = compare m n := by
  unfold signOf
  rcases lt_trichotomy m n with hLess | hSame | hMore
  · rw [if_pos hLess, Nat.compare_eq_lt.mpr hLess]
    rfl
  · rw [if_neg (by omega), if_pos hSame, Nat.compare_eq_eq.mpr hSame]
    rfl
  · rw [if_neg (by omega), if_neg (by omega), Nat.compare_eq_gt.mpr hMore]
    rfl

/-- Of two statements that exclude each other, the difference of the bits tells which one holds. -/
theorem sign_decide (m n : ℕ) :
    sign (Mask.decide (n < m) : Mask w) (Mask.decide (m < n)) = signOf m n := by
  unfold sign signOf
  rw [Mask.toNat_bit_decide, Mask.toNat_bit_decide]
  rcases lt_trichotomy m n with hLess | hSame | hMore
  · rw [if_neg (by omega), if_pos hLess, if_pos hLess]
    rfl
  · rw [if_neg (by omega), if_neg (by omega), if_neg (by omega), if_pos hSame]
    rfl
  · rw [if_pos hMore, if_neg (by omega), if_neg (by omega), if_neg (by omega)]
    rfl

/-- The sign of two arrays of equal length is that of their values. -/
theorem compareSame_exact (hAlu : alu.Lawful) {xs ys : Limbs w} (hLength : xs.length = ys.length) :
    compareSame alu xs ys = .ok (signOf (value xs) (value ys)) := by
  have hAbove : ¬ (value xs < value ys ∨ value xs = value ys) ↔ value ys < value xs := by omega
  rw [compareSame, scanSame_exact hAlu hLength, ok_bind, Mask.or_decide, Mask.not_decide,
    Mask.decide_congr hAbove, sign_decide]
  rfl

-- ---------------------------------------------------------------------------
-- Relations
-- ---------------------------------------------------------------------------

/-- Arrays of equal length are equal exactly if their values are. -/
theorem eq_values (hAlu : alu.Lawful) {xs ys : Limbs w} (hLength : xs.length = ys.length) :
    eq alu xs ys = .ok (Mask.decide (value xs = value ys)) := by
  have hStart : (Mask.set : Mask w) = Mask.decide True := (if_pos trivial).symm
  have hEqual : True ∧ xs = ys ↔ value xs = value ys :=
    ⟨fun h => congrArg value h.2, fun h => ⟨trivial, Digits.eq_of_value_eq hLength h⟩⟩
  rw [eq, require_pos hLength, ok_bind, hStart, scanEq_exact hAlu hLength, Mask.decide_congr hEqual]

theorem lt_values (hAlu : alu.Lawful) {xs ys : Limbs w} (hLength : xs.length = ys.length) :
    lt alu xs ys = .ok (Mask.decide (value xs < value ys)) := by
  rw [lt, scanSame_exact hAlu hLength]
  rfl

theorem le_values (hAlu : alu.Lawful) {xs ys : Limbs w} (hLength : xs.length = ys.length) :
    le alu xs ys = .ok (Mask.decide (value xs ≤ value ys)) := by
  rw [le, scanSame_exact hAlu hLength, ok_bind, Mask.or_decide, Mask.decide_congr le_iff_lt_or_eq.symm]
  rfl

/-- The mask of a relation is whether it holds between the values. -/
theorem relation_exact (hAlu : alu.Lawful) (r : Relation) {xs ys : Limbs w}
    (hLength : xs.length = ys.length) :
    r.decide alu xs ys = .ok (Mask.decide (r.Holds (value xs) (value ys))) := by
  cases r with
  | eq => exact eq_values hAlu hLength
  | lt => exact lt_values hAlu hLength
  | le => exact le_values hAlu hLength
  | gt => exact lt_values hAlu hLength.symm
  | ge => exact le_values hAlu hLength.symm

-- ---------------------------------------------------------------------------
-- An array and a limb
-- ---------------------------------------------------------------------------

theorem value_cons_eq_zero_iff {x : Limb w} {xs : Limbs w} :
    value (x :: xs) = 0 ↔ x = 0 ∧ value xs = 0 := by
  rw [value_cons, Nat.add_eq_zero_iff, Nat.mul_eq_zero, or_iff_right (radix_pos w.bits).ne',
    BitVec.toNat_eq, toNat_zero]

/-- The bits of all limbs together are zero only if all limbs are. -/
theorem foldl_or_eq_zero_iff (xs : Limbs w) (acc : Limb w) :
    xs.foldl (· ||| ·) acc = 0 ↔ acc = 0 ∧ value xs = 0 := by
  induction xs generalizing acc with
  | nil => exact (and_iff_left rfl).symm
  | cons x xs ih =>
    rw [List.foldl_cons, ih, value_cons_eq_zero_iff, ← and_assoc]
    exact and_congr_left fun _ => BitVec.or_eq_zero_iff

theorem isZero_exact (hAlu : alu.Lawful) (xs : Limbs w) :
    isZero alu xs = .ok (Mask.decide (value xs = 0)) := by
  have hZero : xs.foldl (· ||| ·) 0 = 0 ↔ value xs = 0 :=
    (foldl_or_eq_zero_iff xs 0).trans (and_iff_right rfl)
  rw [isZero, hAlu.isZero, Mask.ofLimb_ite, Mask.decide_congr hZero]

/-- An array is below a limb only if all its other limbs are zero. -/
theorem value_cons_lt_limb_iff {x y : Limb w} {xs : Limbs w} :
    value (x :: xs) < y.toNat ↔ value xs = 0 ∧ x.toNat < y.toNat := by
  rw [← value_singleton y, value, Digits.value_cons_lt_iff]
  exact or_iff_right (Nat.not_lt_zero _)

/-- An array is above a limb if one of its other limbs is not zero. -/
theorem limb_lt_value_cons_iff {x y : Limb w} {xs : Limbs w} :
    y.toNat < value (x :: xs) ↔ ¬ value xs = 0 ∨ y.toNat < x.toNat := by
  have hy := toNat_lt_radix y
  rw [value_cons]
  rcases Nat.eq_zero_or_pos (value xs) with hZero | hPos
  · rw [hZero]
    omega
  · have := Nat.le_mul_of_pos_right (radix w.bits) hPos
    omega

theorem compareLimb_cons (hAlu : alu.Lawful) (x : Limb w) (xs : Limbs w) (y : Limb w) :
    compareLimb alu (x :: xs) y = .ok (signOf (value (x :: xs)) y.toNat) := by
  rw [compareLimb]
  simp only [isZero_exact hAlu, Alu.gt, hAlu.lt_exact, ok_bind, Mask.not_decide, Mask.or_decide,
    Mask.and_decide]
  rw [Mask.decide_congr limb_lt_value_cons_iff.symm, Mask.decide_congr value_cons_lt_limb_iff.symm,
    sign_decide]
  rfl

/-- The sign of an array and a limb is that of their values, leading zeros or not. -/
theorem compareLimb_exact (hAlu : alu.Lawful) (xs : Limbs w) (y : Limb w) :
    compareLimb alu xs y = .ok (signOf (value xs) y.toNat) := by
  cases xs with
  | nil =>
    -- no limbs at all are compared like a single zero
    have hZero : value ([0] : Limbs w) = 0 := value_zeros 1
    have hEmpty : compareLimb alu [] y = compareLimb alu [0] y := rfl
    rw [hEmpty, compareLimb_cons hAlu, hZero, value_nil]
  | cons x xs => exact compareLimb_cons hAlu x xs y

-- ---------------------------------------------------------------------------
-- Arrays without leading zeros
-- ---------------------------------------------------------------------------

theorem take_significantLen (xs : Limbs w) :
    xs.take (significantLen xs) = xs.rdropWhile (· == 0) := by
  have hLength : (xs.rdropWhile (· == 0)).length = significantLen xs := by
    rw [List.rdropWhile, List.length_reverse]
    rfl
  rw [← hLength]
  exact (List.prefix_iff_eq_take.mp (List.rdropWhile_prefix _ _)).symm

theorem canonical_take_significantLen (xs : Limbs w) :
    Digits.Canonical (xs.take (significantLen xs)) := by
  rw [take_significantLen]
  exact Digits.canonical_rdropWhile xs

/-- The comparison of two arrays without leading zeros is that of their values, and never
refused. -/
theorem compareNormalized_exact (hAlu : alu.Lawful) {xs ys : Limbs w} (hxs : Digits.Canonical xs)
    (hys : Digits.Canonical ys) :
    compareNormalized alu xs ys = .ok (compare (value xs) (value ys)) := by
  rw [compareNormalized, require_pos ((normalized_iff xs).mpr hxs), ok_bind,
    require_pos ((normalized_iff ys).mpr hys), ok_bind]
  rcases lt_trichotomy xs.length ys.length with hLess | hSame | hMore
  -- a longer array without leading zeros has a larger value
  · have hValue : value xs < value ys := by
      by_contra hNot
      have := hys.length_le (not_lt.mp hNot)
      omega
    rw [Nat.compare_eq_lt.mpr hLess, Nat.compare_eq_lt.mpr hValue]
    rfl
  · rw [Nat.compare_eq_eq.mpr hSame]
    dsimp only
    rw [compareSame_exact hAlu hSame, ok_bind, compare_signOf]
    rfl
  · have hValue : value ys < value xs := by
      by_contra hNot
      have := hxs.length_le (not_lt.mp hNot)
      omega
    rw [Nat.compare_eq_gt.mpr hMore, Nat.compare_eq_gt.mpr hValue]
    rfl

-- ---------------------------------------------------------------------------
-- All comparisons
-- ---------------------------------------------------------------------------

/-- **Comparisons are those of the values.** For every implementation of the primitives: two arrays
of equal length answer with minus one, zero or one as their values compare, and the mask of each
relation is set exactly if it holds between them; an array of any length answers so against a limb;
and any two arrays without leading zeros, of whatever lengths, are ordered as their values are. None
of these calls is ever refused. -/
theorem comparisons_exact (impl : Implementation w) :
    (∀ xs ys : Limbs w, xs.length = ys.length →
      compareSame impl.alu xs ys = .ok (signOf (value xs) (value ys)) ∧
      ∀ r : Relation,
        r.decide impl.alu xs ys = .ok (Mask.decide (r.Holds (value xs) (value ys)))) ∧
    (∀ (xs : Limbs w) (y : Limb w),
      compareLimb impl.alu xs y = .ok (signOf (value xs) y.toNat)) ∧
    ∀ xs ys : Limbs w, Digits.Canonical xs → Digits.Canonical ys →
      compareNormalized impl.alu xs ys = .ok (compare (value xs) (value ys)) := by
  have hAlu := impl.lawful
  refine ⟨?_, compareLimb_exact hAlu, ?_⟩
  · intro xs ys hLength
    exact ⟨compareSame_exact hAlu hLength, fun r => relation_exact hAlu r hLength⟩
  · intro xs ys hxs hys
    exact compareNormalized_exact hAlu hxs hys

/-- The upper limb decides over the largest lower one, between equal lengths and between different
ones, and zeros above do not count against a limb. -/
theorem comparisons_exact_upper :
    ([0, 2] : Limbs .w32).length = ([-1, 1] : Limbs .w32).length ∧
      Digits.Canonical ([0, 1] : Limbs .w32) ∧ Digits.Canonical ([-1] : Limbs .w32) ∧
      compareSame (Implementation.portable .w32).alu [0, 2] [-1, 1] = .ok 1 ∧
      Relation.lt.decide (Implementation.portable .w32).alu [0, 2] [-1, 1] = .ok .unset ∧
      compareLimb (Implementation.portable .w32).alu [5, 0] 5 = .ok 0 ∧
      compareNormalized (Implementation.portable .w32).alu [0, 1] [-1] = .ok .gt := by
  have hLow : Digits.Canonical ([0, 1] : Limbs .w32) := by decide
  have hOne : Digits.Canonical ([-1] : Limbs .w32) := by decide
  obtain ⟨hSame, hLimb, hNormalized⟩ := comparisons_exact (.portable .w32)
  obtain ⟨hCompare, hRelation⟩ := hSame [0, 2] [-1, 1] rfl
  exact ⟨rfl, hLow, hOne, hCompare, hRelation .lt, hLimb [5, 0] 5, hNormalized [0, 1] [-1] hLow hOne⟩

end Limbs

end LimbArith
