import Mathlib.Data.List.DropRight
import LimbArith.Proofs.Limbs.Value

/-!
# LimbArith — digits without leading zeros

A number has one list of digits that does not end with a zero at the top. Its
length grows with the number, so such lists are ordered by their lengths first.

Main results:

* `Canonical.length_le` — a smaller number has no more digits.
* `Canonical.eq_of_value_eq` — equal numbers have equal digits.
* `canonical_rdropWhile`, `value_rdropWhile` — leading zeros can be dropped.
* `canonical_ofNat` — as many digits as a number needs.
-/

namespace LimbArith.Digits

variable {k : ℕ} {ds es : List (BitVec k)}

/-- No leading zero: the most significant digit, if there is one, is not zero. -/
def Canonical (ds : List (BitVec k)) : Prop := ds.getLast? ≠ some 0

instance (ds : List (BitVec k)) : Decidable (Canonical ds) := inferInstanceAs (Decidable (_ ≠ _))

theorem canonical_nil : Canonical ([] : List (BitVec k)) := by
  simp [Canonical]

theorem canonical_concat {d : BitVec k} : Canonical (ds ++ [d]) ↔ d ≠ 0 := by
  simp [Canonical]

theorem value_concat (ds : List (BitVec k)) (d : BitVec k) :
    value (ds ++ [d]) = value ds + radix (k * ds.length) * d.toNat := by
  rw [value_append, value_cons, value_nil, Nat.mul_zero, Nat.add_zero]

-- ---------------------------------------------------------------------------
-- Length and value
-- ---------------------------------------------------------------------------

/-- A digit at the top that is not zero counts at its place. -/
theorem Canonical.radix_le_value (h : Canonical ds) (hNonempty : ds ≠ []) :
    radix (k * (ds.length - 1)) ≤ value ds := by
  rcases List.eq_nil_or_concat' ds with hNil | ⟨low, top, rfl⟩
  · exact absurd hNil hNonempty
  · have hTop : 0 < top.toNat :=
      Nat.pos_of_ne_zero fun hz => canonical_concat.mp h (BitVec.eq_of_toNat_eq hz)
    rw [value_concat, List.length_append, List.length_singleton, Nat.add_sub_cancel]
    exact le_trans (Nat.le_mul_of_pos_right _ hTop) (Nat.le_add_left ..)

/-- A smaller number has no more digits, if it has no leading zeros. -/
theorem Canonical.length_le (h : Canonical ds) (hValue : value ds ≤ value es) :
    ds.length ≤ es.length := by
  by_contra hLong
  have hNonempty : ds ≠ [] := by
    rintro rfl
    simp at hLong
  have hPlaces : k * es.length ≤ k * (ds.length - 1) := Nat.mul_le_mul_left k (by omega)
  have hLess : value es < value ds :=
    calc value es < radix (k * es.length) := value_lt es
      _ ≤ radix (k * (ds.length - 1)) := Nat.pow_le_pow_right (by decide) hPlaces
      _ ≤ value ds := h.radix_le_value hNonempty
  omega

/-- Without leading zeros, equal numbers have equal digits. -/
theorem Canonical.eq_of_value_eq (hds : Canonical ds) (hes : Canonical es)
    (hValue : value ds = value es) : ds = es :=
  Digits.eq_of_value_eq
    (le_antisymm (hds.length_le (le_of_eq hValue)) (hes.length_le (le_of_eq hValue.symm))) hValue

-- ---------------------------------------------------------------------------
-- Dropping leading zeros
-- ---------------------------------------------------------------------------

theorem canonical_rdropWhile (ds : List (BitVec k)) : Canonical (ds.rdropWhile (· == 0)) := by
  induction ds using List.reverseRecOn with
  | nil => simp [Canonical]
  | append_singleton ds d ih =>
    by_cases hd : d = 0
    · rw [List.rdropWhile_concat_pos _ _ _ (by simp [hd])]
      exact ih
    · rw [List.rdropWhile_concat_neg _ _ _ (by simpa using hd)]
      exact canonical_concat.mpr hd

theorem value_rdropWhile (ds : List (BitVec k)) :
    value (ds.rdropWhile (· == 0)) = value ds := by
  induction ds using List.reverseRecOn with
  | nil => simp
  | append_singleton ds d ih =>
    by_cases hd : d = 0
    · rw [List.rdropWhile_concat_pos _ _ _ (by simp [hd]), ih, value_concat, hd]
      rfl
    · rw [List.rdropWhile_concat_neg _ _ _ (by simpa using hd)]

-- ---------------------------------------------------------------------------
-- As many digits as a number needs
-- ---------------------------------------------------------------------------

/-- The digits of a number have no leading zero if it takes all of them. -/
theorem canonical_ofNat {n v : ℕ} (hFits : v < radix (k * n))
    (hTakes : n ≠ 0 → radix (k * (n - 1)) ≤ v) : Canonical (ofNat n v : List (BitVec k)) := by
  have hValue : value (ofNat n v : List (BitVec k)) = v := value_ofNat_of_lt hFits
  have hLength : (ofNat n v : List (BitVec k)).length = n := length_ofNat n v
  rcases List.eq_nil_or_concat' (ofNat n v : List (BitVec k)) with hNil | ⟨low, top, hTop⟩
  · rw [hNil]
    exact canonical_nil
  · rw [hTop, List.length_append, List.length_singleton] at hLength
    rw [hTop, value_concat] at hValue
    rw [hTop, canonical_concat]
    -- were the top digit zero, the others would be enough
    rintro rfl
    have hLow := value_lt low
    have hEnough := hTakes (by omega)
    rw [← hLength, Nat.add_sub_cancel] at hEnough
    rw [show (0 : BitVec k).toNat = 0 from rfl, Nat.mul_zero, Nat.add_zero] at hValue
    omega

end LimbArith.Digits
