import Mathlib.Tactic.Ring
import Mathlib.Tactic.Linarith
import Mathlib.Tactic.LinearCombination
import LimbArith.Limbs.Basic

/-!
# LimbArith — values of digit lists

A list of digits of given length and the number it stands for determine each
other. `Digits.ofNat n v` is the list of the lowest `n` digits of `v`; a result
that is known by its value is thereby known limb by limb, and the results of the
kernel can be written down as equations.

Main results:

* `Digits.value_ofNat` / `Digits.ofNat_value` — the two directions.
* `Digits.eq_of_value_eq` — equal lengths and equal values make equal lists.
* `Digits.value_take_add` — a value in a low and a high part.
-/

namespace LimbArith

theorem radix_mul_succ (k n : ℕ) : radix (k * (n + 1)) = radix k * radix (k * n) := by
  rw [Nat.mul_succ, radix_add, Nat.mul_comm]

theorem radix_mul_add (k m n : ℕ) : radix (k * (m + n)) = radix (k * m) * radix (k * n) := by
  rw [Nat.mul_add, radix_add]

namespace Digits

variable {k : ℕ}

/-- The lowest `n` digits of a number. -/
def ofNat : (n v : ℕ) → List (BitVec k)
  | 0, _ => []
  | n + 1, v => BitVec.ofNat k v :: ofNat n (v / radix k)

@[simp] theorem length_ofNat (n v : ℕ) : (ofNat n v : List (BitVec k)).length = n := by
  induction n generalizing v with
  | zero => rfl
  | succ n ih => simp [ofNat, ih]

/-- Digits that are cut off do not count. -/
theorem value_ofNat (n v : ℕ) : value (ofNat n v : List (BitVec k)) = v % radix (k * n) := by
  induction n generalizing v with
  | zero =>
    rw [Nat.mul_zero, radix_zero, Nat.mod_one]
    rfl
  | succ n ih =>
    rw [ofNat, value_cons, ih, radix_mul_succ, Nat.mod_mul, BitVec.toNat_ofNat]
    rfl

/-- A number that fits keeps its value. -/
theorem value_ofNat_of_lt {n v : ℕ} (h : v < radix (k * n)) :
    value (ofNat n v : List (BitVec k)) = v := by
  rw [value_ofNat, Nat.mod_eq_of_lt h]

/-- The digits of a value are the digits it came from. -/
theorem ofNat_value (ds : List (BitVec k)) : ofNat ds.length (value ds) = ds := by
  induction ds with
  | nil => rfl
  | cons d ds ih =>
    have hLow : BitVec.ofNat k (value (d :: ds)) = d := by
      apply BitVec.eq_of_toNat_eq
      rw [BitVec.toNat_ofNat, value_cons]
      exact (Nat.add_mul_mod_self_left ..).trans (Nat.mod_eq_of_lt d.isLt)
    have hHigh : value (d :: ds) / radix k = value ds := by
      rw [value_cons, Nat.add_mul_div_left _ _ (radix_pos k),
        Nat.div_eq_of_lt (toNat_lt_radix d), Nat.zero_add]
    rw [List.length_cons, ofNat, hLow, hHigh, ih]

/-- A list of digits is known by its length and its value. -/
theorem eq_ofNat {n v : ℕ} {ds : List (BitVec k)} (hLength : ds.length = n)
    (hValue : value ds = v) : ds = ofNat n v := by
  rw [← hLength, ← hValue, ofNat_value]

/-- Equal lengths and equal values make equal lists. -/
theorem eq_of_value_eq {ds es : List (BitVec k)} (hLength : ds.length = es.length)
    (hValue : value ds = value es) : ds = es := by
  rw [eq_ofNat hLength hValue, ofNat_value]

/-- Digits are below the radix of any number of digits that is not less than their own. -/
theorem value_lt_of_length_le {n : ℕ} {ds : List (BitVec k)} (h : ds.length ≤ n) :
    value ds < radix (k * n) :=
  lt_of_lt_of_le (value_lt ds) (Nat.pow_le_pow_right (by decide) (Nat.mul_le_mul_left k h))

/-- The lowest digits of the lowest digits. -/
theorem take_ofNat {m n : ℕ} (h : m ≤ n) (v : ℕ) :
    (ofNat n v : List (BitVec k)).take m = ofNat m v := by
  induction m generalizing n v with
  | zero => rfl
  | succ m ih =>
    obtain ⟨n, rfl⟩ := Nat.exists_eq_add_of_lt h
    rw [ofNat, ofNat, List.take_succ_cons, ih (Nat.le_add_right m n)]

-- ---------------------------------------------------------------------------
-- Parts
-- ---------------------------------------------------------------------------

theorem value_replicate_zero (n : ℕ) : value (List.replicate n (0 : BitVec k)) = 0 := by
  induction n with
  | zero => rfl
  | succ n ih =>
    rw [List.replicate_succ, value_cons, ih]
    rfl

/-- Zeros above the digits do not count. -/
theorem value_append_zeros (ds : List (BitVec k)) (n : ℕ) :
    value (ds ++ List.replicate n 0) = value ds := by
  rw [value_append, value_replicate_zero, Nat.mul_zero, Nat.add_zero]

/-- A value in a low and a high part. -/
theorem value_take_add {n : ℕ} {ds : List (BitVec k)} (h : n ≤ ds.length) :
    value (ds.take n) + radix (k * n) * value (ds.drop n) = value ds := by
  have hSplit := value_append (ds.take n) (ds.drop n)
  rw [List.take_append_drop, List.length_take_of_le h] at hSplit
  exact hSplit.symm

/-- A value around one of its digits. -/
theorem value_eq_around {n : ℕ} {ds : List (BitVec k)} (h : n < ds.length) :
    value ds = value (ds.take n)
      + radix (k * n) * (ds[n].toNat + radix k * value (ds.drop (n + 1))) := by
  rw [← value_take_add (le_of_lt h), ← value_cons, List.getElem_cons_drop h]

/-- What changing one digit adds is counted at its place. -/
theorem value_modify {n : ℕ} {ds : List (BitVec k)} (h : n < ds.length)
    {f : BitVec k → BitVec k} {v : ℕ} (hAdds : (f ds[n]).toNat = ds[n].toNat + v) :
    value (ds.modify n f) = value ds + radix (k * n) * v := by
  rw [List.modify_eq_take_cons_drop h, value_append, value_cons, hAdds,
    List.length_take_of_le (le_of_lt h), value_eq_around h]
  ring

end Digits

namespace Limbs

variable {w : Width}

theorem value_nil : value ([] : Limbs w) = 0 := rfl

theorem value_cons (x : Limb w) (xs : Limbs w) :
    value (x :: xs) = x.toNat + radix w.bits * value xs := rfl

/-- A limb is the number that it stands for alone. -/
theorem value_singleton (x : Limb w) : value [x] = x.toNat := by
  rw [value_cons, value_nil, Nat.mul_zero, Nat.add_zero]

theorem value_zeros (n : ℕ) : value (List.replicate n 0 : Limbs w) = 0 :=
  Digits.value_replicate_zero n

theorem value_lt (xs : Limbs w) : value xs < radix (w.bits * xs.length) := Digits.value_lt xs

end Limbs

end LimbArith
