import Mathlib.Data.List.Induction
import LimbArith.Digits
import LimbArith.Proofs.Checked
import LimbArith.Proofs.Limbs.Value

/-!
# LimbArith — packing small digits

Small digits that divide a limb evenly fill limbs without gaps, so packing keeps
the value and takes no more limbs than the digits need. Digits are put to their
places from the least significant one up: what is there so far is a number below
the place of the next digit, which therefore joins it without a carry.

Main results:

* `place_exact`, `placeAll_exact` — one digit at its place, and a run of digits.
* `placeAll_zeros` — digits that are put into empty limbs.
* `unpack_eq` — as many digits from each limb as it has room for, with the same value.
* `bigEndian_eq` — a byte string read from its front.
-/

namespace LimbArith.Digits

variable {k : ℕ} {w : Width}

-- ---------------------------------------------------------------------------
-- Room
-- ---------------------------------------------------------------------------

/-- Digits that divide a limb fill it, at least one of them. -/
theorem perLimb_pos (hk : 0 < k) (hDvd : k ∣ w.bits) : 0 < w.bits / k :=
  Nat.div_pos (Nat.le_of_dvd (by cases w <;> decide) hDvd) hk

/-- There is room for all digits in the limbs that are counted for them. -/
theorem le_mul_limbCount (hk : 0 < k) (hDvd : k ∣ w.bits) (n : ℕ) :
    n ≤ w.bits / k * limbCount w k n := by
  have hPos := perLimb_pos hk hDvd
  have hSplit := Nat.div_add_mod (n + w.bits / k - 1) (w.bits / k)
  have hRest := Nat.mod_lt (n + w.bits / k - 1) hPos
  unfold limbCount
  generalize (n + w.bits / k - 1) / (w.bits / k) = q at *
  generalize (n + w.bits / k - 1) % (w.bits / k) = r at *
  omega

theorem limbCount_mono (w : Width) (k : ℕ) {m n : ℕ} (h : m ≤ n) :
    limbCount w k m ≤ limbCount w k n :=
  Nat.div_le_div_right (Nat.sub_le_sub_right (Nat.add_le_add_right h _) 1)

/-- Digits that fill limbs take no more than these. -/
theorem limbCount_mul (hk : 0 < k) (hDvd : k ∣ w.bits) (n : ℕ) :
    limbCount w k (w.bits / k * n) = n := by
  have hPos := perLimb_pos hk hDvd
  unfold limbCount
  simp only
  rw [Nat.add_sub_assoc hPos, Nat.mul_add_div hPos, Nat.div_eq_of_lt (Nat.sub_one_lt_of_lt hPos),
    Nat.add_zero]

/-- The limbs that are counted for digits can represent their number. -/
theorem value_lt_limbs (hk : 0 < k) (hDvd : k ∣ w.bits) (ds : List (BitVec k)) :
    value ds < radix (w.bits * limbCount w k ds.length) := by
  refine lt_of_lt_of_le (value_lt ds) (Nat.pow_le_pow_right (by decide) ?_)
  calc k * ds.length ≤ k * (w.bits / k * limbCount w k ds.length) :=
        Nat.mul_le_mul_left k (le_mul_limbCount hk hDvd _)
    _ = w.bits * limbCount w k ds.length := by rw [← Nat.mul_assoc, Nat.mul_div_cancel' hDvd]

-- ---------------------------------------------------------------------------
-- Small digits to their places
-- ---------------------------------------------------------------------------

/-- The place of a digit: that of its limb, and its own within the limb. -/
theorem radix_place (hDvd : k ∣ w.bits) (i : ℕ) :
    radix (k * i) = radix (w.bits * (i / (w.bits / k))) * radix (k * (i % (w.bits / k))) := by
  have hPlace : w.bits * (i / (w.bits / k)) + k * (i % (w.bits / k)) = k * i :=
    calc w.bits * (i / (w.bits / k)) + k * (i % (w.bits / k))
        = k * (w.bits / k) * (i / (w.bits / k)) + k * (i % (w.bits / k)) := by
          rw [Nat.mul_div_cancel' hDvd]
      _ = k * (w.bits / k * (i / (w.bits / k)) + i % (w.bits / k)) := by
          rw [Nat.mul_assoc, ← Nat.mul_add]
      _ = k * i := by rw [Nat.div_add_mod]
  rw [← radix_add, hPlace]

/-- A digit above those of a limb joins them without a carry. -/
theorem toNat_or_digit {x : Limb w} {r : ℕ} (hRoom : k * (r + 1) ≤ w.bits)
    (hLow : x.toNat < radix (k * r)) (d : BitVec k) :
    (x ||| d.setWidth w.bits <<< (k * r)).toNat = x.toNat + radix (k * r) * d.toNat := by
  rw [Nat.mul_succ] at hRoom
  have hWidth : k ≤ w.bits := Nat.le_of_add_left_le hRoom
  have hDigit : d.toNat < 2 ^ w.bits :=
    lt_of_lt_of_le d.isLt (Nat.pow_le_pow_right (by decide) hWidth)
  -- nothing is shifted out, because there is room for one more digit
  have hShifted : d.toNat * 2 ^ (k * r) < 2 ^ w.bits :=
    calc d.toNat * 2 ^ (k * r) < 2 ^ k * 2 ^ (k * r) :=
          Nat.mul_lt_mul_of_pos_right d.isLt (Nat.two_pow_pos _)
      _ = 2 ^ (k * r + k) := by rw [Nat.pow_add, Nat.mul_comm]
      _ ≤ 2 ^ w.bits := Nat.pow_le_pow_right (by decide) hRoom
  rw [BitVec.toNat_or, BitVec.toNat_shiftLeft, BitVec.toNat_setWidth, Nat.mod_eq_of_lt hDigit,
    Nat.shiftLeft_eq, Nat.mod_eq_of_lt hShifted, Nat.or_comm, Nat.mul_comm,
    ← Nat.two_pow_add_eq_or_of_lt hLow, Nat.add_comm]
  rfl

/-- The digit at the next place is added there, if there is a limb for it. -/
theorem place_exact (hk : 0 < k) (hDvd : k ∣ w.bits) {xs : Limbs w} {i : ℕ} (d : BitVec k)
    (hRoom : i < w.bits / k * xs.length) (hLow : Limbs.value xs < radix (k * i)) :
    ∃ ys, place xs i d = .ok ys ∧ ys.length = xs.length ∧
      Limbs.value ys = Limbs.value xs + radix (k * i) * d.toNat := by
  have hIndex : i / (w.bits / k) < xs.length := Nat.div_lt_of_lt_mul hRoom
  have hRest : k * (i % (w.bits / k) + 1) ≤ w.bits :=
    calc k * (i % (w.bits / k) + 1) ≤ k * (w.bits / k) :=
          Nat.mul_le_mul_left k (Nat.mod_lt _ (perLimb_pos hk hDvd))
      _ = w.bits := Nat.mul_div_cancel' hDvd
  -- the limb holds no digit at or above the place, or the number would be larger
  have hLimb : xs[i / (w.bits / k)].toNat < radix (k * (i % (w.bits / k))) := by
    rw [radix_place hDvd, Limbs.value, value_eq_around hIndex] at hLow
    have hUpper := lt_of_mul_lt_mul_left (lt_of_le_of_lt (Nat.le_add_left ..) hLow) (Nat.zero_le _)
    exact lt_of_le_of_lt (Nat.le_add_right ..) hUpper
  have hPlaced : place xs i d = .ok (xs.modify (i / (w.bits / k))
      (· ||| d.setWidth w.bits <<< (k * (i % (w.bits / k))))) := by
    rw [place, require_pos hIndex]
    rfl
  refine ⟨_, hPlaced, List.length_modify .., ?_⟩
  rw [Limbs.value, value_modify hIndex (toNat_or_digit hRest hLimb d), radix_place hDvd i,
    Nat.mul_assoc]

/-- Digits from the next place on are added there, if there are limbs for them. -/
theorem placeAll_exact (hk : 0 < k) (hDvd : k ∣ w.bits) : ∀ (ds : List (BitVec k)) (xs : Limbs w)
    (i : ℕ), i + ds.length ≤ w.bits / k * xs.length → Limbs.value xs < radix (k * i) →
    ∃ ys, placeAll xs i ds = .ok ys ∧ ys.length = xs.length ∧
      Limbs.value ys = Limbs.value xs + radix (k * i) * value ds := by
  intro ds
  induction ds with
  | nil =>
    intro xs i _ _
    exact ⟨xs, rfl, rfl, rfl⟩
  | cons d ds ih =>
    intro xs i hRoom hLow
    rw [List.length_cons] at hRoom
    obtain ⟨ys, hPlace, hLength, hValue⟩ := place_exact hk hDvd d (by omega) hLow
    -- with its digit, the number stays below the place of the next one
    have hNext : Limbs.value ys < radix (k * (i + 1)) :=
      calc Limbs.value ys < radix (k * i) + radix (k * i) * d.toNat := by
            rw [hValue]
            omega
        _ = radix (k * i) * (d.toNat + 1) := by rw [Nat.mul_succ, Nat.add_comm]
        _ ≤ radix (k * i) * radix k := Nat.mul_le_mul_left _ d.isLt
        _ = radix (k * (i + 1)) := by rw [radix_mul_succ, Nat.mul_comm]
    have hRoom' : i + 1 + ds.length ≤ w.bits / k * ys.length := by
      rw [hLength]
      omega
    obtain ⟨zs, hRest, hLength', hValue'⟩ := ih ys (i + 1) hRoom' hNext
    refine ⟨zs, ?_, hLength'.trans hLength, ?_⟩
    · rw [placeAll, hPlace, ok_bind, hRest]
    · rw [hValue', hValue, value_cons, radix_mul_succ]
      ring

/-- Digits that are put into empty limbs make limbs with their number. -/
theorem placeAll_zeros (hk : 0 < k) (hDvd : k ∣ w.bits) {n : ℕ} {ds : List (BitVec k)}
    (hRoom : ds.length ≤ w.bits / k * n) :
    placeAll (List.replicate n 0 : Limbs w) 0 ds = .ok (ofNat n (value ds)) := by
  have hRoom' : 0 + ds.length ≤ w.bits / k * (List.replicate n 0 : Limbs w).length := by
    rwa [Nat.zero_add, List.length_replicate]
  have hLow : Limbs.value (List.replicate n 0 : Limbs w) < radix (k * 0) := by
    rw [Limbs.value_zeros]
    exact radix_pos _
  obtain ⟨ys, hPlaced, hLength, hValue⟩ := placeAll_exact hk hDvd ds _ 0 hRoom' hLow
  rw [List.length_replicate] at hLength
  rw [Limbs.value_zeros, Nat.mul_zero, radix_zero, Nat.one_mul, Nat.zero_add] at hValue
  rw [hPlaced, eq_ofNat hLength hValue]

-- ---------------------------------------------------------------------------
-- Limbs in small digits
-- ---------------------------------------------------------------------------

/-- Shifting by whole digits leaves the digits above. -/
theorem map_range_shift (n v : ℕ) :
    (List.range n).map (fun i => BitVec.ofNat k (v / radix (k * i))) = ofNat n v := by
  induction n generalizing v with
  | zero => rfl
  | succ n ih =>
    have hShift : ∀ i, v / radix (k * (i + 1)) = v / radix k / radix (k * i) := by
      intro i
      rw [radix_mul_succ, Nat.div_div_eq_div_mul]
    rw [List.range_succ_eq_map, List.map_cons, List.map_map, ofNat, ← ih, Nat.mul_zero, radix_zero,
      Nat.div_one]
    simp only [Function.comp_def, hShift]

theorem split_eq (x : Limb w) : split k x = ofNat (w.bits / k) x.toNat := by
  rw [← map_range_shift, split]
  refine List.map_congr_left fun i _ => BitVec.eq_of_toNat_eq ?_
  rw [BitVec.toNat_setWidth, BitVec.toNat_ushiftRight, Nat.shiftRight_eq_div_pow,
    BitVec.toNat_ofNat]
  rfl

theorem length_split (x : Limb w) : (split k x).length = w.bits / k := by
  rw [split_eq, length_ofNat]

/-- Digits that divide a limb keep its value. -/
theorem value_split (hDvd : k ∣ w.bits) (x : Limb w) : value (split k x) = x.toNat := by
  rw [split_eq, value_ofNat_of_lt]
  rw [Nat.mul_div_cancel' hDvd]
  exact toNat_lt_radix x

theorem length_unpack (limbs : Limbs w) :
    (unpack k limbs).length = w.bits / k * limbs.length := by
  induction limbs with
  | nil => rfl
  | cons x xs ih =>
    rw [unpack, List.flatMap_cons, List.length_append, ← unpack, ih, length_split,
      List.length_cons, Nat.mul_succ, Nat.add_comm]

theorem value_unpack (hDvd : k ∣ w.bits) (limbs : Limbs w) :
    value (unpack k limbs) = Limbs.value limbs := by
  induction limbs with
  | nil => rfl
  | cons x xs ih =>
    rw [unpack, List.flatMap_cons, ← unpack, value_append, ih, length_split,
      Nat.mul_div_cancel' hDvd, value_split hDvd, Limbs.value_cons]

/-- The digits of limbs are those of their number, as many as the limbs have room for. -/
theorem unpack_eq (hDvd : k ∣ w.bits) (limbs : Limbs w) :
    unpack k limbs = ofNat (w.bits / k * limbs.length) (Limbs.value limbs) :=
  eq_ofNat (length_unpack limbs) (value_unpack hDvd limbs)

-- ---------------------------------------------------------------------------
-- Byte strings
-- ---------------------------------------------------------------------------

/-- The number of a byte string, most significant byte first. -/
def bigEndian (bytes : List Byte) : ℕ := bytes.foldl (fun v b => v * 256 + b.toNat) 0

/-- The last byte counts once and all others 256 times. -/
theorem bigEndian_concat (bytes : List Byte) (b : Byte) :
    bigEndian (bytes ++ [b]) = bigEndian bytes * 256 + b.toNat := by
  simp [bigEndian]

theorem bigEndian_eq (bytes : List Byte) : bigEndian bytes = value bytes.reverse := by
  induction bytes using List.reverseRecOn with
  | nil => rfl
  | append_singleton bytes b ih =>
    rw [bigEndian_concat, ih, List.reverse_concat, value_cons, show radix 8 = 256 from rfl]
    omega

end LimbArith.Digits
