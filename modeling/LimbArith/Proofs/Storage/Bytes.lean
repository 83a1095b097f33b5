import LimbArith.Storage.Bytes
import LimbArith.Proofs.Packing
import LimbArith.Proofs.Primitive.TopBit
import LimbArith.Proofs.Storage.Buffer

/-!
# LimbArith — byte strings

A byte string takes memory like any other number. Writing one never does more
than count its bits: the bytes of a number are among those of its limbs, so
memory for them can be had whenever the buffer itself is in memory.

Main results:

* `ofBytes_eq` — a byte string as the supply of the buffer with its number.
* `bitLength_eq` — the number of binary digits, if it is a count.
* `toBytes_eq` — the bytes that are written, if their bits can be counted.
-/

namespace LimbArith.Buffer

variable {w : Width}

-- ---------------------------------------------------------------------------
-- Reading
-- ---------------------------------------------------------------------------

/-- Bytes fill a limb. -/
theorem eight_dvd_bits : 8 ∣ w.bits := by
  cases w <;> decide

/-- The bits of limbs, by their bytes. -/
theorem mul_bits (w : Width) (n : ℕ) : n * w.bits = 8 * (n * w.bytes) := by
  rw [Nat.mul_left_comm, Nat.mul_div_cancel' eight_dvd_bits]

/-- The limbs of a byte string. -/
def limbsOfBytes (w : Width) (bytes : List Byte) : Limbs w :=
  Digits.ofNat (Digits.limbCount w 8 bytes.length) (Digits.bigEndian bytes)

theorem length_limbsOfBytes (bytes : List Byte) :
    (limbsOfBytes w bytes).length = Digits.limbCount w 8 bytes.length := Digits.length_ofNat _ _

theorem value_limbsOfBytes (bytes : List Byte) :
    Limbs.value (limbsOfBytes w bytes) = Digits.bigEndian bytes := by
  have hFits := Digits.value_lt_limbs (by decide) (eight_dvd_bits (w := w)) bytes.reverse
  rw [← Digits.bigEndian_eq, List.length_reverse] at hFits
  exact Digits.value_ofNat_of_lt hFits

/-- The bytes of a byte string, put to their places from its end. -/
theorem placeAll_bytes (bytes : List Byte) :
    Digits.placeAll (List.replicate (limbsOfBytes w bytes).length 0 : Limbs w) 0 bytes.reverse
      = .ok (limbsOfBytes w bytes) := by
  have hRoom : bytes.reverse.length ≤ w.bits / 8 * Digits.limbCount w 8 bytes.length := by
    rw [List.length_reverse]
    exact Digits.le_mul_limbCount (by decide) eight_dvd_bits _
  rw [length_limbsOfBytes, Digits.placeAll_zeros (by decide) eight_dvd_bits hRoom,
    ← Digits.bigEndian_eq]
  rfl

theorem limbsForBytes_eq_ok_iff {m n : ℕ} :
    limbsForBytes w m = .ok n ↔ m + w.bytes < Size.bound ∧ Digits.limbCount w 8 m = n := by
  unfold limbsForBytes Size.add
  by_cases h : m + w.bytes < Size.bound
  · rw [require_pos h]
    exact ⟨fun hn => ⟨h, Except.ok.inj hn⟩, fun hn => congrArg Except.ok hn.2⟩
  · rw [require_neg h]
    exact ⟨nofun, fun hn => absurd hn.1 h⟩

theorem ofBytes_eq (bytes : List Byte) (sensitivity : Sensitivity) :
    ofBytes w bytes sensitivity = liftM (limbsForBytes w bytes.length) >>= fun n =>
      supply w n [.allocated n sensitivity] (holding (limbsOfBytes w bytes) sensitivity) := by
  refine Traced.liftM_bind_congr fun n hn => ?_
  obtain rfl : (limbsOfBytes w bytes).length = n := by
    rw [length_limbsOfBytes]
    exact (limbsForBytes_eq_ok_iff.mp hn).2
  rw [new_eq]
  refine supply_bind_pure fun _ => ?_
  rw [show (blank w (limbsOfBytes w bytes).length sensitivity).slots
      = List.replicate (limbsOfBytes w bytes).length 0 from rfl,
    placeAll_bytes, Traced.liftM_ok, pure_bind, trim_holding]
  rfl

-- ---------------------------------------------------------------------------
-- Bits
-- ---------------------------------------------------------------------------

variable {alu : Alu w} {b : Buffer w}

/-- A top limb that is not zero has the top bit. -/
theorem size_value_concat (xs : Limbs w) {x : Limb w} (hx : x ≠ 0) :
    (Limbs.value (xs ++ [x])).size = w.bits * xs.length + x.toNat.size := by
  have hValue : Limbs.value (xs ++ [x])
      = Limbs.value xs + radix (w.bits * xs.length) * x.toNat := Digits.value_append xs [x]
  have hHigh : Limbs.value (xs ++ [x]) / radix (w.bits * xs.length) = x.toNat := by
    rw [hValue, Nat.add_mul_div_left _ _ (radix_pos _), Nat.div_eq_of_lt (Limbs.value_lt xs),
      Nat.zero_add]
  have hNonzero : x.toNat ≠ 0 := fun hz => hx (BitVec.eq_of_toNat_eq hz)
  rw [size_of_div_ne_zero (hHigh.symm ▸ hNonzero), hHigh]

theorem bitLength_eq (hAlu : alu.Lawful) (hb : b.WellFormed) :
    b.bitLength alu
      = (do require (b.value.size < Size.bound) .sizeOverflow; pure b.value.size) := by
  have hValue := Limbs.value_take_significantLen (b.slots.take b.size)
  rw [bitLength, hb.limbs_eq, ok_bind]
  simp only
  rcases Limbs.take_significantLen_cases (b.slots.take b.size) with hNone | ⟨xs, x, hx, hTop⟩
  · rw [hNone] at hValue ⊢
    rw [value, ← hValue]
    rfl
  · rw [hTop] at hValue ⊢
    rw [value, ← hValue, size_value_concat xs hx, List.getLast?_concat, List.length_append,
      List.length_singleton, Nat.add_sub_cancel, Nat.mul_comm]
    simp only [hAlu.bitLength_exact, ok_bind]
    exact Size.mul_bind_add ..

-- ---------------------------------------------------------------------------
-- Writing
-- ---------------------------------------------------------------------------

/-- The bytes of a number are among those of its limbs. -/
theorem WellFormed.byteCount_le (hb : b.WellFormed) :
    (b.value.size + 7) / 8 ≤ w.bytes * b.size := by
  have hSize : b.value.size ≤ w.bits * b.size := Nat.size_le.mpr hb.value_lt
  rw [Nat.mul_comm, mul_bits] at hSize
  rw [Nat.mul_comm]
  omega

/-- The bits of a number are among those of the slots, and rounding them up to bytes leaves them
countable, because limbs are whole bytes. -/
theorem countable_bits (hb : b.WellFormed)
    (hBits : b.capacity * w.bits < Size.bound) : b.value.size + 7 < Size.bound := by
  have hSize : b.value.size ≤ w.bits * b.size := Nat.size_le.mpr hb.value_lt
  have hSlots : w.bits * b.size ≤ b.capacity * w.bits := by
    rw [Nat.mul_comm]
    exact Nat.mul_le_mul_right _ hb.size_le
  have hBound : Size.bound = 8 * (2 * memoryBound / 8) := by decide
  have hRounded := mul_bits w b.capacity
  omega

theorem toBytes_eq (hAlu : alu.Lawful) (hb : b.WellFormed) :
    b.toBytes alu = liftM (m := Checked) (do
      require (b.value.size + 7 < Size.bound) .sizeOverflow
      let bytes : List Byte := Digits.unpack 8 (b.slots.take b.size)
      pure (bytes.take ((b.value.size + 7) / 8)).reverse) := by
  have hCount := hb.byteCount_le
  have hMemory : (b.value.size + 7) / 8 < memoryBound := by
    refine lt_of_le_of_lt hCount (lt_of_le_of_lt ?_ hb.allocatable)
    rw [Nat.mul_comm]
    exact Nat.mul_le_mul_right _ hb.size_le
  have hBytes : (b.value.size + 7) / 8
      ≤ (Digits.unpack 8 (b.slots.take b.size) : List Byte).length := by
    rw [Digits.length_unpack, hb.length_take]
    exact hCount
  rw [toBytes, hb.limbs_eq, bitLength_eq hAlu hb]
  by_cases hSum : b.value.size + 7 < Size.bound
  · rw [require_pos (show b.value.size < Size.bound by omega), require_pos hSum]
    show (liftM (Size.add b.value.size 7) >>= _ : Traced (List Byte)) = _
    rw [Size.add_eq hSum, Traced.liftM_ok, pure_bind]
    simp only [if_pos hMemory, front_of_le hBytes]
    rfl
  · rw [require_neg hSum]
    by_cases hBits : b.value.size < Size.bound
    · rw [require_pos hBits]
      show (liftM (Size.add b.value.size 7) >>= _ : Traced (List Byte)) = _
      rw [Size.add, require_neg hSum]
      rfl
    · rw [require_neg hBits]
      rfl

end LimbArith.Buffer
