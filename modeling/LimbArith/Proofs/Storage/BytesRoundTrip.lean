import Mathlib.Algebra.Order.Floor.Div
import Mathlib.Data.Nat.Log
import Mathlib.GroupTheory.GroupAction.Ring
import LimbArith.Proofs.Canonical
import LimbArith.Proofs.Limbs.Order
import LimbArith.Proofs.Primitive.Implementation
import LimbArith.Proofs.Storage.Bytes

/-!
# LimbArith — byte strings there and back

A number has one byte string without a leading zero byte. Writing makes that one,
whatever limbs the buffer has around the number, and reading any byte string makes
a buffer with its number; so both directions only drop leading zeros.

Main results:

* `bytesOf` — the byte string of a number.
* `bytesOf_bigEndian` — a byte string without its leading zeros is that of its number.
* `toBytes_exact`, `ofBytes_exact` — what is written and what is read.
* `ofBytes_bytesOf` — what was written, read again.
* `bytes_inverse` — both directions, and how long what is written is.
-/

namespace LimbArith.Buffer

variable {w : Width} {alu : Alu w} {b : Buffer w}

-- ---------------------------------------------------------------------------
-- The byte string of a number
-- ---------------------------------------------------------------------------

/-- The count of binary digits is one more than the place of the top one. -/
theorem size_eq_log (v : ℕ) : v.size = if v = 0 then 0 else Nat.log 2 v + 1 := by
  by_cases hZero : v = 0
  · simp [hZero]
  · rw [if_neg hZero]
    apply le_antisymm
    · exact Nat.size_le.mpr (Nat.lt_pow_succ_log_self (by decide) v)
    · exact Nat.lt_size.mpr (Nat.pow_log_le_self 2 hZero)

/-- The byte string of a number, with as many bytes as its bits fill. -/
def bytesOf (v : ℕ) : List Byte := (Digits.ofNat ((v.size + 7) / 8) v).reverse

theorem length_bytesOf (v : ℕ) : (bytesOf v).length = (v.size + 7) / 8 := by
  simp [bytesOf]

theorem lt_radix_bytes (v : ℕ) : v < radix (8 * ((v.size + 7) / 8)) :=
  lt_of_lt_of_le v.lt_size_self (Nat.pow_le_pow_right (by decide) (by omega))

theorem bigEndian_bytesOf (v : ℕ) : Digits.bigEndian (bytesOf v) = v := by
  rw [Digits.bigEndian_eq, bytesOf, List.reverse_reverse,
    Digits.value_ofNat_of_lt (lt_radix_bytes v)]

/-- There is no byte more than the bits fill, so the first one is not zero. -/
theorem canonical_bytesOf (v : ℕ) : Digits.Canonical (bytesOf v).reverse := by
  rw [bytesOf, List.reverse_reverse]
  refine Digits.canonical_ofNat (lt_radix_bytes v) fun hSome => ?_
  exact Nat.lt_size.mp (by omega)

theorem head?_bytesOf (v : ℕ) : (bytesOf v).head? ≠ some 0 := by
  rw [← List.getLast?_reverse]
  exact canonical_bytesOf v

/-- Without its leading zeros, a byte string is that of its number. -/
theorem bytesOf_bigEndian (bytes : List Byte) :
    bytesOf (Digits.bigEndian bytes) = bytes.dropWhile (· == 0) := by
  have hDropped : (bytes.dropWhile (· == 0)).reverse = bytes.reverse.rdropWhile (· == 0) := by
    simp [List.rdropWhile]
  apply List.reverse_injective
  rw [hDropped]
  apply (canonical_bytesOf _).eq_of_value_eq (Digits.canonical_rdropWhile _)
  rw [Digits.value_rdropWhile, ← Digits.bigEndian_eq, ← Digits.bigEndian_eq, bigEndian_bytesOf]

-- ---------------------------------------------------------------------------
-- Writing
-- ---------------------------------------------------------------------------

/-- Slots whose bits can be counted fit into memory. -/
theorem allocatable_of_bits {n : ℕ} (h : n * w.bits < Size.bound) : Allocatable w n := by
  have hBytes := mul_bits w n
  have hBound : Size.bound = 2 * memoryBound := by decide
  unfold Allocatable
  omega

/-- What is written is the byte string of the number. -/
theorem toBytes_exact (hAlu : alu.Lawful) (hb : b.WellFormed)
    (hBits : b.capacity * w.bits < Size.bound) : b.toBytes alu = pure (bytesOf b.value) := by
  rw [toBytes_eq hAlu hb, require_pos (countable_bits hb hBits), ok_bind]
  simp only
  rw [Digits.unpack_eq eight_dvd_bits, hb.length_take, Digits.take_ofNat hb.byteCount_le]
  rfl

-- ---------------------------------------------------------------------------
-- Reading
-- ---------------------------------------------------------------------------

/-- What is read is a new buffer with the number of the byte string. -/
theorem ofBytes_exact {bytes : List Byte} (s : Sensitivity)
    (hBits : Digits.limbCount w 8 bytes.length * w.bits < Size.bound) :
    (ofBytes w bytes s).outcome = .ok (holding (limbsOfBytes w bytes) s) := by
  have hRoom : Allocatable w (Digits.limbCount w 8 bytes.length) := allocatable_of_bits hBits
  have hCount : bytes.length + w.bytes < Size.bound := by
    have hBytes : bytes.length ≤ w.bytes * Digits.limbCount w 8 bytes.length :=
      Digits.le_mul_limbCount (by decide) eight_dvd_bits _
    have hSmall : w.bytes < memoryBound := by cases w <;> decide
    have hBound : Size.bound = 2 * memoryBound := by decide
    rw [Nat.mul_comm] at hBytes
    unfold Allocatable at hRoom
    omega
  rw [ofBytes_eq, limbsForBytes_eq_ok_iff.mpr ⟨hCount, rfl⟩, Traced.liftM_ok, pure_bind, supply,
    if_pos hRoom]

/-- The number of a new buffer has no leading zero limbs. -/
theorem limbs_holding {xs : Limbs w} (hRoom : Allocatable w xs.length) (s : Sensitivity) :
    (holding xs s).limbs = .ok (xs.rdropWhile (· == 0)) := by
  rw [(WellFormed.holding hRoom s).limbs_eq, ← Limbs.take_significantLen]
  show Except.ok ((xs ++ _).take xs.significantLen) = _
  rw [List.take_append_of_le_length (Limbs.significantLen_le xs)]

/-- The bytes of a buffer, read again, are its limbs without the leading zeros. -/
theorem ofBytes_bytesOf (hb : b.WellFormed) (hBits : b.capacity * w.bits < Size.bound)
    (s : Sensitivity) :
    ∃ copy, (ofBytes w (bytesOf b.value) s).outcome = .ok copy ∧
      copy.limbs = .ok ((b.slots.take b.size).rdropWhile (· == 0)) := by
  have hCount : Digits.limbCount w 8 (bytesOf b.value).length ≤ b.capacity := by
    have hBytes := Digits.limbCount_mono w 8 hb.byteCount_le
    rw [Digits.limbCount_mul (by decide) eight_dvd_bits] at hBytes
    rw [length_bytesOf]
    exact le_trans hBytes hb.size_le
  have hRoom : Allocatable w (limbsOfBytes w (bytesOf b.value)).length := by
    rw [length_limbsOfBytes]
    exact hb.allocatable.mono hCount
  have hSame : (limbsOfBytes w (bytesOf b.value)).rdropWhile (· == 0)
      = (b.slots.take b.size).rdropWhile (· == 0) := by
    apply (Digits.canonical_rdropWhile _).eq_of_value_eq (Digits.canonical_rdropWhile _)
    rw [Digits.value_rdropWhile, Digits.value_rdropWhile]
    exact (value_limbsOfBytes _).trans (bigEndian_bytesOf _)
  refine ⟨_, ofBytes_exact s (lt_of_le_of_lt (Nat.mul_le_mul_right _ hCount) hBits), ?_⟩
  rw [limbs_holding hRoom, hSame]

-- ---------------------------------------------------------------------------
-- Both directions
-- ---------------------------------------------------------------------------

/-- **Reading and writing bytes undo each other.** A byte string that is read and written again has
lost its leading zeros. Of any buffer, trimmed or not, the bytes are as few as its bits need and
have its number; read again, they give its limbs without the leading zeros. -/
theorem bytes_inverse (impl : Implementation w) :
    (∀ (bytes : List Byte) (s : Sensitivity),
      Digits.limbCount w 8 bytes.length * w.bits < Size.bound →
      (ofBytes w bytes s >>= toBytes impl.alu).outcome = .ok (bytes.dropWhile (· == 0))) ∧
    ∀ b : Buffer w, b.size ≤ b.capacity → b.capacity * w.bits < Size.bound →
      ∃ xs bits bytes, b.limbs = .ok xs ∧ b.bitLength impl.alu = .ok bits ∧
        b.toBytes impl.alu = pure bytes ∧
        bits = (if b.value = 0 then 0 else Nat.log 2 b.value + 1) ∧
        bytes.length = bits ⌈/⌉ 8 ∧ bytes.head? ≠ some 0 ∧ Digits.bigEndian bytes = b.value ∧
        ∀ s, ∃ copy, (ofBytes w bytes s).outcome = .ok copy ∧
          copy.limbs = .ok (xs.rdropWhile (· == 0)) := by
  constructor
  · intro bytes s hBits
    have hRoom : Allocatable w (limbsOfBytes w bytes).length := by
      rw [length_limbsOfBytes]
      exact allocatable_of_bits hBits
    have hCapacity : (holding (limbsOfBytes w bytes) s).capacity * w.bits < Size.bound := by
      rwa [capacity_holding, length_limbsOfBytes]
    rw [Traced.bind_of_ok (ofBytes_exact s hBits),
      toBytes_exact impl.lawful (WellFormed.holding hRoom s) hCapacity, value_holding,
      value_limbsOfBytes, bytesOf_bigEndian]
    rfl
  · intro b hSize hBits
    have hb : b.WellFormed := ⟨hSize, allocatable_of_bits hBits⟩
    have hLength := bitLength_eq impl.lawful hb
    have hCount := countable_bits hb hBits
    rw [require_pos (by omega)] at hLength
    exact ⟨_, _, _, hb.limbs_eq, hLength, toBytes_exact impl.lawful hb hBits, size_eq_log _,
      length_bytesOf _, head?_bytesOf _, bigEndian_bytesOf _, ofBytes_bytesOf hb hBits⟩

/-- A number with a zero limb above it and another limb above that. -/
def padded : Buffer .w32 := { slots := [0x10200, 0, 7], size := 2, sensitivity := .secure }

/-- Bytes with zeros in front and between them, and a number with zeros above it. -/
theorem bytes_inverse_padded :
    Digits.limbCount .w32 8 [0, 0, 1, 2, 0].length * Width.w32.bits < Size.bound ∧
    (ofBytes .w32 [0, 0, 1, 2, 0] .secure
      >>= toBytes (Implementation.portable .w32).alu).outcome = .ok [1, 2, 0] ∧
    (padded.size ≤ padded.capacity ∧ padded.capacity * Width.w32.bits < Size.bound) ∧
    ∃ xs bits bytes, padded.limbs = .ok xs ∧
      padded.bitLength (Implementation.portable .w32).alu = .ok bits ∧
      padded.toBytes (Implementation.portable .w32).alu = pure bytes ∧
      bits = (if padded.value = 0 then 0 else Nat.log 2 padded.value + 1) ∧
      bytes.length = bits ⌈/⌉ 8 ∧ bytes.head? ≠ some 0 ∧
      Digits.bigEndian bytes = padded.value ∧
      ∀ s, ∃ copy, (ofBytes .w32 bytes s).outcome = .ok copy ∧
        copy.limbs = .ok (xs.rdropWhile (· == 0)) := by
  have hBytes : Digits.limbCount .w32 8 [0, 0, 1, 2, 0].length * Width.w32.bits < Size.bound := by
    decide
  have hSize : padded.size ≤ padded.capacity := by decide
  have hBits : padded.capacity * Width.w32.bits < Size.bound := by decide
  exact ⟨hBytes, (bytes_inverse (.portable .w32)).1 _ .secure hBytes, ⟨hSize, hBits⟩,
    (bytes_inverse (.portable .w32)).2 padded hSize hBits⟩

end LimbArith.Buffer
