import LimbArith.Limbs.Shift
import LimbArith.Proofs.Limbs.CarryChain

/-!
# LimbArith — left shifts multiply

The carry of a shift is the whole limb below, not the bits of it that move up.
Weighed by those bits alone, the loop is a carry chain like the others: the
position of `x` owes `x * 2 ^ count`.

Main results:

* `leftOut_toNat`, `leftStep_exact` — the bits that leave a limb, and one step.
* `shiftLeft_exact` — the whole array, in place.
-/

namespace LimbArith.Limbs

variable {w : Width}

/-- A count below the width leaves the rest of the limb for the bits that stay. -/
theorem radix_split_at {count : ℕ} (hCount : count < w.bits) :
    radix w.bits = 2 ^ count * 2 ^ (w.bits - count) := by
  rw [← Nat.pow_add, Nat.add_sub_cancel' (le_of_lt hCount)]
  rfl

theorem leftOut_toNat {count : ℕ} (hCount : count < w.bits) (x : Limb w) :
    (leftOut count x).toNat = x.toNat / 2 ^ (w.bits - count) := by
  have hDistance : 1 + (w.bits - 1 - count) = w.bits - count := by omega
  rw [leftOut, BitVec.toNat_ushiftRight, BitVec.toNat_ushiftRight, ← Nat.shiftRight_add,
    hDistance, Nat.shiftRight_eq_div_pow]

theorem leftOut_lt {count : ℕ} (hCount : count < w.bits) (x : Limb w) :
    (leftOut count x).toNat < 2 ^ count := by
  rw [leftOut_toNat hCount, Nat.div_lt_iff_lt_mul (Nat.two_pow_pos _), ← radix_split_at hCount]
  exact toNat_lt_radix x

/-- The bits that stay in a limb, moved up. -/
theorem shiftLeft_toNat {count : ℕ} (hCount : count < w.bits) (x : Limb w) :
    (x <<< count).toNat = 2 ^ count * (x.toNat % 2 ^ (w.bits - count)) := by
  rw [BitVec.toNat_shiftLeft, Nat.shiftLeft_eq, Nat.mul_comm, ← Nat.mul_mod_mul_left,
    ← radix_split_at hCount]
  rfl

theorem leftStep_exact {count : ℕ} (hCount : count < w.bits) (x below : Limb w) :
    (leftOut count x).toNat * radix w.bits + (leftStep count x below).limb.toNat
      = x.toNat * 2 ^ count + (leftOut count below).toNat := by
  -- the bits from below fill the zeros of the shifted limb
  have hFill : (leftStep count x below).limb.toNat
      = (x <<< count).toNat + (leftOut count below).toNat := by
    rw [leftStep, BitVec.toNat_or, shiftLeft_toNat hCount,
      Nat.two_pow_add_eq_or_of_lt (leftOut_lt hCount below)]
  have hParts := Nat.div_add_mod x.toNat (2 ^ (w.bits - count))
  rw [hFill, shiftLeft_toNat hCount, leftOut_toNat hCount x, radix_split_at hCount]
  linear_combination 2 ^ count * hParts

theorem shiftLeft_exact {count : ℕ} (hCount : count < w.bits) (xs : Limbs w) :
    ∃ out shifted, shiftLeft xs count = .ok ⟨out, shifted⟩ ∧
      shifted.length = xs.length ∧
      out.toNat * radix (w.bits * xs.length) + value shifted = value xs * 2 ^ count := by
  have hStep : StepAdds (fun _ => True) (fun c => (leftOut count c).toNat)
      (fun _ x => (id x).toNat * 2 ^ count) (fun _ x below => pure (leftStep count x below)) :=
    fun _ x below _ => ⟨_, rfl, trivial, leftStep_exact hCount x below⟩
  obtain ⟨top, shifted, hOk, hLength, -, hValue⟩ :=
    sweepInto_sum hStep (le_refl xs.length) (c := 0) trivial
  have hNothing : (leftOut count (0 : Limb w)).toNat = 0 := by
    rw [leftOut_toNat hCount, toNat_zero, Nat.zero_div]
  rw [List.drop_length, List.append_nil] at hOk
  refine ⟨leftOut count top, shifted, ?_, hLength, ?_⟩
  · rw [shiftLeft, require_pos hCount, ok_bind, sweep_eq_sweepInto, hOk]
    rfl
  · rw [hValue, total_mul, total_inputs (le_refl xs.length), List.map_id, hNothing, Nat.add_zero]

end LimbArith.Limbs
