import LimbArith.Limbs.Add
import LimbArith.Proofs.Limbs.CarryChain

/-!
# LimbArith — sums and differences are exact

Each addition of arrays answers with a carry and low limbs that together are the
sum, and each subtraction with a borrow and low limbs that together are the
difference. The limbs of the result above the operand stay.

Main results, for lawful primitives:

* `addLimbInto_exact`, `subLimb_exact` — one limb, which enters as the carry.
* `addSameInto_exact`, `subSame_exact` — equal lengths.
* `addInto_exact`, `sub_exact` — the second operand may be shorter: two chains
  joined where it ends.
-/

namespace LimbArith.Limbs

variable {w : Width} {alu : Alu w}

-- ---------------------------------------------------------------------------
-- One limb
-- ---------------------------------------------------------------------------

theorem addLimbInto_exact (hAlu : alu.Lawful) {result xs : Limbs w} (y : Limb w)
    (hLength : xs.length ≤ result.length) :
    ∃ carry low, addLimbInto alu result xs y = .ok ⟨carry, low ++ result.drop xs.length⟩ ∧
      low.length = xs.length ∧
      carry.toNat * radix (w.bits * xs.length) + value low = value xs + y.toNat := by
  have hStep : StepAdds (fun _ => True) BitVec.toNat (fun _ x => (id x).toNat)
      (fun _ x carry => pure (alu.add x carry)) :=
    fun _ x c _ => ⟨_, rfl, trivial, hAlu.add x c⟩
  obtain ⟨carry, low, hOk, hLow, -, hValue⟩ := sweepInto_sum hStep hLength (c := y) trivial
  refine ⟨carry, low, ?_, hLow, ?_⟩
  · rw [addLimbInto, require_pos hLength, ok_bind, hOk]
  · rw [hValue, total_inputs hLength, List.map_id]

theorem subLimb_exact (hAlu : alu.Lawful) (xs : Limbs w) (y : Limb w) :
    ∃ borrow low, subLimb alu xs y = .ok ⟨borrow, low⟩ ∧ low.length = xs.length ∧
      value low + y.toNat = value xs + borrow.toNat * radix (w.bits * xs.length) := by
  have hStep : StepSubtracts (fun _ => True) (fun _ x => (id x).toNat) (fun _ _ => 0)
      (fun _ x borrow => pure (alu.sub x borrow)) := by
    intro _ x c _
    refine ⟨_, rfl, trivial, ?_⟩
    rw [Nat.zero_add]
    exact hAlu.sub x c
  obtain ⟨borrow, low, hOk, hLow, -, hValue⟩ :=
    sweepInto_difference hStep (le_refl xs.length) (c := y) trivial
  refine ⟨borrow, low, ?_, hLow, ?_⟩
  · rw [subLimb, sweep_eq_sweepInto, hOk, List.drop_length, List.append_nil]
  · rw [total_inputs (le_refl xs.length), List.map_id, total_zero, Nat.zero_add] at hValue
    exact hValue

-- ---------------------------------------------------------------------------
-- Equal lengths
-- ---------------------------------------------------------------------------

theorem addSameInto_exact (hAlu : alu.Lawful) {result xs ys : Limbs w}
    (hSame : xs.length = ys.length) (hLength : xs.length ≤ result.length) :
    ∃ carry low, addSameInto alu result xs ys = .ok ⟨carry, low ++ result.drop xs.length⟩ ∧
      low.length = xs.length ∧ carry.toNat ≤ 1 ∧
      carry.toNat * radix (w.bits * xs.length) + value low = value xs + value ys := by
  have hZip : (xs.zip ys).length = xs.length := by
    rw [List.length_zip, ← hSame, Nat.min_self]
  have hStep : StepAdds (fun c => c.toNat ≤ 1) BitVec.toNat
      (fun _ p => (Prod.fst p).toNat + (Prod.snd p).toNat)
      (fun _ (x, y) carry => alu.addCarry x y carry) :=
    fun _ p _ hc => hAlu.addCarry_exact p.1 p.2 hc
  obtain ⟨carry, low, hOk, hLow, hCarry, hValue⟩ :=
    sweepInto_sum hStep (hZip ▸ hLength) toNat_zero_le_one
  rw [hZip] at hOk hLow hValue
  refine ⟨carry, low, ?_, hLow, hCarry, ?_⟩
  · rw [addSameInto, require_pos hSame, require_pos hLength, ok_bind, ok_bind, hOk]
  · rw [hValue, total_add, total_inputs (hZip ▸ hLength), total_inputs (hZip ▸ hLength),
      List.map_fst_zip (le_of_eq hSame), List.map_snd_zip (le_of_eq hSame.symm)]
    rfl

theorem subSame_exact (hAlu : alu.Lawful) {xs ys : Limbs w} (hSame : xs.length = ys.length) :
    ∃ borrow low, subSame alu xs ys = .ok ⟨borrow, low⟩ ∧ low.length = xs.length ∧
      borrow.toNat ≤ 1 ∧
      value low + value ys = value xs + borrow.toNat * radix (w.bits * xs.length) := by
  have hStep : StepSubtracts (fun c => c.toNat ≤ 1) (fun x _ => x.toNat) (fun _ y => (id y).toNat)
      (fun x y borrow => alu.subBorrow x (Mask.set.select 0 y) borrow) := by
    intro x y c hc
    obtain ⟨s, hOk, hBorrow, hValue⟩ := hAlu.subBorrow_exact x y hc
    refine ⟨s, ?_, hBorrow, hValue⟩
    show alu.subBorrow x (Mask.set.select 0 y) c = .ok s
    rw [Mask.select_set, hOk]
  obtain ⟨borrow, low, hOk, hLow, hBorrow, hValue⟩ :=
    sweepInto_difference hStep (le_of_eq hSame.symm) toNat_zero_le_one
  rw [← hSame] at hOk hLow hValue
  refine ⟨borrow, low, ?_, hLow, hBorrow, ?_⟩
  · rw [subSame, subSameIf, require_pos hSame, ok_bind, hOk, List.drop_length, List.append_nil]
  · rw [total_inputs (le_of_eq hSame.symm), total_result (le_of_eq hSame.symm), ← hSame,
      List.take_length, List.map_id, toNat_zero] at hValue
    exact hValue

-- ---------------------------------------------------------------------------
-- Mixed lengths
-- ---------------------------------------------------------------------------

section

variable {xs ys : Limbs w}

/-- The radix of an array in the parts below and above a position. -/
theorem radix_split (h : ys.length ≤ xs.length) :
    radix (w.bits * xs.length)
      = radix (w.bits * ys.length) * radix (w.bits * (xs.length - ys.length)) := by
  rw [← radix_mul_add, Nat.add_sub_cancel' h]

/-- The carry out of the low part enters the chain of the high part. -/
theorem addInto_exact (hAlu : alu.Lawful) {result : Limbs w}
    (hShort : ys.length ≤ xs.length) (hLength : xs.length ≤ result.length) :
    ∃ carry low, addInto alu result xs ys = .ok ⟨carry, low ++ result.drop xs.length⟩ ∧
      low.length = xs.length ∧
      carry.toNat * radix (w.bits * xs.length) + value low = value xs + value ys := by
  have hTake : (xs.take ys.length).length = ys.length := List.length_take_of_le hShort
  have hDrop : (xs.drop ys.length).length = xs.length - ys.length := List.length_drop
  have hBelowRoom : (xs.take ys.length).length ≤ (result.take ys.length).length := by
    rw [hTake, List.length_take]
    omega
  have hAboveRoom : (xs.drop ys.length).length ≤ (result.drop ys.length).length := by
    rw [hDrop, List.length_drop]
    omega
  obtain ⟨c, below, hBelow, hBelowLength, -, hBelowValue⟩ :=
    addSameInto_exact hAlu hTake hBelowRoom
  obtain ⟨carry, above, hAbove, hAboveLength, hAboveValue⟩ :=
    addLimbInto_exact hAlu c hAboveRoom
  rw [hTake] at hBelow hBelowLength hBelowValue
  rw [hDrop] at hAbove hAboveLength hAboveValue
  refine ⟨carry, below ++ above, ?_, ?_, ?_⟩
  · have hRest : ys.length + (xs.length - ys.length) = xs.length := by omega
    rw [addInto, require_pos hShort, require_pos hLength]
    simp only [ok_bind, hBelow, hAbove, List.drop_take_self, List.append_nil, List.drop_drop,
      hRest, List.append_assoc]
    rfl
  · rw [List.length_append, hBelowLength, hAboveLength]
    omega
  · have hSplit := Digits.value_take_add hShort
    rw [radix_split hShort, value, Digits.value_append, hBelowLength]
    linear_combination hBelowValue + radix (w.bits * ys.length) * hAboveValue + hSplit

/-- The borrow out of the low part enters the chain of the high part. -/
theorem sub_exact (hAlu : alu.Lawful) (hShort : ys.length ≤ xs.length) :
    ∃ borrow low, sub alu xs ys = .ok ⟨borrow, low⟩ ∧ low.length = xs.length ∧
      value low + value ys = value xs + borrow.toNat * radix (w.bits * xs.length) := by
  have hTake : (xs.take ys.length).length = ys.length := List.length_take_of_le hShort
  have hDrop : (xs.drop ys.length).length = xs.length - ys.length := List.length_drop
  obtain ⟨b, below, hBelow, hBelowLength, -, hBelowValue⟩ := subSame_exact hAlu hTake
  obtain ⟨borrow, above, hAbove, hAboveLength, hAboveValue⟩ :=
    subLimb_exact hAlu (xs.drop ys.length) b
  rw [hTake] at hBelowLength hBelowValue
  rw [hDrop] at hAboveLength hAboveValue
  refine ⟨borrow, below ++ above, ?_, ?_, ?_⟩
  · rw [sub, require_pos hShort]
    simp only [ok_bind, hBelow, hAbove]
    rfl
  · rw [List.length_append, hBelowLength, hAboveLength]
    omega
  · have hSplit := Digits.value_take_add hShort
    rw [radix_split hShort, value, Digits.value_append, hBelowLength]
    linear_combination hBelowValue + radix (w.bits * ys.length) * hAboveValue + hSplit

end

end LimbArith.Limbs
