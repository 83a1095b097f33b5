import LimbArith.Limbs.Add
import LimbArith.Limbs.Compare
import LimbArith.Limbs.Conditional
import LimbArith.Proofs.Decided
import LimbArith.Proofs.Limbs.LengthScan
import LimbArith.Proofs.Limbs.Order
import LimbArith.Proofs.Limbs.Square

/-!
# LimbArith — array operations always answer within their contracts

The checks inside an array operation guard its carries: a carry of at most one in
some chains, a whole limb in others, a product with room for it. Each chain keeps
the bound that its own steps rely on, so a loop answers whatever its limbs are,
and what an operation does is decided by the lengths and distances that it checks
first.

Main results, for lawful primitives:

* `sweep_answers`, `sweepInto_answers` and their kin — a loop whose steps keep a
  bound of the carry.
* `addInto_decided`, `mulInto_decided`, `compareNormalized_decided`, … — the
  contract of each operation decides it.
-/

namespace LimbArith.Limbs

variable {w : Width} {α : Type} {alu : Alu w}

-- ---------------------------------------------------------------------------
-- Loops
-- ---------------------------------------------------------------------------

/-- Every step answers and keeps the invariant `P` of carries. -/
def StepAnswers (P : Limb w → Prop) (step : Limb w → α → Limb w → Checked (Carried w)) : Prop :=
  ∀ r x c, P c → ∃ s, step r x c = .ok s ∧ P s.carry

section

variable {P : Limb w → Prop} {c : Limb w}

theorem sweepInto_answers {step : Limb w → α → Limb w → Checked (Carried w)}
    (hStep : StepAnswers P step) (result : Limbs w) (inputs : List α) (hc : P c) :
    ∃ s, sweepInto step result inputs c = .ok s := by
  induction inputs generalizing result c with
  | nil => cases result <;> exact ⟨_, rfl⟩
  | cons x inputs ih =>
    cases result with
    | nil => exact ⟨_, rfl⟩
    | cons r result =>
      obtain ⟨here, hHere, hCarry⟩ := hStep r x c hc
      obtain ⟨above, hAbove⟩ := ih result hCarry
      rw [sweepInto, hHere, ok_bind, hAbove]
      exact ⟨_, rfl⟩

theorem sweep_answers {step : Limb w → Limb w → Checked (Carried w)}
    (hStep : StepAnswers P fun _ x c => step x c) (xs : Limbs w) (hc : P c) :
    ∃ s, sweep step xs c = .ok s := by
  rw [sweep_eq_sweepInto]
  exact sweepInto_answers hStep xs xs hc

end

/-- Loops from the top down are only used for shifts, whose steps cannot fail. -/
theorem sweepDownInto_answers (step : α → Limb w → Carried w) (result : Limbs w)
    (inputs : List α) (c : Limb w) :
    ∃ s, sweepDownInto (fun x c => pure (step x c)) result inputs c = .ok s := by
  induction inputs generalizing result with
  | nil => cases result <;> exact ⟨_, rfl⟩
  | cons x inputs ih =>
    cases result with
    | nil => exact ⟨_, rfl⟩
    | cons r result =>
      obtain ⟨above, hAbove⟩ := ih result
      rw [sweepDownInto, hAbove]
      exact ⟨_, rfl⟩

theorem sweepDown_answers (step : Limb w → Limb w → Carried w) (xs : Limbs w) (c : Limb w) :
    ∃ s, sweepDown (fun x c => pure (step x c)) xs c = .ok s := by
  induction xs with
  | nil => exact ⟨_, rfl⟩
  | cons x xs ih =>
    obtain ⟨above, hAbove⟩ := ih
    rw [sweepDown, hAbove]
    exact ⟨_, rfl⟩

-- ---------------------------------------------------------------------------
-- Steps
-- ---------------------------------------------------------------------------

/-- Steps that check nothing take any carry. -/
theorem stepAnswers_pure (step : Limb w → α → Limb w → Carried w) :
    StepAnswers (fun _ => True) fun r x c => pure (step r x c) :=
  fun _ _ _ _ => ⟨_, rfl, trivial⟩

/-- A sum of two limbs carries at most one. -/
theorem stepAnswers_addCarry (hAlu : alu.Lawful) (f g : Limb w → α → Limb w) :
    StepAnswers (fun c => c.toNat ≤ 1) fun r x c => alu.addCarry (f r x) (g r x) c := by
  intro r x c hc
  obtain ⟨s, hOk, hCarry, -⟩ := hAlu.addCarry_exact (f r x) (g r x) hc
  exact ⟨s, hOk, hCarry⟩

/-- A difference of two limbs borrows at most one. -/
theorem stepAnswers_subBorrow (hAlu : alu.Lawful) (f g : Limb w → α → Limb w) :
    StepAnswers (fun c => c.toNat ≤ 1) fun r x c => alu.subBorrow (f r x) (g r x) c := by
  intro r x c hc
  obtain ⟨s, hOk, hBorrow, -⟩ := hAlu.subBorrow_exact (f r x) (g r x) hc
  exact ⟨s, hOk, hBorrow⟩

/-- A product of two limbs leaves room for a whole limb as carry. -/
theorem stepAnswers_mulStep (hAlu : alu.Lawful) (y : Limb w) :
    StepAnswers (fun _ => True) fun (_ x c : Limb w) => mulStep alu y x c := by
  intro _ x c _
  obtain ⟨s, hOk, -⟩ := mulStep_exact hAlu y x c
  exact ⟨s, hOk, trivial⟩

theorem stepAnswers_mulAdd (hAlu : alu.Lawful) (y : Limb w) :
    StepAnswers (fun _ => True) fun (r x c : Limb w) => alu.mulAdd r x y c := by
  intro r x c _
  obtain ⟨s, hOk, -⟩ := hAlu.mulAdd r x y c
  exact ⟨s, hOk, trivial⟩

theorem stepAnswers_mulSub (hAlu : alu.Lawful) (y : Limb w) :
    StepAnswers (fun _ => True) fun (r x c : Limb w) => alu.mulSub r x y c := by
  intro r x c _
  obtain ⟨s, hOk, -⟩ := hAlu.mulSub r x y c
  exact ⟨s, hOk, trivial⟩

-- ---------------------------------------------------------------------------
-- An array and a limb
-- ---------------------------------------------------------------------------

variable {result xs ys : Limbs w}

theorem addLimbInto_decided (alu : Alu w) (result xs : Limbs w) (y : Limb w) :
    Decided (xs.length ≤ result.length) (addLimbInto alu result xs y) :=
  .require trivial fun _ =>
    sweepInto_answers (stepAnswers_pure fun _ x c => alu.add x c) result xs trivial

theorem subLimbInto_decided (alu : Alu w) (result xs : Limbs w) (y : Limb w) :
    Decided (xs.length ≤ result.length) (subLimbInto alu result xs y) :=
  .require trivial fun _ =>
    sweepInto_answers (stepAnswers_pure fun _ x c => alu.sub x c) result xs trivial

theorem mulLimbInto_decided (hAlu : alu.Lawful) (result xs : Limbs w) (y : Limb w) :
    Decided (xs.length ≤ result.length) (mulLimbInto alu result xs y) :=
  .require trivial fun _ => sweepInto_answers (stepAnswers_mulStep hAlu y) result xs trivial

theorem addLimb_answers (alu : Alu w) (xs : Limbs w) (y : Limb w) :
    ∃ s, addLimb alu xs y = .ok s :=
  sweep_answers (stepAnswers_pure fun _ x c => alu.add x c) xs trivial

theorem subLimb_answers (alu : Alu w) (xs : Limbs w) (y : Limb w) :
    ∃ s, subLimb alu xs y = .ok s :=
  sweep_answers (stepAnswers_pure fun _ x c => alu.sub x c) xs trivial

theorem mulLimb_answers (hAlu : alu.Lawful) (xs : Limbs w) (y : Limb w) :
    ∃ s, mulLimb alu xs y = .ok s :=
  sweep_answers (stepAnswers_mulStep hAlu y) xs trivial

theorem mulAddLimb_decided (hAlu : alu.Lawful) (acc xs : Limbs w) (y : Limb w) :
    Decided (xs.length ≤ acc.length) (mulAddLimb alu acc xs y) :=
  .require trivial fun _ => sweepInto_answers (stepAnswers_mulAdd hAlu y) acc xs trivial

theorem mulSubLimb_decided (hAlu : alu.Lawful) (acc xs : Limbs w) (y : Limb w) :
    Decided (xs.length ≤ acc.length) (mulSubLimb alu acc xs y) :=
  .require trivial fun _ => sweepInto_answers (stepAnswers_mulSub hAlu y) acc xs trivial

-- ---------------------------------------------------------------------------
-- Sums and differences
-- ---------------------------------------------------------------------------

theorem addSameInto_decided (hAlu : alu.Lawful) (result xs ys : Limbs w) :
    Decided (xs.length = ys.length ∧ xs.length ≤ result.length)
      (addSameInto alu result xs ys) :=
  .require_and trivial fun _ => .require trivial fun _ =>
    sweepInto_answers (stepAnswers_addCarry hAlu (fun _ (p : Limb w × Limb w) => p.1)
      fun _ p => p.2) result _ toNat_zero_le_one

theorem subSameInto_decided (hAlu : alu.Lawful) (result xs ys : Limbs w) :
    Decided (xs.length = ys.length ∧ xs.length ≤ result.length)
      (subSameInto alu result xs ys) :=
  .require_and trivial fun _ => .require trivial fun _ =>
    sweepInto_answers (stepAnswers_subBorrow hAlu (fun _ (p : Limb w × Limb w) => p.1)
      fun _ p => p.2) result _ toNat_zero_le_one

theorem addSameIf_decided (hAlu : alu.Lawful) (xs ys : Limbs w) (cond : Mask w) :
    Decided (xs.length = ys.length) (addSameIf alu xs ys cond) :=
  .require trivial fun _ =>
    sweepInto_answers (stepAnswers_addCarry hAlu (fun x _ => x) fun _ y => cond.select 0 y) xs ys
      toNat_zero_le_one

theorem subSameIf_decided (hAlu : alu.Lawful) (xs ys : Limbs w) (cond : Mask w) :
    Decided (xs.length = ys.length) (subSameIf alu xs ys cond) :=
  .require trivial fun _ =>
    sweepInto_answers (stepAnswers_subBorrow hAlu (fun x _ => x) fun _ y => cond.select 0 y) xs ys
      toNat_zero_le_one

/-- A low and a high part that both answer, whatever carry goes from one to the other. -/
theorem split_answers {low : Checked (Swept w)} {high : Limb w → Checked (Swept w)}
    (hLow : ∃ s, low = .ok s) (hHigh : ∀ c, ∃ s, high c = .ok s) :
    ∃ s : Swept w, (do
      let low ← low
      let high ← high low.carry
      pure ⟨high.carry, low.limbs ++ high.limbs⟩ : Checked (Swept w)) = .ok s := by
  obtain ⟨s, rfl⟩ := hLow
  obtain ⟨t, ht⟩ := hHigh s.carry
  rw [ok_bind, ht]
  exact ⟨_, rfl⟩

/-- The parts of two operands below and above the end of the shorter one. -/
theorem split_lengths (hShort : ys.length ≤ xs.length) (hLength : xs.length ≤ result.length) :
    ((xs.take ys.length).length = ys.length ∧
      (xs.take ys.length).length ≤ (result.take ys.length).length) ∧
      (xs.drop ys.length).length ≤ (result.drop ys.length).length := by
  rw [List.length_take_of_le hShort, List.length_take_of_le (le_trans hShort hLength),
    List.length_drop, List.length_drop]
  exact ⟨⟨rfl, le_refl _⟩, Nat.sub_le_sub_right hLength _⟩

theorem addInto_decided (hAlu : alu.Lawful) (result xs ys : Limbs w) :
    Decided (ys.length ≤ xs.length ∧ xs.length ≤ result.length) (addInto alu result xs ys) := by
  refine .require_and trivial fun hShort => .require trivial fun hLength => ?_
  obtain ⟨hLow, hHigh⟩ := split_lengths hShort hLength
  refine split_answers ((addSameInto_decided hAlu ..).answers hLow) ?_
  intro c
  exact (addLimbInto_decided alu _ _ c).answers hHigh

theorem subInto_decided (hAlu : alu.Lawful) (result xs ys : Limbs w) :
    Decided (ys.length ≤ xs.length ∧ xs.length ≤ result.length) (subInto alu result xs ys) := by
  refine .require_and trivial fun hShort => .require trivial fun hLength => ?_
  obtain ⟨hLow, hHigh⟩ := split_lengths hShort hLength
  refine split_answers ((subSameInto_decided hAlu ..).answers hLow) ?_
  intro c
  exact (subLimbInto_decided alu _ _ c).answers hHigh

theorem add_decided (hAlu : alu.Lawful) (xs ys : Limbs w) :
    Decided (ys.length ≤ xs.length) (add alu xs ys) := by
  refine .require trivial fun hShort => ?_
  have hLow := (addSameIf_decided hAlu _ _ Mask.set).answers (List.length_take_of_le hShort)
  refine split_answers hLow ?_
  intro c
  exact addLimb_answers alu _ c

theorem sub_decided (hAlu : alu.Lawful) (xs ys : Limbs w) :
    Decided (ys.length ≤ xs.length) (sub alu xs ys) := by
  refine .require trivial fun hShort => ?_
  have hLow := (subSameIf_decided hAlu _ _ Mask.set).answers (List.length_take_of_le hShort)
  refine split_answers hLow ?_
  intro c
  exact subLimb_answers alu _ c

-- ---------------------------------------------------------------------------
-- Products
-- ---------------------------------------------------------------------------

theorem mulInto_decided (hAlu : alu.Lawful) (result xs ys : Limbs w) :
    Decided (xs.length + ys.length ≤ result.length) (mulInto alu result xs ys) where
  answers hLength := ⟨_, mulInto_eq hAlu hLength⟩
  refuses hShort := by
    refine ⟨.resultTooShort, ?_, trivial⟩
    unfold mulInto
    by_cases hLong : ys.length ≤ xs.length
    · rw [if_pos hLong]
      simp only [require_neg hShort, error_bind]
    · rw [if_neg hLong]
      rw [Nat.add_comm] at hShort
      simp only [require_neg hShort, error_bind]

theorem squareInto_decided (hAlu : alu.Lawful) (result xs : Limbs w) :
    Decided (2 * xs.length ≤ result.length) (squareInto alu result xs) where
  answers hLength := ⟨_, squareInto_eq hAlu hLength⟩
  refuses hShort := by
    refine ⟨.resultTooShort, ?_, trivial⟩
    unfold squareInto
    simp only [require_neg hShort, error_bind]

theorem mulSameInto_decided (hAlu : alu.Lawful) (result xs ys : Limbs w) :
    Decided (xs.length = ys.length ∧ 2 * xs.length ≤ result.length)
      (mulSameInto alu result xs (.other ys)) := by
  refine .require_and trivial fun hSame => ?_
  have hLength : 2 * xs.length ≤ result.length ↔ xs.length + ys.length ≤ result.length := by
    rw [← hSame, Nat.two_mul]
  exact (mulInto_decided hAlu result xs ys).congr hLength

-- ---------------------------------------------------------------------------
-- Shifts
-- ---------------------------------------------------------------------------

theorem shiftLeftInto_decided (result xs : Limbs w) (count : ℕ) :
    Decided (count < w.bits ∧ xs.length ≤ result.length) (shiftLeftInto result xs count) := by
  refine .require_and trivial fun _ => .require trivial fun _ => ?_
  obtain ⟨s, hs⟩ := sweepInto_answers (stepAnswers_pure fun _ x below => leftStep count x below)
    result xs (c := 0) trivial
  rw [hs]
  exact ⟨_, rfl⟩

theorem shiftLeft_decided (xs : Limbs w) (count : ℕ) :
    Decided (count < w.bits) (shiftLeft xs count) := by
  refine .require trivial fun _ => ?_
  obtain ⟨s, hs⟩ := sweep_answers (stepAnswers_pure fun _ x below => leftStep count x below)
    xs (c := 0) trivial
  rw [hs]
  exact ⟨_, rfl⟩

theorem shiftRightInto_decided (result xs : Limbs w) (count : ℕ) :
    Decided (count < w.bits ∧ xs.length ≤ result.length) (shiftRightInto result xs count) := by
  refine .require_and trivial fun _ => .require trivial fun _ => ?_
  obtain ⟨s, hs⟩ := sweepDownInto_answers (rightStep count) result xs 0
  rw [hs]
  exact ⟨_, rfl⟩

theorem shiftRight_decided (xs : Limbs w) (count : ℕ) :
    Decided (count < w.bits) (shiftRight xs count) := by
  refine .require trivial fun _ => ?_
  obtain ⟨s, hs⟩ := sweepDown_answers (rightStep count) xs 0
  rw [hs]
  exact ⟨_, rfl⟩

-- ---------------------------------------------------------------------------
-- Conditions
-- ---------------------------------------------------------------------------

theorem copyIf_decided (xs ys : Limbs w) (cond : Mask w) :
    Decided (xs.length = ys.length) (copyIf xs ys cond) :=
  .require trivial fun _ => ⟨_, rfl⟩

theorem swapIf_decided (xs ys : Limbs w) (cond : Mask w) :
    Decided (xs.length = ys.length) (swapIf xs ys cond) :=
  .require trivial fun _ => ⟨_, rfl⟩

theorem negateIf_answers (alu : Alu w) (xs : Limbs w) (cond : Mask w) :
    ∃ out, negateIf alu xs cond = .ok out := by
  obtain ⟨s, hs⟩ := sweep_answers
    (stepAnswers_pure fun _ x carry => alu.add (x ^^^ cond.select 0 (-1)) carry)
    xs (c := cond.select 0 (-1) &&& 1) trivial
  simp only [negateIf, hs]
  exact ⟨_, rfl⟩

-- ---------------------------------------------------------------------------
-- Comparisons
-- ---------------------------------------------------------------------------

theorem scanSame_decided (hAlu : alu.Lawful) (xs ys : Limbs w) :
    Decided (xs.length = ys.length) (scanSame alu xs ys) :=
  .require trivial fun hSame => ⟨_, scan_exact hAlu xs ys hSame⟩

theorem eq_decided (hAlu : alu.Lawful) (xs ys : Limbs w) :
    Decided (xs.length = ys.length) (eq alu xs ys) :=
  .require trivial fun hSame => ⟨_, scanEq_exact hAlu (p := True) hSame⟩

theorem lt_decided (hAlu : alu.Lawful) (xs ys : Limbs w) :
    Decided (xs.length = ys.length) (lt alu xs ys) :=
  (scanSame_decided hAlu xs ys).bind fun _ _ => ⟨_, rfl⟩

theorem le_decided (hAlu : alu.Lawful) (xs ys : Limbs w) :
    Decided (xs.length = ys.length) (le alu xs ys) :=
  (scanSame_decided hAlu xs ys).bind fun _ _ => ⟨_, rfl⟩

theorem compareSame_decided (hAlu : alu.Lawful) (xs ys : Limbs w) :
    Decided (xs.length = ys.length) (compareSame alu xs ys) :=
  (scanSame_decided hAlu xs ys).bind fun _ _ => ⟨_, rfl⟩

theorem compareNormalized_decided (hAlu : alu.Lawful) (xs ys : Limbs w) :
    Decided (xs.getLast? ≠ some 0 ∧ ys.getLast? ≠ some 0) (compareNormalized alu xs ys) := by
  rw [← normalized_iff, ← normalized_iff]
  refine .require_and trivial fun _ => .require trivial fun _ => ?_
  -- limbs are only compared between equal lengths
  cases hLengths : compare xs.length ys.length with
  | eq =>
    obtain ⟨s, hSign⟩ := (compareSame_decided hAlu xs ys).answers (Nat.compare_eq_eq.mp hLengths)
    exact ⟨_, bind_eq_ok_iff.mpr ⟨s, hSign, rfl⟩⟩
  | lt => exact ⟨_, rfl⟩
  | gt => exact ⟨_, rfl⟩

theorem significantLenScan_answers (hAlu : alu.Lawful) (xs : Limbs w) :
    ∃ n, significantLenScan alu xs = .ok n := ⟨_, significantLenScan_exact hAlu xs⟩

end LimbArith.Limbs
