import LimbArith.Limbs.Add
import LimbArith.Limbs.Multiply
import LimbArith.Limbs.Shift
import LimbArith.Proofs.Limbs.Answers

/-!
# LimbArith — operations in place

Most operations exist in two forms. One writes to a separate result, the other
over its own first operand, and the two are not the same loop: in place, the
sums of arrays go by the masked path of the conditional ones, and the shifts
read a limb before they replace it.

What one form does is still what the other does. `Swept.onto` writes the limbs of
a loop over the low part of an array; each form with a result is its form in
place, written over that result. This is an equation between operations, so it
holds of their faults as well.

Main results:

* `sweepInto_eq_onto`, `sweepDownInto_eq_onto` — the loops, either way.
* `addSameInto_eq_onto`, `addInto_eq_onto`, `shiftRightInto_eq_onto`, … — the
  operations.
* `length_addSame`, `length_add`, … — nothing in place changes a length.
-/

namespace LimbArith

variable {w : Width}

namespace Swept

/-- The limbs of a loop, written over the low part of an array. -/
def onto (result : Limbs w) (s : Swept w) : Swept w :=
  ⟨s.carry, s.limbs ++ result.drop s.limbs.length⟩

theorem onto_ok {result low : Limbs w} {carry : Limb w} {n : ℕ} (hLow : low.length = n) :
    onto result <$> (.ok ⟨carry, low⟩ : Checked (Swept w))
      = .ok ⟨carry, low ++ result.drop n⟩ := by
  subst hLow
  rfl

end Swept

namespace Limbs

variable {alu : Alu w} {α β : Type} {result xs ys : Limbs w}

-- ---------------------------------------------------------------------------
-- Loops
-- ---------------------------------------------------------------------------

/-- A loop that reads both operands from its inputs writes what the loop writes that finds the first
one in the array it replaces. -/
theorem sweepInto_zipWith_eq_onto {stepInto : Limb w → β → Limb w → Checked (Carried w)}
    {step : Limb w → α → Limb w → Checked (Carried w)} {f : Limb w → α → β} {inputs : List α}
    (hStep : ∀ r x y c, stepInto r (f x y) c = step x y c) (hSame : xs.length = inputs.length)
    (hLength : xs.length ≤ result.length) (c : Limb w) :
    sweepInto stepInto result (List.zipWith f xs inputs) c
      = Swept.onto result <$> sweepInto step xs inputs c := by
  induction xs generalizing inputs result c with
  | nil =>
    rw [List.zipWith_nil_left]
    cases result <;> rfl
  | cons x xs ih =>
    cases inputs with
    | nil => simp at hSame
    | cons y inputs =>
      cases result with
      | nil => simp at hLength
      | cons r result =>
        have hRest := ih (Nat.succ.inj hSame) (Nat.le_of_succ_le_succ hLength)
        rw [List.zipWith_cons_cons, sweepInto, sweepInto, hStep]
        rcases step x y c with fault | here
        · rfl
        · rw [ok_bind, ok_bind, hRest]
          rcases sweepInto step xs inputs here.carry with fault | above <;> rfl

theorem sweepInto_eq_onto (step : Limb w → Limb w → Checked (Carried w))
    (hLength : xs.length ≤ result.length) (c : Limb w) :
    sweepInto (fun _ x c => step x c) result xs c = Swept.onto result <$> sweep step xs c := by
  have hZip : List.zipWith (fun _ x => x) xs xs = xs := by simp
  rw [sweep_eq_sweepInto, ← sweepInto_zipWith_eq_onto (fun _ _ _ _ => rfl) rfl hLength c, hZip]

theorem sweepDownInto_eq_onto (step : Limb w → Limb w → Checked (Carried w))
    (hLength : xs.length ≤ result.length) (c : Limb w) :
    sweepDownInto step result xs c = Swept.onto result <$> sweepDown step xs c := by
  induction xs generalizing result with
  | nil => cases result <;> rfl
  | cons x xs ih =>
    cases result with
    | nil => simp at hLength
    | cons r result =>
      rw [sweepDownInto, sweepDown, ih (Nat.le_of_succ_le_succ hLength)]
      rcases sweepDown step xs c with fault | above
      · rfl
      · rw [ok_bind]
        change (step x above.carry >>= _) = _
        rcases step x above.carry with fault | here <;> rfl

-- ---------------------------------------------------------------------------
-- An array and a limb
-- ---------------------------------------------------------------------------

theorem addLimbInto_eq_onto (alu : Alu w) (y : Limb w) (hLength : xs.length ≤ result.length) :
    addLimbInto alu result xs y = Swept.onto result <$> addLimb alu xs y := by
  rw [addLimbInto, require_pos hLength, ok_bind]
  exact sweepInto_eq_onto _ hLength y

theorem subLimbInto_eq_onto (alu : Alu w) (y : Limb w) (hLength : xs.length ≤ result.length) :
    subLimbInto alu result xs y = Swept.onto result <$> subLimb alu xs y := by
  rw [subLimbInto, require_pos hLength, ok_bind]
  exact sweepInto_eq_onto _ hLength y

theorem mulLimbInto_eq_onto (alu : Alu w) (y : Limb w) (hLength : xs.length ≤ result.length) :
    mulLimbInto alu result xs y = Swept.onto result <$> mulLimb alu xs y := by
  rw [mulLimbInto, require_pos hLength, ok_bind]
  exact sweepInto_eq_onto _ hLength 0

-- ---------------------------------------------------------------------------
-- Equal lengths
-- ---------------------------------------------------------------------------

/-- A loop over two arrays of equal length, with a result and in place. In place it takes its second
operand through a mask, which is set. -/
theorem same_eq_onto (step : Limb w → Limb w → Limb w → Checked (Carried w)) (ys : Limbs w)
    (hLength : xs.length ≤ result.length) :
    (do require (xs.length = ys.length) .lengthMismatch
        require (xs.length ≤ result.length) .resultTooShort
        sweepInto (fun _ (x, y) c => step x y c) result (xs.zip ys) 0)
      = Swept.onto result <$> (do
          require (xs.length = ys.length) .lengthMismatch
          sweepInto (fun x y c => step x (Mask.set.select 0 y) c) xs ys 0) := by
  by_cases hSame : xs.length = ys.length
  · rw [require_pos hSame, require_pos hLength]
    refine sweepInto_zipWith_eq_onto ?_ hSame hLength 0
    intro _ x y c
    rw [Mask.select_set]
  · rw [require_neg hSame]
    rfl

theorem addSameInto_eq_onto (alu : Alu w) (ys : Limbs w) (hLength : xs.length ≤ result.length) :
    addSameInto alu result xs ys = Swept.onto result <$> addSame alu xs ys :=
  same_eq_onto alu.addCarry ys hLength

theorem subSameInto_eq_onto (alu : Alu w) (ys : Limbs w) (hLength : xs.length ≤ result.length) :
    subSameInto alu result xs ys = Swept.onto result <$> subSame alu xs ys :=
  same_eq_onto alu.subBorrow ys hLength

theorem length_addSame {s : Swept w} (h : addSame alu xs ys = .ok s) :
    s.limbs.length = xs.length := by
  unfold addSame addSameIf at h
  rw [bind_eq_ok_iff] at h
  obtain ⟨-, -, h⟩ := h
  exact length_sweepInto h

theorem length_subSame {s : Swept w} (h : subSame alu xs ys = .ok s) :
    s.limbs.length = xs.length := by
  unfold subSame subSameIf at h
  rw [bind_eq_ok_iff] at h
  obtain ⟨-, -, h⟩ := h
  exact length_sweepInto h

-- ---------------------------------------------------------------------------
-- Mixed lengths
-- ---------------------------------------------------------------------------

/-- A low part and the high part that its carry enters, as one array. -/
def joined (low : Checked (Swept w)) (high : Limb w → Checked (Swept w)) : Checked (Swept w) := do
  let low ← low
  let high ← high low.carry
  pure ⟨high.carry, low.limbs ++ high.limbs⟩

section

variable {n : ℕ} {low lowInto : Checked (Swept w)} {high highInto : Limb w → Checked (Swept w)}

/-- Both parts written over the parts of the result are the whole written over it. -/
theorem joined_eq_onto (hLow : lowInto = Swept.onto (result.take n) <$> low)
    (hHigh : ∀ c, highInto c = Swept.onto (result.drop n) <$> high c)
    (hLength : ∀ s, low = .ok s → s.limbs.length = n) :
    joined lowInto highInto = Swept.onto result <$> joined low high := by
  rcases low with fault | below
  · rw [hLow]
    rfl
  · have hBelow : below.limbs.length = n := hLength below rfl
    rw [hLow]
    change (highInto below.carry >>= _) = Swept.onto result <$> (high below.carry >>= _)
    rw [hHigh]
    rcases high below.carry with fault | above
    · rfl
    · refine congrArg Except.ok ?_
      simp [Swept.onto, hBelow, List.drop_drop]

theorem length_joined {m : ℕ} {s : Swept w} (hLow : ∀ t, low = .ok t → t.limbs.length = n)
    (hHigh : ∀ c t, high c = .ok t → t.limbs.length = m) (h : joined low high = .ok s) :
    s.limbs.length = n + m := by
  unfold joined at h
  simp only [bind_eq_ok_iff] at h
  obtain ⟨below, hBelow, above, hAbove, h⟩ := h
  cases h
  rw [List.length_append, hLow below hBelow, hHigh _ above hAbove]

end

section

variable {sameInto : Limbs w → Limbs w → Limbs w → Checked (Swept w)}
  {same : Limbs w → Limbs w → Checked (Swept w)}
  {limbInto : Limbs w → Limbs w → Limb w → Checked (Swept w)}
  {limb : Limbs w → Limb w → Checked (Swept w)}

/-- An operation on arrays of two lengths is one on equal lengths and one on a limb, both with a
result or both in place. -/
theorem mixed_eq_onto
    (hSame : ∀ {result xs : Limbs w}, xs.length ≤ result.length →
      sameInto result xs ys = Swept.onto result <$> same xs ys)
    (hLimb : ∀ {result xs : Limbs w} (y : Limb w), xs.length ≤ result.length →
      limbInto result xs y = Swept.onto result <$> limb xs y)
    (hKeeps : ∀ {xs : Limbs w} {s : Swept w}, same xs ys = .ok s → s.limbs.length = xs.length)
    (hLength : xs.length ≤ result.length) :
    (do require (ys.length ≤ xs.length) .operandTooLong
        require (xs.length ≤ result.length) .resultTooShort
        joined (sameInto (result.take ys.length) (xs.take ys.length) ys)
          (limbInto (result.drop ys.length) (xs.drop ys.length)))
      = Swept.onto result <$> (do
          require (ys.length ≤ xs.length) .operandTooLong
          joined (same (xs.take ys.length) ys) (limb (xs.drop ys.length))) := by
  by_cases hShort : ys.length ≤ xs.length
  · rw [require_pos hShort, require_pos hLength]
    obtain ⟨⟨hBelow, hBelowRoom⟩, hAboveRoom⟩ := split_lengths hShort hLength
    refine joined_eq_onto (hSame hBelowRoom) ?_ ?_
    · intro c
      exact hLimb c hAboveRoom
    · intro s hs
      rw [hKeeps hs, hBelow]
  · rw [require_neg hShort]
    rfl

theorem length_mixed (limb : Limbs w → Limb w → Checked (Swept w))
    (hKeeps : ∀ {xs : Limbs w} {s : Swept w}, same xs ys = .ok s → s.limbs.length = xs.length)
    (hLimb : ∀ {xs : Limbs w} {y : Limb w} {s : Swept w}, limb xs y = .ok s →
      s.limbs.length = xs.length) {s : Swept w}
    (h : (do
      require (ys.length ≤ xs.length) .operandTooLong
      joined (same (xs.take ys.length) ys) (limb (xs.drop ys.length))) = .ok s) :
    s.limbs.length = xs.length := by
  rw [bind_eq_ok_iff] at h
  obtain ⟨-, -, h⟩ := h
  rw [length_joined (fun _ => hKeeps) (fun _ _ => hLimb) h, ← List.length_append,
    List.take_append_drop]

end

theorem addInto_eq_onto (alu : Alu w) (ys : Limbs w) (hLength : xs.length ≤ result.length) :
    addInto alu result xs ys = Swept.onto result <$> add alu xs ys :=
  mixed_eq_onto (addSameInto_eq_onto alu ys) (addLimbInto_eq_onto alu) length_addSame hLength

theorem subInto_eq_onto (alu : Alu w) (ys : Limbs w) (hLength : xs.length ≤ result.length) :
    subInto alu result xs ys = Swept.onto result <$> sub alu xs ys :=
  mixed_eq_onto (subSameInto_eq_onto alu ys) (subLimbInto_eq_onto alu) length_subSame hLength

theorem length_add {s : Swept w} (h : add alu xs ys = .ok s) : s.limbs.length = xs.length :=
  length_mixed (addLimb alu) length_addSame length_sweep h

theorem length_sub {s : Swept w} (h : sub alu xs ys = .ok s) : s.limbs.length = xs.length :=
  length_mixed (subLimb alu) length_subSame length_sweep h

-- ---------------------------------------------------------------------------
-- Shifts
-- ---------------------------------------------------------------------------

theorem shiftLeftInto_eq_onto (count : ℕ) (hLength : xs.length ≤ result.length) :
    shiftLeftInto result xs count = Swept.onto result <$> shiftLeft xs count := by
  unfold shiftLeftInto shiftLeft
  by_cases hCount : count < w.bits
  · rw [require_pos hCount, require_pos hLength, ok_bind, ok_bind, ok_bind,
      sweepInto_eq_onto _ hLength]
    rcases sweep (fun x below => pure (leftStep count x below)) xs 0 with fault | s <;> rfl
  · rw [require_neg hCount]
    rfl

theorem shiftRightInto_eq_onto (count : ℕ) (hLength : xs.length ≤ result.length) :
    shiftRightInto result xs count = Swept.onto result <$> shiftRight xs count := by
  unfold shiftRightInto shiftRight
  by_cases hCount : count < w.bits
  · rw [require_pos hCount, require_pos hLength, ok_bind, ok_bind, ok_bind,
      sweepDownInto_eq_onto _ hLength]
    rcases sweepDown (fun x above => pure (rightStep count x above)) xs 0 with fault | s <;> rfl
  · rw [require_neg hCount]
    rfl

theorem length_shiftLeft {count : ℕ} {s : Swept w} (h : shiftLeft xs count = .ok s) :
    s.limbs.length = xs.length := by
  unfold shiftLeft at h
  simp only [bind_eq_ok_iff] at h
  obtain ⟨-, -, swept, hSwept, h⟩ := h
  cases h
  simp [length_sweep hSwept]

theorem length_shiftRight {count : ℕ} {s : Swept w} (h : shiftRight xs count = .ok s) :
    s.limbs.length = xs.length := by
  unfold shiftRight at h
  simp only [bind_eq_ok_iff] at h
  obtain ⟨-, -, swept, hSwept, h⟩ := h
  cases h
  simp [length_sweepDown hSwept]

end Limbs

end LimbArith
