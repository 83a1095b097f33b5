import LimbArith.Limbs.Conditional
import LimbArith.Proofs.Limbs.InPlace
import LimbArith.Proofs.Primitive.Comparison
import LimbArith.Proofs.Primitive.Implementation

/-!
# LimbArith — conditional operations branch

A conditional operation takes no branch. It goes over every limb and lets a mask
choose at each, in the sums and differences by what it adds to a carry chain that
runs either way. What it leaves is still what a branch on the condition would
leave: the operation itself, or nothing.

A mask is made from a bit or by logic on masks, so all its bits are equal, and
there are two cases. Set, every selection takes the second value, and the chains
are those of the operation in place. Unset, every step hands on the carry it got,
and a chain that starts with none ends with none.

Main results:

* `Mask.Formed`, `Mask.Formed.set_or_unset` — the masks that there are.
* `sweep_keeps`, `sweepInto_keeps` — a loop whose steps hand the carry on.
* `addSameIf_unset`, `copyIf_set`, `swapIf_set`, … — each operation in each case.
* `conditionals_branch` — all four operations.
-/

namespace LimbArith

variable {w : Width}

-- ---------------------------------------------------------------------------
-- Masks
-- ---------------------------------------------------------------------------

namespace Mask

/-- The masks that can be made: from a limb that is zero or one, and from other masks by logic. -/
inductive Formed : Mask w → Prop where
  | ofLimb {x : Limb w} {c : Mask w} (h : Mask.ofLimb x = .ok c) : Formed c
  | not {c : Mask w} (h : Formed c) : Formed c.not
  | and {c d : Mask w} (hc : Formed c) (hd : Formed d) : Formed (c.and d)
  | or {c d : Mask w} (hc : Formed c) (hd : Formed d) : Formed (c.or d)

theorem formed_set : (set : Mask w).Formed := .ofLimb ofLimb_one

/-- A mask that can be made is the mask of a statement. -/
theorem Formed.eq_decide {c : Mask w} (h : c.Formed) :
    ∃ (p : Prop) (_ : Decidable p), c = Mask.decide p := by
  induction h with
  | @ofLimb x c h =>
    obtain ⟨_, hBit, -⟩ := bind_eq_ok_iff.mp h
    rcases require_eq_ok_iff.mp hBit with rfl | rfl
    · rw [ofLimb_zero] at h
      cases h
      exact ⟨False, inferInstance, (if_neg not_false).symm⟩
    · rw [ofLimb_one] at h
      cases h
      exact ⟨True, inferInstance, (if_pos trivial).symm⟩
  | not _ ih =>
    obtain ⟨p, _, rfl⟩ := ih
    exact ⟨¬ p, inferInstance, not_decide⟩
  | and _ _ ihc ihd =>
    obtain ⟨p, _, rfl⟩ := ihc
    obtain ⟨q, _, rfl⟩ := ihd
    exact ⟨p ∧ q, inferInstance, and_decide⟩
  | or _ _ ihc ihd =>
    obtain ⟨p, _, rfl⟩ := ihc
    obtain ⟨q, _, rfl⟩ := ihd
    exact ⟨p ∨ q, inferInstance, or_decide⟩

/-- It has every bit set, or none. -/
theorem Formed.set_or_unset {c : Mask w} (h : c.Formed) : c = set ∨ c = unset := by
  obtain ⟨p, _, rfl⟩ := h.eq_decide
  by_cases hp : p
  · exact .inl (if_pos hp)
  · exact .inr (if_neg hp)

/-- A set mask lets every bit through. -/
theorem select_ones_set : (set : Mask w).select 0 (-1) = BitVec.allOnes w.bits := by
  rw [select_set]
  exact BitVec.neg_one_eq_allOnes

end Mask

-- ---------------------------------------------------------------------------
-- Steps that change nothing
-- ---------------------------------------------------------------------------

namespace Alu.Lawful

variable {alu : Alu w}

theorem add_zero (h : alu.Lawful) (x : Limb w) : alu.add x 0 = ⟨0, x⟩ := by
  have hKept : (0 : Limb w).toNat * radix w.bits + x.toNat = x.toNat + (0 : Limb w).toNat := by
    rw [toNat_zero]
    omega
  exact Carried.eq_of_sum ((h.add x 0).trans hKept.symm)

theorem addCarry_zero (h : alu.Lawful) (x : Limb w) : alu.addCarry x 0 0 = .ok ⟨0, x⟩ := by
  obtain ⟨s, hOk, hSum⟩ := h.addCarry x 0 0 toNat_zero_le_one
  have hKept : (0 : Limb w).toNat * radix w.bits + x.toNat
      = x.toNat + (0 : Limb w).toNat + (0 : Limb w).toNat := by
    rw [toNat_zero]
    omega
  rw [hOk, Carried.eq_of_sum (t := ⟨0, x⟩) (hSum.trans hKept.symm)]

theorem subBorrow_zero (h : alu.Lawful) (x : Limb w) : alu.subBorrow x 0 0 = .ok ⟨0, x⟩ := by
  obtain ⟨s, hOk, hDifference⟩ := h.subBorrow x 0 0 toNat_zero_le_one
  have hKept : x.toNat + ((0 : Limb w).toNat + (0 : Limb w).toNat)
      = x.toNat + (0 : Limb w).toNat * radix w.bits := by
    rw [toNat_zero]
    omega
  rw [hOk, Carried.eq_of_difference (t := ⟨0, x⟩) hDifference hKept]

end Alu.Lawful

namespace Limbs

variable {α : Type} {alu : Alu w} {xs ys : Limbs w}

-- ---------------------------------------------------------------------------
-- Loops that change nothing
-- ---------------------------------------------------------------------------

/-- A loop whose steps keep the limb and hand the carry on keeps the array. -/
theorem sweep_keeps {step : Limb w → Limb w → Checked (Carried w)} {c : Limb w}
    (hStep : ∀ x, step x c = .ok ⟨c, x⟩) (xs : Limbs w) : sweep step xs c = .ok ⟨c, xs⟩ := by
  induction xs with
  | nil => rfl
  | cons x xs ih =>
    rw [sweep, hStep, ok_bind, ih]
    rfl

theorem sweepInto_keeps {step : Limb w → α → Limb w → Checked (Carried w)} {c : Limb w}
    (hStep : ∀ r x, step r x c = .ok ⟨c, r⟩) (result : Limbs w) (inputs : List α) :
    sweepInto step result inputs c = .ok ⟨c, result⟩ := by
  induction inputs generalizing result with
  | nil => cases result <;> rfl
  | cons x inputs ih =>
    cases result with
    | nil => rfl
    | cons r result =>
      rw [sweepInto, hStep, ok_bind, ih]
      rfl

-- ---------------------------------------------------------------------------
-- Sums and differences
-- ---------------------------------------------------------------------------

theorem addSameIf_unset (hAlu : alu.Lawful) (hSame : xs.length = ys.length) :
    addSameIf alu xs ys Mask.unset = .ok ⟨0, xs⟩ := by
  rw [addSameIf, require_pos hSame]
  refine sweepInto_keeps ?_ xs ys
  intro x y
  rw [Mask.select_unset, hAlu.addCarry_zero]

theorem subSameIf_unset (hAlu : alu.Lawful) (hSame : xs.length = ys.length) :
    subSameIf alu xs ys Mask.unset = .ok ⟨0, xs⟩ := by
  rw [subSameIf, require_pos hSame]
  refine sweepInto_keeps ?_ xs ys
  intro x y
  rw [Mask.select_unset, hAlu.subBorrow_zero]

/-- An operation in place that answers, and what the form with a result makes of it. -/
theorem answers_into {inPlace : Checked (Swept w)} {into : Limbs w → Checked (Swept w)}
    (hAnswers : ∃ s, inPlace = .ok s)
    (hKeeps : ∀ s, inPlace = .ok s → s.limbs.length = xs.length)
    (hInto : ∀ result : Limbs w, xs.length ≤ result.length →
      into result = Swept.onto result <$> inPlace) :
    ∃ carry low, inPlace = .ok ⟨carry, low⟩ ∧ low.length = xs.length ∧
      ∀ result : Limbs w, xs.length ≤ result.length →
        into result = .ok ⟨carry, low ++ result.drop xs.length⟩ := by
  obtain ⟨⟨carry, low⟩, rfl⟩ := hAnswers
  have hLow : low.length = xs.length := hKeeps _ rfl
  refine ⟨carry, low, rfl, hLow, ?_⟩
  intro result hLength
  rw [hInto result hLength, Swept.onto_ok hLow]

-- ---------------------------------------------------------------------------
-- Copies and exchanges
-- ---------------------------------------------------------------------------

theorem zipWith_eq_left {f : Limb w → Limb w → Limb w} (hf : ∀ x y, f x y = x)
    (hSame : xs.length = ys.length) : List.zipWith f xs ys = xs := by
  have hFst : Function.uncurry f = Prod.fst := funext fun p => hf p.1 p.2
  rw [← List.map_uncurry_zip_eq_zipWith, hFst, List.map_fst_zip (le_of_eq hSame)]

theorem zipWith_eq_right {f : Limb w → Limb w → Limb w} (hf : ∀ x y, f x y = y)
    (hSame : xs.length = ys.length) : List.zipWith f xs ys = ys := by
  have hSnd : Function.uncurry f = Prod.snd := funext fun p => hf p.1 p.2
  rw [← List.map_uncurry_zip_eq_zipWith, hSnd, List.map_snd_zip (le_of_eq hSame.symm)]

theorem copyIf_set (hSame : xs.length = ys.length) : copyIf xs ys Mask.set = .ok ys := by
  rw [copyIf, require_pos hSame, ok_bind, zipWith_eq_right Mask.select_set hSame]
  rfl

theorem copyIf_unset (hSame : xs.length = ys.length) : copyIf xs ys Mask.unset = .ok xs := by
  rw [copyIf, require_pos hSame, ok_bind, zipWith_eq_left Mask.select_unset hSame]
  rfl

/-- All bits in which two limbs differ are flipped in both. -/
theorem swapIf_set (hSame : xs.length = ys.length) : swapIf xs ys Mask.set = .ok (ys, xs) := by
  have hFirst : ∀ x y : Limb w, x ^^^ maskedDifference (BitVec.allOnes w.bits) x y = y := by
    intro x y
    rw [maskedDifference, BitVec.and_allOnes, ← BitVec.xor_assoc, BitVec.xor_self,
      BitVec.zero_xor]
  have hSecond : ∀ x y : Limb w, y ^^^ maskedDifference (BitVec.allOnes w.bits) x y = x := by
    intro x y
    rw [maskedDifference, BitVec.and_allOnes, BitVec.xor_comm x y, ← BitVec.xor_assoc,
      BitVec.xor_self, BitVec.zero_xor]
  rw [swapIf, require_pos hSame, ok_bind, Mask.select_ones_set]
  simp only [zipWith_eq_right hFirst hSame, zipWith_eq_left hSecond hSame]
  rfl

theorem swapIf_unset (hSame : xs.length = ys.length) :
    swapIf xs ys Mask.unset = .ok (xs, ys) := by
  have hFirst : ∀ x y : Limb w, x ^^^ maskedDifference 0 x y = x := by
    intro x y
    simp [maskedDifference]
  have hSecond : ∀ x y : Limb w, y ^^^ maskedDifference 0 x y = y := by
    intro x y
    simp [maskedDifference]
  rw [swapIf, require_pos hSame, ok_bind, Mask.select_unset]
  simp only [zipWith_eq_left hFirst hSame, zipWith_eq_right hSecond hSame]
  rfl

-- ---------------------------------------------------------------------------
-- All conditional operations
-- ---------------------------------------------------------------------------

/-- **Conditional operations branch.** For every implementation of the primitives, every mask that can
be made and any two arrays of equal length: if the mask is set, the conditional sum and difference
answer with the carry and the limbs of the sum and the difference, whatever result those are written
to, the copy leaves the second array, and the exchange each array in place of the other. If it is
not set, all four leave every limb as it was, and no carry leaves a chain. -/
theorem conditionals_branch (impl : Implementation w) {xs ys : Limbs w} {cond : Mask w}
    (hCond : cond.Formed) (hSame : xs.length = ys.length) :
    (cond = Mask.set →
      (∃ carry sum, addSameIf impl.alu xs ys cond = .ok ⟨carry, sum⟩ ∧
        sum.length = xs.length ∧
        ∀ result : Limbs w, xs.length ≤ result.length →
          addSameInto impl.alu result xs ys = .ok ⟨carry, sum ++ result.drop xs.length⟩) ∧
      (∃ borrow difference, subSameIf impl.alu xs ys cond = .ok ⟨borrow, difference⟩ ∧
        difference.length = xs.length ∧
        ∀ result : Limbs w, xs.length ≤ result.length →
          subSameInto impl.alu result xs ys
            = .ok ⟨borrow, difference ++ result.drop xs.length⟩) ∧
      copyIf xs ys cond = .ok ys ∧ swapIf xs ys cond = .ok (ys, xs)) ∧
    (cond ≠ Mask.set →
      addSameIf impl.alu xs ys cond = .ok ⟨0, xs⟩ ∧
      subSameIf impl.alu xs ys cond = .ok ⟨0, xs⟩ ∧
      copyIf xs ys cond = .ok xs ∧ swapIf xs ys cond = .ok (xs, ys)) := by
  have hAlu := impl.lawful
  refine ⟨?_, ?_⟩
  · rintro rfl
    have hSum := answers_into ((addSameIf_decided hAlu xs ys Mask.set).answers hSame)
      (fun _ => length_addSame) (fun _ => addSameInto_eq_onto impl.alu ys)
    have hDifference := answers_into ((subSameIf_decided hAlu xs ys Mask.set).answers hSame)
      (fun _ => length_subSame) (fun _ => subSameInto_eq_onto impl.alu ys)
    exact ⟨hSum, hDifference, copyIf_set hSame, swapIf_set hSame⟩
  · intro hUnset
    rcases hCond.set_or_unset with rfl | rfl
    · exact absurd rfl hUnset
    · exact ⟨addSameIf_unset hAlu hSame, subSameIf_unset hAlu hSame, copyIf_unset hSame,
        swapIf_unset hSame⟩

/-- A set mask lets a sum carry through the whole array, as it does into a result with a limb to
spare. The mask with the opposite bits keeps a difference from borrowing, and an exchange from
moving anything. -/
theorem conditionals_branch_rippling :
    (Mask.set : Mask .w32).Formed ∧ (Mask.set : Mask .w32).not.Formed ∧
      (Mask.set : Mask .w32).not ≠ Mask.set ∧
      ([-1, -1] : Limbs .w32).length = ([1, 0] : Limbs .w32).length ∧
      (∃ carry sum,
        addSameIf (Implementation.portable .w32).alu [-1, -1] [1, 0] Mask.set
          = .ok ⟨carry, sum⟩ ∧
        addSameInto (Implementation.portable .w32).alu [5, 6, 7] [-1, -1] [1, 0]
          = .ok ⟨carry, sum ++ [7]⟩) ∧
      swapIf ([-1, -1] : Limbs .w32) [1, 0] Mask.set = .ok ([1, 0], [-1, -1]) ∧
      subSameIf (Implementation.portable .w32).alu [-1, -1] [1, 0] Mask.set.not
        = .ok ⟨0, [-1, -1]⟩ ∧
      swapIf ([-1, -1] : Limbs .w32) [1, 0] Mask.set.not = .ok ([-1, -1], [1, 0]) := by
  have hSet : (Mask.set : Mask .w32).Formed := Mask.formed_set
  have hNot : (Mask.set : Mask .w32).not ≠ Mask.set := by decide
  have hSame : ([-1, -1] : Limbs .w32).length = ([1, 0] : Limbs .w32).length := rfl
  obtain ⟨⟨carry, sum, hAdd, -, hInto⟩, -, -, hSwap⟩ :=
    (conditionals_branch (.portable .w32) hSet hSame).1 rfl
  obtain ⟨-, hSub, -, hKeep⟩ := (conditionals_branch (.portable .w32) hSet.not hSame).2 hNot
  exact ⟨hSet, hSet.not, hNot, hSame, ⟨carry, sum, hAdd, hInto [5, 6, 7] (by decide)⟩, hSwap, hSub,
    hKeep⟩

end Limbs

end LimbArith
