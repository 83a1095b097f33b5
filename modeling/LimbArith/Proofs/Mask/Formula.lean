import LimbArith.Mask.Choice
import LimbArith.Proofs.Primitive.Comparison

/-!
# LimbArith — formulas of masks

A mask stands for a truth value in every use: by its bits, by the bit that it
gives out, by what it selects among limbs and among counts, and by the choice of
another library that it is converted to. `Mask.Represents` says all of it at once,
and exactly one mask represents a truth value.

Masks are made from bits, from choices and by comparisons, and combined by logic.
A formula records how. Whatever it is, its mask represents its truth value, where
a comparison is that of numbers, and making the mask is never refused.

Main results:

* `Mask.Represents`, `Mask.represents_ofBool` — what a mask stands for.
* `ChoiceType.Faithful` — what a conversion relies on.
* `Formula.mask`, `Formula.truth` — the mask of a formula, and its truth value.
* `Formula.mask_exact` — the one represents the other.
-/

namespace LimbArith

variable {w : Width} {alu : Alu w}

-- ---------------------------------------------------------------------------
-- Truth values
-- ---------------------------------------------------------------------------

namespace Mask

/-- The mask of a truth value. -/
def ofBool (b : Bool) : Mask w := Mask.decide (b = true)

theorem not_ofBool (b : Bool) : (ofBool b : Mask w).not = ofBool !b :=
  not_decide.trans (decide_congr (by simp))

theorem and_ofBool (b c : Bool) : (ofBool b : Mask w).and (ofBool c) = ofBool (b && c) :=
  and_decide.trans (decide_congr (by simp))

theorem or_ofBool (b c : Bool) : (ofBool b : Mask w).or (ofBool c) = ofBool (b || c) :=
  or_decide.trans (decide_congr (by simp))

theorem decide_eq_ofBool (p : Prop) [Decidable p] :
    (Mask.decide p : Mask w) = ofBool (Decidable.decide p) :=
  decide_congr (by simp)

theorem ofLimb_bool (b : Bool) : ofLimb (if b then 1 else 0 : Limb w) = .ok (ofBool b) := ofLimb_ite

theorem bit_ofBool (b : Bool) : (ofBool b : Mask w).bit = if b then 1 else 0 := by
  cases b with
  | false => exact bit_unset
  | true => exact bit_set

theorem selectWord_ofBool (b : Bool) (m n : Word) :
    (ofBool b : Mask w).selectWord m n = if b then n else m := by
  apply BitVec.eq_of_toNat_eq
  rw [toNat_selectWord, ofBool, selectSize_decide]
  cases b <;> rfl

end Mask

-- ---------------------------------------------------------------------------
-- Choices
-- ---------------------------------------------------------------------------

/-- A choice is made from a byte that is zero or one, and holds it. -/
def ChoiceType.Faithful (type : ChoiceType) : Prop :=
  ∀ b : Bool, ∃ choice, type.ofByte (if b then 1 else 0) = .ok choice ∧
    type.toByte choice = if b then 1 else 0

theorem ChoiceType.bytes_faithful : bytes.Faithful := by
  intro b
  cases b <;> exact ⟨_, rfl, rfl⟩

namespace Mask

variable {type : ChoiceType}

theorem ofChoice_eq {choice : type.Choice} {b : Bool}
    (hByte : type.toByte choice = if b then 1 else 0) :
    ofChoice type choice = .ok (ofBool b : Mask w) := by
  rw [ofChoice, hByte, ← ofLimb_bool]
  cases b <;> cases w <;> rfl

theorem toChoice_ofBool (hType : type.Faithful) (b : Bool) :
    ∃ choice, (ofBool b : Mask w).toChoice type = .ok choice ∧
      type.toByte choice = if b then 1 else 0 := by
  have hByte : (ofBool b : Mask w).bit.setWidth 8 = if b then 1 else 0 := by
    rw [bit_ofBool]
    cases b <;> cases w <;> rfl
  rw [toChoice, hByte]
  exact hType b

-- ---------------------------------------------------------------------------
-- Every use of a mask
-- ---------------------------------------------------------------------------

/-- The mask stands for the truth value in every use that can be made of it. -/
structure Represents (c : Mask w) (b : Bool) : Prop where
  bits : c.bits = if b then BitVec.allOnes w.bits else 0
  bit : c.bit = if b then 1 else 0
  select : ∀ x y, c.select x y = if b then y else x
  selectSize : ∀ m n, c.selectSize m n = if b then n else m
  selectWord : ∀ m n, c.selectWord m n = if b then n else m
  toChoice : ∀ type : ChoiceType, type.Faithful →
    ∃ choice, c.toChoice type = .ok choice ∧ type.toByte choice = if b then 1 else 0

theorem represents_ofBool (b : Bool) : (ofBool b : Mask w).Represents b where
  bits := by
    cases b with
    | false => rfl
    | true => exact BitVec.neg_one_eq_allOnes
  bit := bit_ofBool b
  select := select_decide
  selectSize := selectSize_decide
  selectWord := selectWord_ofBool b
  toChoice _ hType := toChoice_ofBool hType b

end Mask

-- ---------------------------------------------------------------------------
-- Formulas
-- ---------------------------------------------------------------------------

/-- How a mask is made. -/
inductive Formula (w : Width) where
  /-- From a limb that is one or zero. -/
  | ofBit (b : Bool)
  /-- From a choice that is made from a byte that is one or zero. -/
  | ofChoice (b : Bool)
  /-- The mask that there is without making one. -/
  | default
  /-- By a comparison of two limbs. -/
  | relation (r : LimbRelation) (x y : Limb w)
  /-- By a conversion to a choice and back. -/
  | viaChoice (f : Formula w)
  | not (f : Formula w)
  | and (f g : Formula w)
  | or (f g : Formula w)

namespace Formula

/-- The mask of a formula. -/
def mask (alu : Alu w) (type : ChoiceType) : Formula w → Checked (Mask w)
  | ofBit b => Mask.ofLimb (if b then 1 else 0)
  | ofChoice b => do Mask.ofChoice type (← type.ofByte (if b then 1 else 0))
  | default => pure Inhabited.default
  | relation r x y => r.decide alu x y
  | viaChoice f => do Mask.ofChoice type (← (← f.mask alu type).toChoice type)
  | not f => do pure (← f.mask alu type).not
  | and f g => do pure ((← f.mask alu type).and (← g.mask alu type))
  | or f g => do pure ((← f.mask alu type).or (← g.mask alu type))

/-- The truth value of a formula, with numbers compared in place of limbs. -/
def truth : Formula w → Bool
  | ofBit b => b
  | ofChoice b => b
  | default => false
  | relation r x y => decide (r.Holds x.toNat y.toNat)
  | viaChoice f => f.truth
  | not f => !f.truth
  | and f g => f.truth && g.truth
  | or f g => f.truth || g.truth

/-- The mask of a formula is that of its truth value, and never refused. -/
theorem mask_exact (h : alu.Lawful) {type : ChoiceType} (hType : type.Faithful) (f : Formula w) :
    f.mask alu type = .ok (Mask.ofBool f.truth) := by
  induction f with
  | ofBit b => exact Mask.ofLimb_bool b
  | ofChoice b =>
    obtain ⟨choice, hMade, hByte⟩ := hType b
    rw [mask, hMade, ok_bind, Mask.ofChoice_eq hByte, truth]
  | default => rfl
  | relation r x y => rw [mask, h.decide_exact, Mask.decide_eq_ofBool, truth]
  | viaChoice f ih =>
    obtain ⟨choice, hMade, hByte⟩ := Mask.toChoice_ofBool hType f.truth
    rw [mask, ih, ok_bind, hMade, ok_bind, Mask.ofChoice_eq hByte, truth]
  | not f ih =>
    rw [mask, ih, ok_bind, Mask.not_ofBool]
    rfl
  | and f g ihf ihg =>
    rw [mask, ihf, ok_bind, ihg, ok_bind, Mask.and_ofBool]
    rfl
  | or f g ihf ihg =>
    rw [mask, ihf, ok_bind, ihg, ok_bind, Mask.or_ofBool]
    rfl

end Formula

end LimbArith
