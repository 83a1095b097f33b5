import LimbArith.Kernel.Call
import LimbArith.Proofs.Limbs.Answers
import LimbArith.Proofs.Primitive.Implementation

/-!
# LimbArith — contracts of kernel calls

What a call asks of its caller is about lengths, the distance of a shift, the top
limbs of two operands of a comparison, and conditions that are bits. Nothing else
about the limbs matters: within its contract a call answers, and the checks that
guard its own carries, products and counts never fail.

Main results:

* `Call.Contract` — what each call asks for.
* `Call.run_decided` — that this decides whether it answers.
-/

namespace LimbArith

variable {w : Width} {alu : Alu w}

/-- The limb is zero or one, as a condition has to be. -/
def Limb.IsBit (x : Limb w) : Prop := x = 0 ∨ x = 1

/-- What a call asks of its operands. -/
def Call.Contract : Call (Limbs w) (Limb w) → Prop
  | limbInto _ result x _ => x.length ≤ result.length
  | limbInPlace _ _ _ => True
  | accumulate _ result x _ => x.length ≤ result.length
  | pairInto _ .same result x y => x.length = y.length ∧ x.length ≤ result.length
  | pairInto _ .mixed result x y => y.length ≤ x.length ∧ x.length ≤ result.length
  | pairInPlace _ .same x y => x.length = y.length
  | pairInPlace _ .mixed x y => y.length ≤ x.length
  | pairIf _ x y cond => cond.IsBit ∧ x.length = y.length
  | shiftInto _ result x count => count < w.bits ∧ x.length ≤ result.length
  | shiftInPlace _ _ count => count < w.bits
  | mulInto result x y => x.length + y.length ≤ result.length
  | mulSameInto result x .same => 2 * x.length ≤ result.length
  | mulSameInto result x (.other y) => x.length = y.length ∧ 2 * x.length ≤ result.length
  | squareInto result x => 2 * x.length ≤ result.length
  | copyIf x y cond | swapIf x y cond => cond.IsBit ∧ x.length = y.length
  | negateIf _ cond => cond.IsBit
  | relation _ x y | compareSame x y => x.length = y.length
  | compareNormalized x y => x.getLast? ≠ some 0 ∧ y.getLast? ≠ some 0
  | isZero _ | compareLimb _ _ | significantLen _ | significantLenScan _ => True

/-- A condition is checked before the operation that it is about. -/
theorem Mask.ofLimb_decided {α : Type} {p : Prop} {cond : Limb w} {f : Mask w → Checked α}
    (h : ∀ c, Decided p (f c)) : Decided (cond.IsBit ∧ p) (Mask.ofLimb cond >>= f) := by
  unfold Mask.ofLimb Limb.IsBit
  rw [bind_assoc]
  exact .require_and trivial fun _ => h _

namespace Call

open Limbs

-- ---------------------------------------------------------------------------
-- Families of operations
-- ---------------------------------------------------------------------------

theorem limbInto_decided (hAlu : alu.Lawful) (op : LimbOp) (result x : Limbs w) (y : Limb w) :
    Decided (x.length ≤ result.length) (op.into alu result x y) := by
  cases op with
  | add => exact addLimbInto_decided alu result x y
  | sub => exact subLimbInto_decided alu result x y
  | mul => exact mulLimbInto_decided hAlu result x y

theorem limbInPlace_answers (hAlu : alu.Lawful) (op : LimbOp) (x : Limbs w) (y : Limb w) :
    ∃ s, op.inPlace alu x y = .ok s := by
  cases op with
  | add => exact addLimb_answers alu x y
  | sub => exact subLimb_answers alu x y
  | mul => exact mulLimb_answers hAlu x y

theorem accumulate_decided (hAlu : alu.Lawful) (op : Accumulate) (acc x : Limbs w) (y : Limb w) :
    Decided (x.length ≤ acc.length) (op.into alu acc x y) := by
  cases op with
  | mulAdd => exact mulAddLimb_decided hAlu acc x y
  | mulSub => exact mulSubLimb_decided hAlu acc x y

theorem pairIf_decided (hAlu : alu.Lawful) (op : Additive) (x y : Limbs w) (cond : Mask w) :
    Decided (x.length = y.length) (op.conditional alu x y cond) := by
  cases op with
  | add => exact addSameIf_decided hAlu x y cond
  | sub => exact subSameIf_decided hAlu x y cond

theorem shiftInto_decided (direction : Direction) (result x : Limbs w) (count : ℕ) :
    Decided (count < w.bits ∧ x.length ≤ result.length) (direction.into result x count) := by
  cases direction with
  | left => exact shiftLeftInto_decided result x count
  | right => exact shiftRightInto_decided result x count

theorem shiftInPlace_decided (direction : Direction) (x : Limbs w) (count : ℕ) :
    Decided (count < w.bits) (direction.inPlace x count) := by
  cases direction with
  | left => exact shiftLeft_decided x count
  | right => exact shiftRight_decided x count

theorem relation_decided (hAlu : alu.Lawful) (r : Relation) (x y : Limbs w) :
    Decided (x.length = y.length) (r.decide alu x y) := by
  cases r with
  | eq => exact eq_decided hAlu x y
  | lt => exact lt_decided hAlu x y
  | le => exact le_decided hAlu x y
  | gt => exact (lt_decided hAlu y x).congr eq_comm
  | ge => exact (le_decided hAlu y x).congr eq_comm

-- ---------------------------------------------------------------------------
-- All calls
-- ---------------------------------------------------------------------------

/-- An operation on its own contract, and its answer put into that of the call. -/
theorem decided_map {α β : Type} {p : Prop} {x : Checked α} (h : Decided p x) (f : α → β) :
    Decided p (x >>= fun a => pure (f a)) := h.bind fun _ _ => ⟨_, rfl⟩

theorem decided (hAlu : alu.Lawful) (call : Call (Limbs w) (Limb w)) :
    Decided call.Contract (call.run alu) := by
  cases call with
  | limbInto op result x y => exact decided_map (limbInto_decided hAlu op result x y) _
  | limbInPlace op x y => exact decided_map (.always (limbInPlace_answers hAlu op x y)) _
  | accumulate op result x y => exact decided_map (accumulate_decided hAlu op result x y) _
  | pairInto op lengths result x y =>
    cases lengths with
    | same =>
      cases op with
      | add => exact decided_map (addSameInto_decided hAlu result x y) _
      | sub => exact decided_map (subSameInto_decided hAlu result x y) _
    | mixed =>
      cases op with
      | add => exact decided_map (addInto_decided hAlu result x y) _
      | sub => exact decided_map (subInto_decided hAlu result x y) _
  | pairInPlace op lengths x y =>
    cases lengths with
    | same =>
      cases op with
      | add => exact decided_map (addSameIf_decided hAlu x y Mask.set) _
      | sub => exact decided_map (subSameIf_decided hAlu x y Mask.set) _
    | mixed =>
      cases op with
      | add => exact decided_map (add_decided hAlu x y) _
      | sub => exact decided_map (sub_decided hAlu x y) _
  | pairIf op x y cond =>
    exact Mask.ofLimb_decided fun c => decided_map (pairIf_decided hAlu op x y c) _
  | shiftInto direction result x count =>
    exact decided_map (shiftInto_decided direction result x count) _
  | shiftInPlace direction x count => exact decided_map (shiftInPlace_decided direction x count) _
  | mulInto result x y => exact decided_map (mulInto_decided hAlu result x y) _
  | mulSameInto result x y =>
    cases y with
    | same => exact decided_map (squareInto_decided hAlu result x) _
    | other y => exact decided_map (mulSameInto_decided hAlu result x y) _
  | squareInto result x => exact decided_map (squareInto_decided hAlu result x) _
  | copyIf x y cond => exact Mask.ofLimb_decided fun c => decided_map (copyIf_decided x y c) _
  | swapIf x y cond => exact Mask.ofLimb_decided fun c => decided_map (swapIf_decided x y c) _
  | negateIf x cond =>
    have hNegate : Decided (cond.IsBit ∧ True) (run alu (.negateIf x cond)) :=
      Mask.ofLimb_decided fun c => decided_map (.always (negateIf_answers alu x c)) _
    exact hNegate.congr (and_iff_left trivial).symm
  | relation r x y => exact decided_map (relation_decided hAlu r x y) _
  | isZero x => exact decided_map (.always ⟨_, isZero_exact hAlu x⟩) _
  | compareSame x y => exact decided_map (compareSame_decided hAlu x y) _
  | compareLimb x y => exact decided_map (.always ⟨_, compareLimb_exact hAlu x y⟩) _
  | compareNormalized x y => exact decided_map (compareNormalized_decided hAlu x y) _
  | significantLen x => exact .always ⟨_, rfl⟩
  | significantLenScan x => exact decided_map (.always (significantLenScan_answers hAlu x)) _

/-- **Contracts alone decide whether the kernel answers.** For every implementation of the
primitives and every call with any operands, the call answers exactly if its contract holds; and
when it does not answer, the fault is one of its caller, never a check of its own carries, products
or counts. -/
theorem run_decided (impl : Implementation w) (call : Call (Limbs w) (Limb w)) :
    ((∃ answer, call.run impl.alu = .ok answer) ↔ call.Contract) ∧
      ∀ fault, call.run impl.alu = .error fault → fault.OfContract :=
  ⟨(decided impl.lawful call).answers_iff, fun _ => (decided impl.lawful call).ofContract⟩

/-- The largest limbs accumulate over a result of their length, and a shorter result is refused,
even by zeros. -/
theorem run_decided_extreme :
    (∃ answer, (accumulate .mulAdd [-1, -1] [-1, -1] (-1)).run
        (Implementation.portable .w32).alu = .ok answer) ∧
      (accumulate .mulAdd [0] [0, 0] 0).run (Implementation.portable .w32).alu
        = .error .resultTooShort ∧
      Fault.OfContract .resultTooShort := by
  have hShort : (accumulate .mulAdd [0] [0, 0] 0).run (Implementation.portable .w32).alu
      = .error .resultTooShort := rfl
  have hExtreme : (accumulate .mulAdd [-1, -1] [-1, -1] (-1 : Limb .w32)).Contract := le_refl _
  exact ⟨(run_decided (.portable .w32) _).1.mpr hExtreme, hShort,
    (run_decided (.portable .w32) _).2 _ hShort⟩

end Call

end LimbArith
