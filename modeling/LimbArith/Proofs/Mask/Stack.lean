import LimbArith.Mask.Stack
import LimbArith.Proofs.Mask.Formula
import LimbArith.Proofs.Primitive.Implementation

/-!
# LimbArith — programs over masks compute truth values

A program over a stack of masks never looks at a mask as a truth value: all it
does is bitwise. The same program can be run over a stack of truth values, with
logic in place of bits and numbers in place of limbs. Both runs answer alike at
every step, because a step takes the masks of truth values to the masks of what
logic makes of them. What another library makes of a byte is its own affair; all
that counts is the byte that it gives out.

Main results:

* `Answer`, `applyTruth`, `runTruth` — the same programs over truth values.
* `apply_truth`, `run_truth` — one step and a whole program over masks.
* `Step.FromBit`, `runTruth_ne_fault` — when no step faults.
* `masks_represent` — formulas and programs.
-/

namespace LimbArith.MaskStack

variable {w : Width} {alu : Alu w}

-- ---------------------------------------------------------------------------
-- Programs over truth values
-- ---------------------------------------------------------------------------

/-- What a step over truth values answers. -/
inductive Answer (w : Width) where
  /-- The new top of the stack. -/
  | top (b : Bool)
  | limb (x : Limb w)
  | size (n : Word)
  /-- The truth value on the top, as a bit. -/
  | bit (b : Bool)
  /-- The truth value on the top, as the byte of a choice. -/
  | choice (b : Bool)
  deriving DecidableEq

/-- The answer of a step over masks, where a truth value is a mask, a bit or a byte. -/
def Answer.shown : Answer w → Reply w
  | top b => .top (.ofBool b)
  | limb x => .limb x
  | size n => .size n
  | bit b => .bit (if b then 1 else 0)
  | choice b => .choice (if b then 1 else 0)

/-- A stack of truth values that got a new top. -/
def pushTruth (b : Bool) (rest : List Bool) : Except StepError (Answer w × List Bool) :=
  .ok (.top b, b :: rest)

/-- Pushes the truth value of a number that is one or zero. -/
def pushNumber (n : ℕ) (rest : List Bool) : Except StepError (Answer w × List Bool) :=
  if n = 1 then pushTruth true rest
  else if n = 0 then pushTruth false rest
  else .error (.fault .notABit)

/-- The effect of a step on truth values: its answer and the new stack. -/
def applyTruth (type : ChoiceType) : Step w → List Bool → Except StepError (Answer w × List Bool)
  | .ofLimb x, stack => pushNumber x.toNat stack
  | .ofChoice x, stack => do
    let choice ← (type.ofByte x).mapError .fault
    pushNumber (type.toByte choice).toNat stack
  | .unset, stack => pushTruth false stack
  | .relation r x y, stack => pushTruth (decide (r.Holds x.toNat y.toNat)) stack
  | .not, b :: rest => pushTruth (!b) rest
  | .wipe, _ :: rest => pushTruth false rest
  | .and, c :: b :: rest => pushTruth (b && c) rest
  | .or, c :: b :: rest => pushTruth (b || c) rest
  | .select x y, b :: rest => .ok (.limb (if b then y else x), b :: rest)
  | .selectSize m n, b :: rest => .ok (.size (if b then n else m), b :: rest)
  | .bit, b :: rest => .ok (.bit b, b :: rest)
  | .toChoice, b :: rest => .ok (.choice b, b :: rest)
  | _, _ => .error .underflow

/-- Runs a program over truth values; a step that fails changes nothing. -/
def runTruth (type : ChoiceType) :
    List (Step w) → List Bool → List (Except StepError (Answer w))
  | [], _ => []
  | step :: steps, stack =>
    match applyTruth type step stack with
    | .ok (answer, next) => .ok answer :: runTruth type steps next
    | .error e => .error e :: runTruth type steps stack

-- ---------------------------------------------------------------------------
-- Making masks
-- ---------------------------------------------------------------------------

/-- The mask of a limb stands for the number that the limb is. -/
theorem pushChecked_ofLimb (x : Limb w) (stack : List Bool) :
    pushChecked (Mask.ofLimb x) (stack.map Mask.ofBool)
      = Prod.map Answer.shown (List.map Mask.ofBool) <$> pushNumber x.toNat stack := by
  rw [pushNumber]
  by_cases hOne : x.toNat = 1
  · have hx : x = 1 := BitVec.eq_of_toNat_eq (hOne.trans toNat_one.symm)
    rw [if_pos hOne, hx, Mask.ofLimb_one]
    rfl
  · by_cases hZero : x.toNat = 0
    · have hx : x = 0 := BitVec.eq_of_toNat_eq (hZero.trans toNat_zero.symm)
      rw [if_neg hOne, if_pos hZero, hx, Mask.ofLimb_zero]
      rfl
    · have hNone : ¬ (x = 0 ∨ x = 1) := by
        rintro (rfl | rfl)
        · exact hZero toNat_zero
        · exact hOne toNat_one
      rw [if_neg hOne, if_neg hZero, Mask.ofLimb, require_neg hNone]
      rfl

/-- A byte of a choice fits a limb, so the mask stands for the number that the byte is. -/
theorem pushChecked_ofChoice (type : ChoiceType) (choice : type.Choice) (stack : List Bool) :
    pushChecked (Mask.ofChoice type choice : Checked (Mask w)) (stack.map Mask.ofBool)
      = Prod.map Answer.shown (List.map Mask.ofBool)
          <$> pushNumber (type.toByte choice).toNat stack := by
  rw [Mask.ofChoice, pushChecked_ofLimb, BitVec.toNat_setWidth_of_le (by cases w <;> decide)]

/-- The step makes no mask from anything but a bit. -/
def Step.FromBit : Step w → Prop
  | .ofLimb x => x = 0 ∨ x = 1
  | .ofChoice x => x = 0 ∨ x = 1
  | _ => True

theorem pushNumber_ne_fault {n : ℕ} (hn : n = 0 ∨ n = 1) (stack : List Bool) (fault : Fault) :
    (pushNumber n stack : Except StepError (Answer w × List Bool)) ≠ .error (.fault fault) := by
  rcases hn with rfl | rfl <;> rintro ⟨⟩

/-- Only what is no bit makes a step fault. -/
theorem applyTruth_ne_fault {type : ChoiceType} (hType : type.Faithful) {step : Step w}
    (hBit : step.FromBit) (stack : List Bool) (fault : Fault) :
    applyTruth type step stack ≠ .error (.fault fault) := by
  fun_cases applyTruth type step stack with
  | case1 x =>
    refine pushNumber_ne_fault (hBit.imp ?_ ?_) stack fault
    · rintro rfl
      exact toNat_zero
    · rintro rfl
      exact toNat_one
  | case2 x =>
    have hMade : ∃ b : Bool, x = if b then 1 else 0 :=
      hBit.elim (fun h => ⟨false, h⟩) (fun h => ⟨true, h⟩)
    obtain ⟨b, rfl⟩ := hMade
    obtain ⟨choice, hChoice, hByte⟩ := hType b
    rw [hChoice]
    refine pushNumber_ne_fault (n := (type.toByte choice).toNat) ?_ stack fault
    rw [hByte]
    cases b with
    | false => exact .inl rfl
    | true => exact .inr rfl
  | _ => rintro ⟨⟩

-- ---------------------------------------------------------------------------
-- Steps
-- ---------------------------------------------------------------------------

/-- A step takes the masks of truth values to the masks of what logic makes of them, and answers
for them. -/
theorem apply_truth (h : alu.Lawful) {type : ChoiceType} (hType : type.Faithful) (step : Step w)
    (stack : List Bool) :
    apply alu type step (stack.map Mask.ofBool)
      = Prod.map Answer.shown (List.map Mask.ofBool) <$> applyTruth type step stack := by
  cases step with
  | ofLimb x => exact pushChecked_ofLimb x stack
  | ofChoice x =>
    rw [apply, applyTruth]
    cases type.ofByte x with
    | error fault => rfl
    | ok choice => exact pushChecked_ofChoice type choice stack
  | unset => rfl
  | relation r x y =>
    rw [apply, h.decide_exact, Mask.decide_eq_ofBool]
    rfl
  | not =>
    match stack with
    | [] => rfl
    | b :: rest =>
      rw [List.map_cons, apply, Mask.not_ofBool]
      rfl
  | wipe =>
    match stack with
    | [] | _ :: _ => rfl
  | and =>
    match stack with
    | [] | [_] => rfl
    | c :: b :: rest =>
      rw [List.map_cons, List.map_cons, apply, Mask.and_ofBool]
      rfl
  | or =>
    match stack with
    | [] | [_] => rfl
    | c :: b :: rest =>
      rw [List.map_cons, List.map_cons, apply, Mask.or_ofBool]
      rfl
  | select x y =>
    match stack with
    | [] => rfl
    | b :: rest =>
      rw [List.map_cons, apply, (Mask.represents_ofBool b).select]
      rfl
  | selectSize m n =>
    match stack with
    | [] => rfl
    | b :: rest =>
      rw [List.map_cons, apply, (Mask.represents_ofBool b).selectWord]
      rfl
  | bit =>
    match stack with
    | [] => rfl
    | b :: rest =>
      rw [List.map_cons, apply, Mask.bit_ofBool]
      rfl
  | toChoice =>
    match stack with
    | [] => rfl
    | b :: rest =>
      obtain ⟨choice, hMade, hByte⟩ := Mask.toChoice_ofBool (w := w) hType b
      rw [List.map_cons, apply, hMade, applyTruth]
      show Except.ok (Reply.choice (type.toByte choice), _) = _
      rw [hByte]
      rfl

-- ---------------------------------------------------------------------------
-- Programs
-- ---------------------------------------------------------------------------

/-- A program over the masks of truth values answers like the one over truth values. -/
theorem run_truth (h : alu.Lawful) {type : ChoiceType} (hType : type.Faithful)
    (steps : List (Step w)) (stack : List Bool) :
    run alu type steps (stack.map Mask.ofBool)
      = (runTruth type steps stack).map (Answer.shown <$> ·) := by
  induction steps generalizing stack with
  | nil => rfl
  | cons step steps ih =>
    rw [run, runTruth, apply_truth h hType]
    cases applyTruth type step stack with
    | ok answer => exact congrArg _ (ih answer.2)
    | error e => exact congrArg _ (ih stack)

/-- A program answers for its first step and goes on from some stack. -/
theorem runTruth_cons (type : ChoiceType) (step : Step w) (steps : List (Step w))
    (stack : List Bool) :
    ∃ next, runTruth type (step :: steps) stack
      = (Prod.fst <$> applyTruth type step stack) :: runTruth type steps next := by
  rw [runTruth]
  cases applyTruth type step stack with
  | ok answer => exact ⟨answer.2, rfl⟩
  | error e => exact ⟨stack, rfl⟩

theorem runTruth_ne_fault {type : ChoiceType} (hType : type.Faithful) {steps : List (Step w)}
    (hBits : ∀ s ∈ steps, s.FromBit) (stack : List Bool) (fault : Fault) :
    .error (.fault fault) ∉ runTruth type steps stack := by
  induction steps generalizing stack with
  | nil => exact List.not_mem_nil
  | cons step steps ih =>
    obtain ⟨next, hRun⟩ := runTruth_cons type step steps stack
    have hStep : applyTruth type step stack ≠ .error (.fault fault) :=
      applyTruth_ne_fault hType (hBits step List.mem_cons_self) stack fault
    have hFirst : .error (.fault fault) ≠ Prod.fst <$> applyTruth type step stack := by
      intro hEq
      rcases hApply : applyTruth type step stack with e | answer <;> rw [hApply] at hEq <;>
        cases hEq
      exact hStep hApply
    have hLater := ih (fun s hs => hBits s (List.mem_cons_of_mem _ hs)) next
    rw [hRun]
    exact List.not_mem_cons_of_ne_of_not_mem hFirst hLater

/-- An answer over masks faults only where the one over truth values does. -/
theorem run_ne_fault (h : alu.Lawful) {type : ChoiceType} (hType : type.Faithful)
    {steps : List (Step w)} (hBits : ∀ s ∈ steps, s.FromBit) (stack : List Bool) (fault : Fault) :
    .error (.fault fault) ∉ run alu type steps (stack.map Mask.ofBool) := by
  rw [run_truth h hType]
  intro hMem
  obtain ⟨answer, hAnswer, hShown⟩ := List.mem_map.mp hMem
  cases answer with
  | ok answer => cases hShown
  | error e =>
    cases hShown
    exact runTruth_ne_fault hType hBits stack fault hAnswer

-- ---------------------------------------------------------------------------
-- Formulas and programs
-- ---------------------------------------------------------------------------

/-- **Masks represent truth values, however they are combined.** The mask of a truth value has every
bit set or none, gives out its bit, and selects by it among limbs and among counts. For every
implementation of the primitives, and for choices that hold the byte that they are made from, a
formula always has a mask, which is that of its truth value. A program answers at each step as it
does over truth values, whose masks it keeps on its stack, and no step faults if masks and choices
are made from bits only. -/
theorem masks_represent (impl : Implementation w) {type : ChoiceType} (hType : type.Faithful) :
    (∀ b, (Mask.ofBool b : Mask w).Represents b) ∧
    (∀ f : Formula w, f.mask impl.alu type = .ok (Mask.ofBool f.truth)) ∧
    ∀ steps : List (Step w),
      run impl.alu type steps [] = (runTruth type steps []).map (Answer.shown <$> ·) ∧
      ((∀ s ∈ steps, s.FromBit) → ∀ fault, .error (.fault fault) ∉ run impl.alu type steps []) := by
  refine ⟨Mask.represents_ofBool, Formula.mask_exact impl.lawful hType, ?_⟩
  intro steps
  exact ⟨run_truth impl.lawful hType steps [],
    fun hBits => run_ne_fault impl.lawful hType hBits []⟩

/-- Compares a limb with the largest one, combines that with a bit and a choice, and ends with a
selection and a conversion. -/
def comparing : List (Step .w32) :=
  [.relation .ge 0 (-1), .ofLimb 1, .and, .ofChoice 1, .or, .select 7 9, .toChoice]

/-- A formula with all connectives and both conversions, whose comparison takes the largest limb as
the number that it is, and a program with both conversions. -/
theorem masks_represent_mixed :
    ChoiceType.bytes.Faithful ∧
      (∃ c : Mask .w32,
        (Formula.and (.not (.relation .lt (-1) 1))
          (.viaChoice (.or (.ofBit false) (.ofChoice true)))).mask
            (Implementation.portable .w32).alu .bytes = .ok c ∧
        c.select 7 9 = 9) ∧
      (∀ s ∈ comparing, s.FromBit) ∧
      run (Implementation.portable .w32).alu .bytes comparing []
        = [.ok (.top .unset), .ok (.top .set), .ok (.top .unset), .ok (.top .set), .ok (.top .set),
            .ok (.limb 9), .ok (.choice 1)] ∧
      .error (.fault .notABit)
        ∉ run (Implementation.portable .w32).alu .bytes comparing [] := by
  have hBits : ∀ s ∈ comparing, s.FromBit := by simp [comparing, Step.FromBit]
  obtain ⟨hRepresents, hFormula, hProgram⟩ :=
    masks_represent (.portable .w32) ChoiceType.bytes_faithful
  obtain ⟨hRun, hAnswers⟩ := hProgram comparing
  exact ⟨ChoiceType.bytes_faithful, ⟨_, hFormula _, (hRepresents _).select 7 9⟩, hBits,
    hRun.trans rfl, hAnswers hBits .notABit⟩

end LimbArith.MaskStack
