import Mathlib.Tactic.Common
import LimbArith.Storage.Traced

/-!
# LimbArith — sequences of traced operations

Events are only ever appended, so traced operations compose like any other
effect; and an operation whose first part is known can be replaced by the rest.

Main results:

* `LawfulMonad Traced` — sequencing is associative, with `pure` as its unit.
* `bind_congr_of_ok` — what comes after an operation matters only for its answers.
* `IsCheck` — operations that only check.
* `silent` — an outcome that nothing was reported on the way to.
-/

namespace LimbArith.Traced

variable {α β : Type}

theorem ext {x y : Traced α} (hEvents : x.events = y.events) (hOutcome : x.outcome = y.outcome) :
    x = y := by
  cases x
  cases y
  simp only at hEvents hOutcome
  rw [hEvents, hOutcome]

theorem bind_congr_of_ok {x : Traced α} {f g : α → Traced β}
    (h : ∀ a, x.outcome = .ok a → f a = g a) : x >>= f = x >>= g := by
  cases hOutcome : x.outcome with
  | ok a => rw [bind_of_ok hOutcome, bind_of_ok hOutcome, h a hOutcome]
  | error e => rw [bind_of_error hOutcome, bind_of_error hOutcome]

theorem bind_pure_eq (x : Traced α) : x >>= pure = x := by
  cases h : x.outcome with
  | ok a =>
    rw [bind_of_ok h]
    exact ext (List.append_nil _) h.symm
  | error e =>
    rw [bind_of_error h]
    exact ext rfl h.symm

theorem bind_assoc_eq {γ : Type} (x : Traced α) (f : α → Traced β) (g : β → Traced γ) :
    x >>= f >>= g = x >>= fun a => f a >>= g := by
  cases h : x.outcome with
  | ok a =>
    rw [bind_of_ok h, bind_of_ok h]
    cases hNext : (f a).outcome with
    | ok b =>
      rw [bind_of_ok (a := b) rfl, bind_of_ok hNext]
      exact ext (List.append_assoc ..) rfl
    | error e => rw [bind_of_error (e := e) rfl, bind_of_error hNext]
  -- after a failure neither of the others runs
  | error e => rw [bind_of_error h, bind_of_error h, bind_of_error (e := e) rfl]

instance : LawfulMonad Traced :=
  LawfulMonad.mk' Traced bind_pure_eq (fun _ _ => rfl) bind_assoc_eq

-- ---------------------------------------------------------------------------
-- Checks
-- ---------------------------------------------------------------------------

theorem liftM_ok (a : α) : (liftM (.ok a : Checked α) : Traced α) = pure a := rfl

theorem liftM_bind_congr {c : Checked α} {f g : α → Traced β} (h : ∀ a, c = .ok a → f a = g a) :
    (liftM c >>= f : Traced β) = liftM c >>= g := by
  refine bind_congr_of_ok fun a ha => h a ?_
  cases c with
  | ok b => exact congrArg Except.ok (Except.ok.inj ha)
  | error e => cases ha

/-- The operation is no more than a check. -/
def IsCheck (x : Traced α) : Prop := ∃ c : Checked α, x = liftM c

theorem isCheck_pure (a : α) : (pure a : Traced α).IsCheck := ⟨.ok a, rfl⟩

theorem isCheck_liftM (c : Checked α) : (liftM c : Traced α).IsCheck := ⟨c, rfl⟩

theorem IsCheck.bind {x : Traced α} (hx : x.IsCheck) {f : α → Traced β} (hf : ∀ a, (f a).IsCheck) :
    (x >>= f).IsCheck := by
  obtain ⟨c, rfl⟩ := hx
  cases c with
  | ok a => exact hf a
  | error e => exact ⟨.error e, rfl⟩

-- ---------------------------------------------------------------------------
-- Silent operations
-- ---------------------------------------------------------------------------

/-- An outcome without events. -/
def silent (x : Except Failure α) : Traced α := ⟨[], x⟩

instance : MonadLift Checked (Except Failure) := ⟨Except.mapError .fault⟩

theorem liftM_bind_eq_ok_iff {c : Checked α} {f : α → Except Failure β} {b : β} :
    (liftM c >>= f : Except Failure β) = .ok b ↔ ∃ a, c = .ok a ∧ f a = .ok b := by
  cases c with
  | ok a => exact ⟨fun h => ⟨a, rfl, h⟩, fun ⟨_, ha, h⟩ => Except.ok.inj ha ▸ h⟩
  | error e => exact ⟨nofun, nofun⟩

theorem liftM_bind_of_ok {c : Checked α} {a : α} (h : c = .ok a) (f : α → Except Failure β) :
    (liftM c >>= f : Except Failure β) = f a := by
  rw [h]
  rfl

/-- A failure after checks is a fault, if it is one after all of them. -/
theorem fault_of_liftM_bind {c : Checked α} {f : α → Except Failure β} {e : Failure}
    (hError : (liftM c >>= f : Except Failure β) = .error e)
    (h : ∀ a, f a = .error e → ∃ fault, e = .fault fault) : ∃ fault, e = .fault fault := by
  cases c with
  | ok a => exact h a hError
  | error fault => exact ⟨fault, (Except.error.inj hError).symm⟩

theorem silent_bind (x : Except Failure α) (f : α → Except Failure β) :
    silent (x >>= f) = silent x >>= fun a => silent (f a) := by
  cases x <;> rfl

theorem silent_liftM (c : Checked α) : silent (liftM c : Except Failure α) = liftM c := by
  cases c <;> rfl

theorem silent_pure (a : α) : silent (pure a) = pure a := rfl

end LimbArith.Traced
