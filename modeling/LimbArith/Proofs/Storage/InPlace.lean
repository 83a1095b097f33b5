import LimbArith.Proofs.Storage.Traced
import LimbArith.Storage.InPlace

/-!
# LimbArith — operations that happen completely or not at all

An operation in place leaves whatever it has made of its state when it fails. One
that is equal to a `settle` fails only before its first change: it leaves the
state of its answer, or the state from before.

Main results:

* `LawfulMonad InPlace` — sequencing is associative, with `pure` as its unit.
* `settle` — all or nothing, and when a sequence is.
-/

namespace LimbArith.InPlace

variable {σ α β : Type}

theorem bind_of_ok {x : InPlace σ α} {s t : σ} {events : List Event} {a : α}
    (h : x s = (⟨events, .ok a⟩, t)) (f : α → InPlace σ β) :
    (x >>= f) s = (⟨events ++ (f a t).1.events, (f a t).1.outcome⟩, (f a t).2) := by
  change InPlace.bind x f s = _
  rw [InPlace.bind, h]

theorem bind_of_error {x : InPlace σ α} {s t : σ} {events : List Event} {e : Failure}
    (h : x s = (⟨events, .error e⟩, t)) (f : α → InPlace σ β) :
    (x >>= f) s = (⟨events, .error e⟩, t) := by
  change InPlace.bind x f s = _
  rw [InPlace.bind, h]

theorem pure_bind_eq (a : α) (f : α → InPlace σ β) : pure a >>= f = f a := rfl

theorem bind_pure_eq (x : InPlace σ α) : x >>= pure = x := by
  funext s
  rcases hx : x s with ⟨⟨events, outcome⟩, t⟩
  cases outcome with
  | ok a =>
    rw [bind_of_ok hx]
    exact Prod.ext (Traced.ext (List.append_nil events) rfl) rfl
  | error e => rw [bind_of_error hx]

theorem bind_assoc_eq {γ : Type} (x : InPlace σ α) (f : α → InPlace σ β) (g : β → InPlace σ γ) :
    x >>= f >>= g = x >>= fun a => f a >>= g := by
  funext s
  rcases hx : x s with ⟨⟨events, outcome⟩, t⟩
  cases outcome with
  | ok a =>
    rw [bind_of_ok hx]
    have hFirst := bind_of_ok hx f
    rcases hf : f a t with ⟨⟨more, outcome⟩, u⟩
    rw [hf] at hFirst
    cases outcome with
    | ok b =>
      rw [bind_of_ok hFirst, bind_of_ok hf]
      exact Prod.ext (Traced.ext (List.append_assoc ..) rfl) rfl
    | error e => rw [bind_of_error hFirst, bind_of_error hf]
  -- after a failure neither of the others runs
  | error e => rw [bind_of_error hx, bind_of_error (bind_of_error hx f)]

instance : LawfulMonad (InPlace σ) :=
  LawfulMonad.mk' (InPlace σ) bind_pure_eq pure_bind_eq bind_assoc_eq

-- ---------------------------------------------------------------------------
-- Reading and writing the state
-- ---------------------------------------------------------------------------

theorem get_bind (f : σ → InPlace σ α) (s : σ) : ((get : InPlace σ σ) >>= f) s = f s s := rfl

theorem set_bind (s t : σ) (f : PUnit → InPlace σ α) :
    ((set t : InPlace σ PUnit) >>= f) s = f ⟨⟩ t := rfl

theorem set_apply (s t : σ) : (set t : InPlace σ PUnit) s = (pure ⟨⟩, t) := rfl

theorem liftM_ok (a : α) : (liftM (.ok a : Checked α) : InPlace σ α) = pure a := rfl

-- ---------------------------------------------------------------------------
-- All or nothing
-- ---------------------------------------------------------------------------

/-- What an operation leaves that happens completely or not at all: with an answer its new state,
with a failure the old one. -/
def settle (s : σ) (x : Traced (α × σ)) : Traced α × σ :=
  match x.outcome with
  | .ok (a, t) => (⟨x.events, .ok a⟩, t)
  | .error e => (⟨x.events, .error e⟩, s)

theorem settle_of_ok {x : Traced (α × σ)} {a : α} {t : σ} (h : x.outcome = .ok (a, t)) (s : σ) :
    settle s x = (⟨x.events, .ok a⟩, t) := by
  rw [settle, h]

theorem settle_of_error {x : Traced (α × σ)} {e : Failure} (h : x.outcome = .error e) (s : σ) :
    settle s x = (⟨x.events, .error e⟩, s) := by
  rw [settle, h]

/-- Nothing has happened before a check. -/
theorem liftM_bind_settle {c : Checked α} {f : α → InPlace σ β} {g : α → Traced (β × σ)} {s : σ}
    (h : ∀ a, c = .ok a → f a s = settle s (g a)) :
    (liftM c >>= f) s = settle s (liftM c >>= g) := by
  cases c with
  | ok a =>
    rw [liftM_ok, pure_bind, Traced.liftM_ok, pure_bind]
    exact h a rfl
  | error e => rfl

theorem assign_eq (f : σ → Checked σ) (s : σ) :
    assign f s = settle s (liftM (f s) >>= fun t => pure ((), t)) := by
  show (liftM (f s) >>= fun t => (set t : InPlace σ PUnit)) s = _
  exact liftM_bind_settle fun _ _ => rfl

theorem bind_pure_settle {x : InPlace σ α} {s : σ} {t : Traced (α × σ)} (h : x s = settle s t)
    (f : α → β) :
    (x >>= fun a => pure (f a)) s = settle s (t >>= fun r => pure (f r.1, r.2)) := by
  cases ht : t.outcome with
  | ok r =>
    obtain ⟨a, u⟩ := r
    rw [settle_of_ok ht] at h
    rw [bind_of_ok h, Traced.bind_of_ok ht]
    rfl
  | error e =>
    rw [settle_of_error ht] at h
    rw [bind_of_error h, Traced.bind_of_error ht]
    rfl

end LimbArith.InPlace
