import LimbArith.Storage.Traced

/-!
# LimbArith — operations in place

An operation on a state that it changes step by step. When it fails half way, the state is what the
steps up to there have made of it: nothing is taken back.

* `InPlace` — an outcome, its events, and the state that is left.
* `InPlace.assign` — replaces the state by a checked function of it.
-/

namespace LimbArith

/-- A traced operation that changes a state. The state is left after a failure too. -/
def InPlace (σ α : Type) : Type := σ → Traced α × σ

namespace InPlace

variable {σ α β : Type}

/-- Goes on with an answer in the state left so far; a failure ends here. -/
protected def bind (x : InPlace σ α) (f : α → InPlace σ β) : InPlace σ β := fun s =>
  let (first, s) := x s
  match first.outcome with
  | .ok a =>
    let (rest, s) := f a s
    (⟨first.events ++ rest.events, rest.outcome⟩, s)
  | .error e => (⟨first.events, .error e⟩, s)

instance : Monad (InPlace σ) where
  pure a := fun s => (pure a, s)
  bind := InPlace.bind

instance : MonadStateOf σ (InPlace σ) where
  get := fun s => (pure s, s)
  set s := fun _ => (pure (), s)
  modifyGet f := fun s => (pure (f s).1, (f s).2)

/-- Operations that change nothing. -/
instance : MonadLift Traced (InPlace σ) := ⟨fun t s => (t, s)⟩

/-- Replaces the state, unless the new one cannot be computed. -/
def assign (f : σ → Checked σ) : InPlace σ Unit := do
  let s ← get
  let s ← f s
  set s

end InPlace

end LimbArith
