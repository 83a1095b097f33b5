import LimbArith.Fault
import LimbArith.Storage.Event

/-!
# LimbArith — traced operations

A storage operation reports events and ends with an answer or a failure. Events that were reported
before a failure stay in the log.

* `StorageError`, `Failure` — how an operation fails.
* `Traced` — an outcome with the events on the way to it.
-/

namespace LimbArith

/-- A request that storage refuses. -/
inductive StorageError where
  /-- Memory for that many limbs is not to be had. -/
  | allocationFailed (limbs : Nat)
  /-- More limbs than the buffer has slots. -/
  | insufficientCapacity (limbs capacity : Nat)
  deriving DecidableEq, Repr

/-- The wording of an error. -/
def StorageError.message : StorageError → String
  | allocationFailed limbs => s!"failed to allocate {limbs} limbs"
  | insufficientCapacity limbs capacity =>
    s!"{limbs} limbs exceed the buffer capacity of {capacity}"

/-- How a storage operation fails. -/
inductive Failure where
  | storage (e : StorageError)
  | fault (f : Fault)
  deriving DecidableEq, Repr

/-- The outcome of an operation and the events on the way to it. -/
structure Traced (α : Type) where
  events : List Event
  outcome : Except Failure α

namespace Traced

variable {α β : Type}

/-- Goes on with an answer, after the events so far; a failure ends here. -/
protected def bind (x : Traced α) (f : α → Traced β) : Traced β :=
  match x.outcome with
  | .ok a => ⟨x.events ++ (f a).events, (f a).outcome⟩
  | .error e => ⟨x.events, .error e⟩

instance : Monad Traced where
  pure a := ⟨[], .ok a⟩
  bind := Traced.bind

/-- Reports an event. -/
def emit (e : Event) : Traced Unit := ⟨[e], .ok ()⟩

/-- Reports events in order. -/
def emitAll (es : List Event) : Traced Unit := ⟨es, .ok ()⟩

/-- Refuses a request. -/
def refuse (e : StorageError) : Traced α := ⟨[], .error (.storage e)⟩

/-- A check, which reports nothing. -/
def ofChecked : Checked α → Traced α
  | .ok a => ⟨[], .ok a⟩
  | .error f => ⟨[], .error (.fault f)⟩

instance : MonadLift Checked Traced := ⟨ofChecked⟩

/-! ## Sequences -/

theorem bind_of_ok {x : Traced α} {a : α} (h : x.outcome = .ok a) (f : α → Traced β) :
    x >>= f = ⟨x.events ++ (f a).events, (f a).outcome⟩ := by
  change Traced.bind x f = _
  rw [Traced.bind, h]

theorem bind_of_error {x : Traced α} {e : Failure} (h : x.outcome = .error e) (f : α → Traced β) :
    x >>= f = ⟨x.events, .error e⟩ := by
  change Traced.bind x f = _
  rw [Traced.bind, h]

end Traced

end LimbArith
