/-!
# LimbArith — storage events

What storage reports while it works: each event is one line of a log, with its level, a fixed
wording, and its fields in alphabetical order.

* `Sensitivity` — whether contents are sensitive.
* `Event`, `Event.line` — the events and their lines.
-/

namespace LimbArith

/-- Whether the contents of a buffer are sensitive. -/
inductive Sensitivity where
  | ordinary
  | secure
  deriving DecidableEq, Repr

/-- The name of a class in messages. -/
def Sensitivity.name : Sensitivity → String
  | ordinary => "Ordinary"
  | secure => "Secure"

/-- An event of a buffer's life. -/
inductive Event where
  /-- A buffer was made. -/
  | allocated (capacity : Nat) (sensitivity : Sensitivity)
  /-- Memory for limbs was refused. -/
  | limbsRefused (limbs : Nat)
  /-- Memory for an export was refused. -/
  | bytesRefused (bytes : Nat)
  /-- A buffer got more capacity. -/
  | grew (sensitivity : Sensitivity) (old new : Nat)
  /-- An ordinary buffer became secure. -/
  | promoted (capacity : Nat)
  /-- A secure buffer ended. -/
  | released
  deriving DecidableEq, Repr

/-- The line of an event. -/
def Event.line : Event → String
  | allocated capacity sensitivity =>
    let name := sensitivity.name
    s!"TRACE allocated limbs buffer capacity={capacity} class={name}"
  | limbsRefused limbs => s!"WARN limbs allocation failed nlimbs={limbs}"
  | bytesRefused bytes => s!"WARN byte export allocation failed nbytes={bytes}"
  | grew sensitivity old new =>
    let name := sensitivity.name
    s!"TRACE grew limbs buffer class={name} from={old} to={new}"
  | promoted capacity => s!"TRACE promoted limbs buffer to secure capacity={capacity}"
  | released => "TRACE released secure limbs buffer"

end LimbArith
