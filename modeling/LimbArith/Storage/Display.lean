import LimbArith.Storage.Buffer

/-!
# LimbArith — the diagnostic text of a buffer

Class, size and capacity of a buffer, and its limbs in decimal unless it is secure; on one line, or
with a field to a line.
-/

namespace LimbArith.Buffer

variable {w : Width}

/-- The fields shown before the limbs. -/
def headFields (b : Buffer w) : List (String × String) :=
  [("class", b.sensitivity.name), ("nlimbs", toString b.size), ("capacity", toString b.capacity)]

/-- The limbs that may be shown, in decimal. -/
def shownLimbs (b : Buffer w) : Checked (Option (List String)) := do
  if b.isSecure then pure none
  else
    let xs ← b.limbs
    pure (some (xs.map fun x => toString x.toNat))

/-- A field with its name. -/
def fieldText (field : String × String) : String := field.1 ++ ": " ++ field.2

/-- The diagnostic text on one line. -/
def debugText (b : Buffer w) : Checked String := do
  let shown ← b.shownLimbs
  let limbs := match shown with
    | none => []
    | some xs => [("limbs", "[" ++ ", ".intercalate xs ++ "]")]
  let fields := (b.headFields ++ limbs).map fieldText
  pure ("LimbsBuffer \x7b " ++ ", ".intercalate fields ++ " \x7d")

/-- The lines of a list, an element to a line, indented by one level more than its field. -/
def listLines (xs : List String) : String :=
  if xs.isEmpty then "[]"
  else "[\n" ++ String.join (xs.map fun x => "        " ++ x ++ ",\n") ++ "    ]"

/-- The diagnostic text with a field to a line. -/
def debugLines (b : Buffer w) : Checked String := do
  let shown ← b.shownLimbs
  let limbs := match shown with
    | none => []
    | some xs => [("limbs", listLines xs)]
  let fields := (b.headFields ++ limbs).map fun field => "    " ++ fieldText field ++ ",\n"
  pure ("LimbsBuffer \x7b\n" ++ String.join fields ++ "\x7d")

end LimbArith.Buffer
