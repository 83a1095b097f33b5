import LimbArith.Digits
import LimbArith.Mask

/-!
# LimbArith — masks and the choices of another library

Another library has truth values of its own, which it makes from a byte that is zero or one and
gives out as such a byte again. A mask is converted from and to them through its bit.

* `ChoiceType` — the truth values of another library.
* `ChoiceType.bytes` — choices that are their byte.
* `Mask.ofChoice`, `Mask.toChoice` — conversions.
-/

namespace LimbArith

/-- The truth values of another library: how one is made from a byte, which may be refused, and
which byte it gives out. -/
structure ChoiceType where
  Choice : Type
  ofByte : Byte → Checked Choice
  toByte : Choice → Byte

/-- Choices that are their byte. -/
def ChoiceType.bytes : ChoiceType where
  Choice := Byte
  ofByte b := do
    require (b = 0 ∨ b = 1) .notABit
    pure b
  toByte b := b

namespace Mask

variable {w : Width}

/-- The mask of a choice. -/
def ofChoice (type : ChoiceType) (choice : type.Choice) : Checked (Mask w) :=
  ofLimb ((type.toByte choice).setWidth w.bits)

/-- The choice of a mask. -/
def toChoice (type : ChoiceType) (c : Mask w) : Checked type.Choice :=
  type.ofByte (c.bit.setWidth 8)

end Mask

end LimbArith
