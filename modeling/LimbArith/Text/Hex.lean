import LimbArith.Limbs.Basic
import LimbArith.Text.Quoted

/-!
# LimbArith — hexadecimal text

Numbers as hexadecimal text, most significant digit first. Written text has all digits of every
limb. Read text may start with `0x`, has digits of either case, and gets just enough limbs for its
digits, leading zeros included.

* `Hex.parse`, `Hex.Error` — reading; the last character that is no digit is reported.
* `Hex.render` — writing.
-/

namespace LimbArith.Hex

variable {w : Width}

/-! ## Digits -/

/-- The digit that a character stands for. -/
def digit? (c : Char) : Option Nibble :=
  if '0' ≤ c ∧ c ≤ '9' then some (BitVec.ofNat 4 (c.toNat - '0'.toNat))
  else if 'a' ≤ c ∧ c ≤ 'f' then some (BitVec.ofNat 4 (c.toNat - 'a'.toNat + 10))
  else if 'A' ≤ c ∧ c ≤ 'F' then some (BitVec.ofNat 4 (c.toNat - 'A'.toNat + 10))
  else none

/-- The lower-case character of a digit. -/
def digitChar (d : Nibble) : Char :=
  if d.toNat < 10 then Char.ofNat ('0'.toNat + d.toNat)
  else Char.ofNat ('a'.toNat + (d.toNat - 10))

/-! ## Reading -/

/-- Why a text is not read. -/
inductive Error where
  /-- A character is no digit; `offset` is its position in the text in bytes. -/
  | invalidChar (offset : Nat) (found : Char)
  | fault (f : Fault)
  deriving DecidableEq, Repr

/-- The wording of an invalid character's message. -/
def invalidCharMessage (offset : Nat) (found : Char) : String :=
  let shown := Text.quoteChar found
  s!"invalid hex character {shown} at offset {offset}"

/-- Splits off a leading `0x`: its length and the rest. -/
def splitBase : List Char → Nat × List Char
  | '0' :: 'x' :: digits => (2, digits)
  | digits => (0, digits)

/-- The characters with their positions in bytes, the first one at `offset`. -/
def withOffsets : Nat → List Char → List (Nat × Char)
  | _, [] => []
  | offset, c :: cs => (offset, c) :: withOffsets (offset + c.utf8Size) cs

/-- The length of a text in bytes. -/
def byteLength : List Char → Nat
  | [] => 0
  | c :: cs => c.utf8Size + byteLength cs

/-- Reads characters as digits, in the order given, up to the first that is none. The digits go to
the places from the `i`-th on. -/
def readDigits (xs : Limbs w) (i : Nat) : List (Nat × Char) → Except Error (Limbs w)
  | [] => .ok xs
  | (offset, c) :: rest =>
    match digit? c with
    | none => .error (.invalidChar offset c)
    | some d =>
      match Digits.place xs i d with
      | .error f => .error (.fault f)
      | .ok xs => readDigits xs (i + 1) rest

/-- Reads a number, its digits from the end. The limbs are as many as the bytes of the text need. -/
def parseChars (w : Width) (text : List Char) : Except Error (Limbs w) :=
  let (start, digits) := splitBase text
  let blank := List.replicate (Digits.limbCount w 4 (byteLength digits)) 0
  readDigits blank 0 (withOffsets start digits).reverse

/-- Reads a number. -/
def parse (w : Width) (text : String) : Except Error (Limbs w) := parseChars w text.toList

/-! ## Writing -/

/-- Writes a number with all digits of every limb. -/
def renderChars (xs : Limbs w) : List Char := (Digits.unpack 4 xs).reverse.map digitChar

/-- Writes a number with all digits of every limb. -/
def render (xs : Limbs w) : String := String.ofList (renderChars xs)

end LimbArith.Hex
