import LimbArith.Text.CharacterClass

/-!
# LimbArith — quoted characters

How a character is shown in a message: in single quotes, with an escape where the character itself
could not be read.
-/

namespace LimbArith.Text

/-- The escape of a character by its code point in hexadecimal. -/
def codePointEscape (c : Char) : String :=
  let digits := String.ofList (Nat.toDigits 16 c.toNat)
  s!"\\u\x7b{digits}\x7d"

/-- The character as it stands between single quotes. -/
def escapeChar (c : Char) : String :=
  match c with
  | '\x00' => "\\0"
  | '\t' => "\\t"
  | '\n' => "\\n"
  | '\r' => "\\r"
  | '\'' => "\\'"
  | '\\' => "\\\\"
  | c =>
    if isExtendingMark c || !isPrintable c then codePointEscape c else String.singleton c

/-- The character in single quotes. -/
def quoteChar (c : Char) : String :=
  let escaped := escapeChar c
  s!"'{escaped}'"

end LimbArith.Text
