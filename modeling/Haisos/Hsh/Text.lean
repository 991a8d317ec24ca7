import Mathlib.Data.List.Basic

/-!
# Texts

A `std::string` of the source is a byte string.  It is modelled by a list of
characters, the byte `b` being the character with code `b`: every function of
the shell looks at single bytes only and compares them by their codes.
-/

namespace Haisos.Hsh

abbrev Text := List Char

/-- The text of a literal of the source. -/
def text (literal : String) : Text := literal.toList

def isDigit (c : Char) : Bool := '0' ≤ c && c ≤ '9'

def isUpper (c : Char) : Bool := 'A' ≤ c && c ≤ 'Z'

def isLower (c : Char) : Bool := 'a' ≤ c && c ≤ 'z'

/-- `IsNameStart` of the lexer, the parser and the words: `[A-Za-z_]`. -/
def isNameStart (c : Char) : Bool := isUpper c || isLower c || c == '_'

/-- `IsNameChar`: `[A-Za-z0-9_]`. -/
def isNameChar (c : Char) : Bool := isNameStart c || isDigit c

/-- `isspace` of the C locale. -/
def isSpace (c : Char) : Bool :=
  c == ' ' || c == '\t' || c == '\n' || c == '\x0b' || c == '\x0c' || c == '\r'

/-- `IsValidShellName`: `[A-Za-z_][A-Za-z0-9_]*`. -/
def isValidShellName : Text → Bool
  | [] => false
  | c :: rest => isNameStart c && rest.all isNameChar

/-- `std::to_string` of an unsigned number. -/
def natText (n : Nat) : Text := Nat.toDigits 10 n

/-- `std::to_string` of a signed number. -/
def intText : Int → Text
  | .ofNat n => natText n
  | .negSucc n => '-' :: natText (n + 1)

end Haisos.Hsh
