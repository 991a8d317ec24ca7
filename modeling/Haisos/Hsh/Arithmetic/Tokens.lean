import Mathlib.Algebra.Ring.Int.Defs
import Haisos.Hsh.Text

/-!
# The tokens of an arithmetic expression

`Tokenize` of `HshArithmetic.cpp`.  Numbers are read by the C library's
`strtoimax` with base 0, which is modelled by its documented behaviour.
-/

namespace Haisos.Hsh.Arithmetic

/-- `intmax_t`; the source computes on `uintmax_t` and casts back. -/
abbrev IntMax := BitVec 64

def intMaxMax : Int := 2 ^ 63 - 1

def intMaxMin : Int := -2 ^ 63

/-! ## The C library's number reader -/

/-- The value of a digit character in the bases up to 16; 16 for any other. -/
def digitValue (c : Char) : Nat :=
  if isDigit c then c.toNat - '0'.toNat
  else if 'a' ≤ c ∧ c ≤ 'f' then c.toNat - 'a'.toNat + 10
  else if 'A' ≤ c ∧ c ≤ 'F' then c.toNat - 'A'.toNat + 10
  else 16

def isDigitOf (base : Nat) (c : Char) : Bool := digitValue c < base

/-- The number written by `digits`, the most significant one first. -/
def digitsValue (base : Nat) (digits : Text) : Nat :=
  digits.foldl (fun value c => value * base + digitValue c) 0

/-- What base 0 stands for at `text`: the base, and the text its digits start at. -/
def basePrefix : Text → Nat × Text
  | '0' :: x :: c :: rest =>
      if (x = 'x' ∨ x = 'X') ∧ isDigitOf 16 c then (16, c :: rest)
      else (8, '0' :: x :: c :: rest)
  | '0' :: rest => (8, '0' :: rest)
  | rest => (10, rest)

/-- The optional sign: whether it is `-`, and the text after it. -/
def signPrefix : Text → Bool × Text
  | '-' :: rest => (true, rest)
  | '+' :: rest => (false, rest)
  | rest => (false, rest)

/-- A magnitude with its sign, saturated at the ends of `intmax_t`. -/
def saturate (negative : Bool) (magnitude : Nat) : Int :=
  if negative then max intMaxMin (-magnitude) else min intMaxMax magnitude

/--
`strtoimax(text, &end, 0)`: the value and the text at `end`, or `none` when no
conversion is made (`end == text`).
-/
def strtoimax (text : Text) : Option (Int × Text) :=
  let (negative, unsigned) := signPrefix (text.dropWhile isSpace)
  let (base, rest) := basePrefix unsigned
  let digits := rest.takeWhile (isDigitOf base)
  if digits.isEmpty then none
  else some (saturate negative (digitsValue base digits), rest.dropWhile (isDigitOf base))

/-! ## Tokens -/

inductive TokenKind where
  | endToken | invalid | number | name
  | plus | minus | star | slash | percent
  | shl | shr | lt | le | gt | ge | eqEq | notEq
  | and | xor | or | not | tilde
  | andAnd | orOr | question | colon
  | assign | plusEq | minusEq | starEq | slashEq | percentEq
  | shlEq | shrEq | andEq | xorEq | orEq
  | lParen | rParen
  deriving DecidableEq, Repr

structure Token where
  kind : TokenKind := .endToken
  number : IntMax := 0
  name : Text := []
  deriving DecidableEq, Repr

def isBlank (c : Char) : Bool := c == ' ' || c == '\t' || c == '\n'

/-- `kTwoChar`. -/
def twoChar : Char → Char → Option TokenKind
  | '<', '<' => some .shl
  | '>', '>' => some .shr
  | '<', '=' => some .le
  | '>', '=' => some .ge
  | '=', '=' => some .eqEq
  | '!', '=' => some .notEq
  | '&', '&' => some .andAnd
  | '|', '|' => some .orOr
  | '*', '=' => some .starEq
  | '/', '=' => some .slashEq
  | '%', '=' => some .percentEq
  | '+', '=' => some .plusEq
  | '-', '=' => some .minusEq
  | '&', '=' => some .andEq
  | '^', '=' => some .xorEq
  | '|', '=' => some .orEq
  | _, _ => none

/-- The tokens of one character; anything else is one `Invalid` token. -/
def oneChar : Char → TokenKind
  | '+' => .plus
  | '-' => .minus
  | '*' => .star
  | '/' => .slash
  | '%' => .percent
  | '<' => .lt
  | '>' => .gt
  | '&' => .and
  | '^' => .xor
  | '|' => .or
  | '!' => .not
  | '~' => .tilde
  | '?' => .question
  | ':' => .colon
  | '=' => .assign
  | '(' => .lParen
  | ')' => .rParen
  | _ => .invalid

/-- The operator at the head of `c :: rest`, longest first, and what follows it. -/
def operatorToken (c : Char) (rest : Text) : TokenKind × Text :=
  match c, rest with
  | '<', '<' :: '=' :: rest' => (.shlEq, rest')
  | '>', '>' :: '=' :: rest' => (.shrEq, rest')
  | c, d :: rest' =>
      match twoChar c d with
      | some kind => (kind, rest')
      | none => (oneChar c, d :: rest')
  | c, [] => (oneChar c, [])

/--
One round of `Tokenize`'s loop at `c :: rest` (no blank): the token there and
the text after it.
-/
def nextToken (c : Char) (rest : Text) : Token × Text :=
  if isDigit c then
    match strtoimax (c :: rest) with
    | some (value, rest') => ({ kind := .number, number := BitVec.ofInt 64 value }, rest')
    -- A C library that reads nothing at "0x": the "0" is taken alone.
    | none => ({ kind := .number, number := 0 }, rest)
  else if isNameStart c then
    ({ kind := .name, name := c :: rest.takeWhile isNameChar }, rest.dropWhile isNameChar)
  else
    let (kind, rest') := operatorToken c rest
    ({ kind }, rest')

def tokenizeFrom : Nat → Text → List Token
  | 0, _ => []
  | _ + 1, [] => [{ kind := .endToken }]
  | fuel + 1, c :: rest =>
      if isBlank c then tokenizeFrom fuel rest
      else
        let (token, rest') := nextToken c rest
        token :: tokenizeFrom fuel rest'

def tokenize (expression : Text) : List Token :=
  tokenizeFrom (expression.length + 1) expression

end Haisos.Hsh.Arithmetic
