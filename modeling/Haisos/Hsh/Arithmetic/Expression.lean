import Haisos.Hsh.Arithmetic.Evaluator
import Mathlib.Data.Nat.Digits.Defs

/-!
# C integer expressions

The abstract side of the arithmetic evaluator: expression trees, a reference
evaluator over the integers, and the relation between a tree and the texts
that write it down with the parentheses C's precedence and associativity
require.
-/

namespace Haisos.Hsh.Arithmetic

/-! ## Trees -/

inductive Literal where
  | decimal (first : Char) (rest : Text)
      (valid : isDigit first ∧ first ≠ '0' ∧ rest.all isDigit)
  | octal (digits : Text) (valid : digits.all (isDigitOf 8))
  | hexadecimal (x : Char) (first : Char) (rest : Text)
      (valid : (x = 'x' ∨ x = 'X') ∧ isDigitOf 16 first ∧ rest.all (isDigitOf 16))

abbrev Name := { name : Text // isValidShellName name }

inductive UnaryOp where
  | plus | minus | complement | not
  deriving DecidableEq, Repr

inductive BinaryOp where
  | mul | div | mod | add | sub | shl | shr
  | lt | le | gt | ge | eq | ne
  | bitAnd | bitXor | bitOr
  deriving DecidableEq, Repr

inductive AssignOp where
  | plain | mul | div | mod | add | sub | shl | shr | bitAnd | bitXor | bitOr
  deriving DecidableEq, Repr

inductive Expr where
  | literal (l : Literal)
  | var (name : Name)
  | unary (op : UnaryOp) (e : Expr)
  | binary (op : BinaryOp) (l r : Expr)
  | logicalAnd (l r : Expr)
  | logicalOr (l r : Expr)
  | conditional (c t e : Expr)
  | assign (op : AssignOp) (name : Name) (rhs : Expr)

/-! ## The reference evaluator -/

def numeral (base : Nat) (digits : Text) : Nat :=
  Nat.ofDigits base (digits.reverse.map digitValue)

/-- A constant too large for `intmax_t` is its largest value. -/
def Literal.value : Literal → Int
  | .decimal first rest _ => min intMaxMax (numeral 10 (first :: rest))
  | .octal digits _ => min intMaxMax (numeral 8 digits)
  | .hexadecimal _ first rest _ => min intMaxMax (numeral 16 (first :: rest))

/-- The integer of the 64-bit two's-complement word congruent to `n`. -/
def wrap (n : Int) : Int := n.bmod (2 ^ 64)

def truth (p : Prop) [Decidable p] : Int := if p then 1 else 0

def bitwise (f : BitVec 64 → BitVec 64 → BitVec 64) (a b : Int) : Int :=
  (f (BitVec.ofInt 64 a) (BitVec.ofInt 64 b)).toInt

def shiftCount (b : Int) : Nat := (b % 64).toNat

inductive Fault where
  | divisionByZero
  | notANumber (value : Text)
  | readOnly (name : Text)
  deriving DecidableEq, Repr

/-- The message the shell reports a fault in `expression` with. -/
def Fault.message (expression : Text) : Fault → Text
  | .divisionByZero =>
      text "arithmetic expression: " ++ text "division by zero" ++ text ": \"" ++
        expression ++ text "\""
  | .notANumber value => text "Illegal number: " ++ value
  | .readOnly name => name ++ text ": is read only"

def UnaryOp.apply : UnaryOp → Int → Int
  | .plus, a => a
  | .minus, a => wrap (-a)
  | .complement, a => -a - 1
  | .not, a => truth (a = 0)

def BinaryOp.apply : BinaryOp → Int → Int → Except Fault Int
  | .mul, a, b => .ok (wrap (a * b))
  | .div, a, b => if b = 0 then .error .divisionByZero else .ok (wrap (a.tdiv b))
  | .mod, a, b => if b = 0 then .error .divisionByZero else .ok (wrap (a.tmod b))
  | .add, a, b => .ok (wrap (a + b))
  | .sub, a, b => .ok (wrap (a - b))
  | .shl, a, b => .ok (wrap (a * 2 ^ shiftCount b))
  | .shr, a, b => .ok (a / 2 ^ shiftCount b)
  | .lt, a, b => .ok (truth (a < b))
  | .le, a, b => .ok (truth (a ≤ b))
  | .gt, a, b => .ok (truth (a > b))
  | .ge, a, b => .ok (truth (a ≥ b))
  | .eq, a, b => .ok (truth (a = b))
  | .ne, a, b => .ok (truth (a ≠ b))
  | .bitAnd, a, b => .ok (bitwise (· &&& ·) a b)
  | .bitXor, a, b => .ok (bitwise (· ^^^ ·) a b)
  | .bitOr, a, b => .ok (bitwise (· ||| ·) a b)

def AssignOp.operator : AssignOp → Option BinaryOp
  | .plain => none
  | .mul => some .mul
  | .div => some .div
  | .mod => some .mod
  | .add => some .add
  | .sub => some .sub
  | .shl => some .shl
  | .shr => some .shr
  | .bitAnd => some .bitAnd
  | .bitXor => some .bitXor
  | .bitOr => some .bitOr

def storedNumber (stored : Option Text) : Except Fault Int :=
  match stored with
  | none | some [] => .ok 0
  | some value =>
      match strtoimax value with
      | some (number, rest) =>
          if rest.all isBlank then .ok number else .error (.notANumber value)
      | none => .error (.notANumber value)

section

variable {σ : Type} (vars : Variables σ)

/-- Runs `f` on the value of an evaluation, if it has one. -/
def andThen (r : Except Fault Int × σ) (f : Int → σ → Except Fault Int × σ) :
    Except Fault Int × σ :=
  match r with
  | (.ok value, store) => f value store
  | (.error fault, store) => (.error fault, store)

def store (name : Text) (value : Int) (s : σ) : Except Fault Int × σ :=
  match vars.set s name (intText value) with
  | some s' => (.ok value, s')
  | none => (.error (.readOnly name), s)

/--
C's evaluation, left to right; the operands that `&&`, `||` and `?:` do not
take are not evaluated, and a compound assignment reads its variable after the
right-hand side ran.
-/
def reference : Expr → σ → Except Fault Int × σ
  | .literal l, s => (.ok l.value, s)
  | .var name, s => (storedNumber (vars.get s name), s)
  | .unary op e, s => andThen (reference e s) fun a s => (.ok (op.apply a), s)
  | .binary op l r, s =>
      andThen (reference l s) fun a s =>
        andThen (reference r s) fun b s => (op.apply a b, s)
  | .logicalAnd l r, s =>
      andThen (reference l s) fun a s =>
        if a = 0 then (.ok 0, s)
        else andThen (reference r s) fun b s => (.ok (truth (b ≠ 0)), s)
  | .logicalOr l r, s =>
      andThen (reference l s) fun a s =>
        if a ≠ 0 then (.ok 1, s)
        else andThen (reference r s) fun b s => (.ok (truth (b ≠ 0)), s)
  | .conditional c t e, s =>
      andThen (reference c s) fun a s => if a ≠ 0 then reference t s else reference e s
  | .assign op name rhs, s =>
      andThen (reference rhs s) fun b s =>
        match op.operator with
        | none => store vars name b s
        | some operator =>
            andThen (storedNumber (vars.get s name), s) fun a s =>
              andThen (operator.apply a b, s) fun value s => store vars name value s

end

/-! ## Renderings -/

/-- A token together with the way it is written. -/
inductive Lexeme where
  | literal (l : Literal)
  | name (name : Name)
  | op (kind : TokenKind)

def Literal.text : Literal → Text
  | .decimal first rest _ => first :: rest
  | .octal digits _ => '0' :: digits
  | .hexadecimal x first rest _ => '0' :: x :: first :: rest

def operatorText : TokenKind → Text
  | .plus => ['+']
  | .minus => ['-']
  | .star => ['*']
  | .slash => ['/']
  | .percent => ['%']
  | .shl => ['<', '<']
  | .shr => ['>', '>']
  | .lt => ['<']
  | .le => ['<', '=']
  | .gt => ['>']
  | .ge => ['>', '=']
  | .eqEq => ['=', '=']
  | .notEq => ['!', '=']
  | .and => ['&']
  | .xor => ['^']
  | .or => ['|']
  | .not => ['!']
  | .tilde => ['~']
  | .andAnd => ['&', '&']
  | .orOr => ['|', '|']
  | .question => ['?']
  | .colon => [':']
  | .assign => ['=']
  | .plusEq => ['+', '=']
  | .minusEq => ['-', '=']
  | .starEq => ['*', '=']
  | .slashEq => ['/', '=']
  | .percentEq => ['%', '=']
  | .shlEq => ['<', '<', '=']
  | .shrEq => ['>', '>', '=']
  | .andEq => ['&', '=']
  | .xorEq => ['^', '=']
  | .orEq => ['|', '=']
  | .lParen => ['(']
  | .rParen => [')']
  | .endToken | .invalid | .number | .name => []

def Lexeme.text : Lexeme → Text
  | .literal l => l.text
  | .name n => n.val
  | .op kind => operatorText kind

def Lexeme.token : Lexeme → Token
  | .literal l => { kind := .number, number := BitVec.ofInt 64 l.value }
  | .name n => { kind := .name, name := n.val }
  | .op kind => { kind }

def UnaryOp.kind : UnaryOp → TokenKind
  | .plus => .plus
  | .minus => .minus
  | .complement => .tilde
  | .not => .not

def BinaryOp.kind : BinaryOp → TokenKind
  | .mul => .star
  | .div => .slash
  | .mod => .percent
  | .add => .plus
  | .sub => .minus
  | .shl => .shl
  | .shr => .shr
  | .lt => .lt
  | .le => .le
  | .gt => .gt
  | .ge => .ge
  | .eq => .eqEq
  | .ne => .notEq
  | .bitAnd => .and
  | .bitXor => .xor
  | .bitOr => .or

def AssignOp.kind : AssignOp → TokenKind
  | .plain => .assign
  | .mul => .starEq
  | .div => .slashEq
  | .mod => .percentEq
  | .add => .plusEq
  | .sub => .minusEq
  | .shl => .shlEq
  | .shr => .shrEq
  | .bitAnd => .andEq
  | .bitXor => .xorEq
  | .bitOr => .orEq

/--
C's precedence, loosest first: 0 assignments, 1 `?:`, 2 `||`, 3 `&&`, then the
binary operators from `|` to `*`, 12 the unary operators and 13 primaries.
-/
def BinaryOp.level : BinaryOp → Nat
  | .bitOr => 4
  | .bitXor => 5
  | .bitAnd => 6
  | .eq | .ne => 7
  | .lt | .le | .gt | .ge => 8
  | .shl | .shr => 9
  | .add | .sub => 10
  | .mul | .div | .mod => 11

/--
`Renders p e lexemes`: the lexemes write `e` where C's grammar asks for an
expression of level `p` or tighter.  Parentheses are allowed everywhere and
required where the level is too loose.
-/
inductive Renders : Nat → Expr → List Lexeme → Prop
  | literal (p : Nat) (l : Literal) : Renders p (.literal l) [.literal l]
  | var (p : Nat) (name : Name) : Renders p (.var name) [.name name]
  | unary {p : Nat} {op : UnaryOp} {e : Expr} {ts : List Lexeme} :
      p ≤ 12 → Renders 12 e ts → Renders p (.unary op e) (.op op.kind :: ts)
  | binary {p : Nat} {op : BinaryOp} {l r : Expr} {ts us : List Lexeme} :
      p ≤ op.level → Renders op.level l ts → Renders (op.level + 1) r us →
      Renders p (.binary op l r) (ts ++ .op op.kind :: us)
  | logicalAnd {p : Nat} {l r : Expr} {ts us : List Lexeme} :
      p ≤ 3 → Renders 3 l ts → Renders 4 r us →
      Renders p (.logicalAnd l r) (ts ++ .op .andAnd :: us)
  | logicalOr {p : Nat} {l r : Expr} {ts us : List Lexeme} :
      p ≤ 2 → Renders 2 l ts → Renders 3 r us →
      Renders p (.logicalOr l r) (ts ++ .op .orOr :: us)
  | conditional {p : Nat} {c t e : Expr} {ts us ws : List Lexeme} :
      p ≤ 1 → Renders 2 c ts → Renders 0 t us → Renders 1 e ws →
      Renders p (.conditional c t e) (ts ++ .op .question :: us ++ .op .colon :: ws)
  | assign {op : AssignOp} {name : Name} {rhs : Expr} {ts : List Lexeme} :
      Renders 0 rhs ts → Renders 0 (.assign op name rhs) (.name name :: .op op.kind :: ts)
  | paren {p : Nat} {e : Expr} {ts : List Lexeme} :
      Renders 0 e ts → Renders p e (.op .lParen :: ts ++ [.op .rParen])

/-- The text is the lexemes' texts in order, with blanks anywhere between them. -/
inductive Spaced : List Lexeme → Text → Prop
  | nil (blanks : Text) : blanks.all isBlank → Spaced [] blanks
  | cons (blanks : Text) {lexeme : Lexeme} {lexemes : List Lexeme} {rest : Text} :
      blanks.all isBlank → Spaced lexemes rest →
      Spaced (lexeme :: lexemes) (blanks ++ lexeme.text ++ rest)

end Haisos.Hsh.Arithmetic
