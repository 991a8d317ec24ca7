import Haisos.Hsh.Arithmetic.Tokens

/-!
# The arithmetic evaluator

`ArithmeticParser` of `HshArithmetic.cpp`: a recursive descent that evaluates
while it parses.  Every method runs on the parser's state (the tokens not yet
taken, the evaluation flag) and on the variables it reads and assigns, which
keep what an error left in them.  The mutual recursion goes through
`ParseAssign`, so each level takes that method as an argument and
`parseAssign` ties the knot on a fuel.
-/

namespace Haisos.Hsh.Arithmetic

/-- `IArithmeticVariables`, over any representation `σ` of the variables. -/
structure Variables (σ : Type) where
  get : σ → Text → Option Text
  /-- `none` when the variable is read-only: nothing is changed then. -/
  set : σ → Text → Text → Option σ

inductive Failure where
  | shellError (message : Text)
  | outOfFuel
  deriving DecidableEq, Repr

structure State (σ : Type) where
  tokens : List Token
  evaluating : Bool := true
  store : σ

structure Value where
  value : IntMax := 0
  lvalue : Text := []
  deriving DecidableEq, Repr

abbrev Parse (σ : Type) := ExceptT Failure (StateM (State σ))

/-! ## The operations -/

def add (a b : IntMax) : IntMax := a + b

def sub (a b : IntMax) : IntMax := a - b

def mul (a b : IntMax) : IntMax := a * b

def neg (a : IntMax) : IntMax := 0 - a

def bitNot (a : IntMax) : IntMax := ~~~a

def shiftLeft (a b : IntMax) : IntMax := a <<< (b &&& 63).toNat

def shiftRight (a b : IntMax) : IntMax :=
  let count := (b &&& 63).toNat
  if count = 0 then a
  else
    let r := a >>> count
    if a.slt 0 then r ||| (BitVec.allOnes 64 <<< (64 - count)) else r

/-- Truncating, with `INTMAX_MIN / -1` taken care of. -/
def div (a b : IntMax) : IntMax :=
  if a = BitVec.intMin 64 ∧ b = -1 then BitVec.intMin 64 else a.sdiv b

def mod (a b : IntMax) : IntMax :=
  if a = BitVec.intMin 64 ∧ b = -1 then 0 else a.srem b

def ofBool (b : Bool) : IntMax := if b then 1 else 0

section

variable {σ : Type} (vars : Variables σ) (expression : Text)

/-! ## The token stream and the flag -/

def peek : Parse σ TokenKind := do
  match (← get).tokens with
  | [] => pure .endToken
  | token :: _ => pure token.kind

def next : Parse σ Token := do
  let s ← get
  match s.tokens with
  | [] => pure {}
  | token :: rest =>
      set { s with tokens := rest }
      pure token

def evaluating : Parse σ Bool := do pure (← get).evaluating

def fail {α : Type} (what : String) : Parse σ α :=
  throw (.shellError (text "arithmetic expression: " ++ text what ++ text ": \"" ++
    expression ++ text "\""))

/-- `WithEvaluation`: runs `f` with the flag set so, and puts the flag back. -/
def withEvaluation {α : Type} (evaluate : Bool) (f : Parse σ α) : Parse σ α :=
  ExceptT.mk fun s =>
    let (result, s') := f.run.run { s with evaluating := evaluate }
    (result, { s' with evaluating := s.evaluating })

def isAssignOp : TokenKind → Bool
  | .assign | .plusEq | .minusEq | .starEq | .slashEq | .percentEq
  | .shlEq | .shrEq | .andEq | .xorEq | .orEq => true
  | _ => false

/-! ## Variables -/

/--
The number in a variable's text: unset or empty is 0; otherwise the whole text
must be one number for `strtoimax`, but for blanks after it.
-/
def variableNumber (stored : Option Text) : Except Failure IntMax :=
  match stored with
  | none | some [] => .ok 0
  | some value =>
      match strtoimax value with
      | none => .error (.shellError (text "Illegal number: " ++ value))
      | some (number, rest) =>
          if rest.all isBlank then .ok (BitVec.ofInt 64 number)
          else .error (.shellError (text "Illegal number: " ++ value))

def variableValue (name : Text) : Parse σ IntMax := do
  if !(← evaluating) then return 0
  match variableNumber (vars.get (← get).store name) with
  | .ok value => pure value
  | .error failure => throw failure

/-- `m_variables.Set(name, std::to_string(result))`, or the read-only error. -/
def assignVariable (name : Text) (result : IntMax) : Parse σ Unit := do
  let s ← get
  match vars.set s.store name (intText result.toInt) with
  | some store => set { s with store }
  | none => throw (.shellError (name ++ text ": is read only"))

/-! ## Primaries and unary operators -/

def parsePrimary (assign : Parse σ Value) : Parse σ Value := do
  match ← peek with
  | .number => do
      let token ← next
      pure { value := token.number }
  | .name => do
      let token ← next
      -- Directly before an assignment operator the variable is the target: it
      -- is not read here.
      if isAssignOp (← peek) then pure { lvalue := token.name }
      else do
        let value ← variableValue vars token.name
        pure { value, lvalue := token.name }
  | .lParen => do
      let _ ← next
      let v ← assign
      if (← peek) ≠ .rParen then fail expression "expecting ')'"
      let _ ← next
      pure { v with lvalue := [] }
  | _ => fail expression "expecting primary"

def mapped (v : Value) (f : IntMax → IntMax) : Parse σ Value := do
  if ← evaluating then pure { value := f v.value } else pure {}

def parseUnary (assign : Parse σ Value) : Nat → Parse σ Value
  | 0 => throw .outOfFuel
  | fuel + 1 => do
      match ← peek with
      | .plus => do
          let _ ← next
          parseUnary assign fuel
      | .minus => do
          let _ ← next
          mapped (← parseUnary assign fuel) neg
      | .tilde => do
          let _ ← next
          mapped (← parseUnary assign fuel) bitNot
      | .not => do
          let _ ← next
          mapped (← parseUnary assign fuel) fun v => ofBool (v == 0)
      | _ => parsePrimary vars expression assign

/-! ## The binary levels -/

/--
The loop of a binary level whose operands are both evaluated: while an
operator of the level is next, an operand is read and `apply` combines it.
-/
def binaryLoop (isOp : TokenKind → Bool)
    (apply : TokenKind → IntMax → IntMax → Parse σ IntMax) (operand : Parse σ Value) :
    Nat → Value → Parse σ Value
  | 0, _ => throw .outOfFuel
  | fuel + 1, lhs => do
      if isOp (← peek) then do
        let op ← next
        let rhs ← operand
        let value ← if ← evaluating then apply op.kind lhs.value rhs.value else pure 0
        binaryLoop isOp apply operand fuel { value }
      else pure lhs

def binaryLevel (isOp : TokenKind → Bool)
    (apply : TokenKind → IntMax → IntMax → Parse σ IntMax) (operand : Parse σ Value)
    (fuel : Nat) : Parse σ Value := do
  let lhs ← operand
  binaryLoop isOp apply operand fuel lhs

def isMultiplicativeOp (kind : TokenKind) : Bool :=
  kind == .star || kind == .slash || kind == .percent

def applyMultiplicative (op : TokenKind) (a b : IntMax) : Parse σ IntMax := do
  if (op == .slash || op == .percent) && b == 0 then fail expression "division by zero"
  match op with
  | .star => pure (mul a b)
  | .slash => pure (div a b)
  | _ => pure (mod a b)

def parseMultiplicative (assign : Parse σ Value) (fuel : Nat) : Parse σ Value :=
  binaryLevel isMultiplicativeOp (applyMultiplicative expression)
    (parseUnary vars expression assign fuel) fuel

def isAdditiveOp (kind : TokenKind) : Bool := kind == .plus || kind == .minus

def applyAdditive (op : TokenKind) (a b : IntMax) : IntMax :=
  if op = .plus then add a b else sub a b

def parseAdditive (assign : Parse σ Value) (fuel : Nat) : Parse σ Value :=
  binaryLevel isAdditiveOp (fun op a b => pure (applyAdditive op a b))
    (parseMultiplicative vars expression assign fuel) fuel

def isShiftOp (kind : TokenKind) : Bool := kind == .shl || kind == .shr

def applyShift (op : TokenKind) (a b : IntMax) : IntMax :=
  if op = .shl then shiftLeft a b else shiftRight a b

def parseShift (assign : Parse σ Value) (fuel : Nat) : Parse σ Value :=
  binaryLevel isShiftOp (fun op a b => pure (applyShift op a b))
    (parseAdditive vars expression assign fuel) fuel

def isRelationalOp (kind : TokenKind) : Bool :=
  kind == .lt || kind == .le || kind == .gt || kind == .ge

def applyRelational (op : TokenKind) (a b : IntMax) : IntMax :=
  match op with
  | .lt => ofBool (a.slt b)
  | .le => ofBool (a.sle b)
  | .gt => ofBool (b.slt a)
  | _ => ofBool (b.sle a)

def parseRelational (assign : Parse σ Value) (fuel : Nat) : Parse σ Value :=
  binaryLevel isRelationalOp (fun op a b => pure (applyRelational op a b))
    (parseShift vars expression assign fuel) fuel

def isEqualityOp (kind : TokenKind) : Bool := kind == .eqEq || kind == .notEq

def applyEquality (op : TokenKind) (a b : IntMax) : IntMax :=
  ofBool ((a == b) == (op == .eqEq))

def parseEquality (assign : Parse σ Value) (fuel : Nat) : Parse σ Value :=
  binaryLevel isEqualityOp (fun op a b => pure (applyEquality op a b))
    (parseRelational vars expression assign fuel) fuel

/-- `ParseBinaryBits` for the operator `op`. -/
def parseBinaryBits (operand : Parse σ Value) (op : TokenKind) (fuel : Nat) : Parse σ Value :=
  binaryLevel (· == op)
    (fun _ a b => pure (match op with
      | .or => a ||| b
      | .xor => a ^^^ b
      | _ => a &&& b))
    operand fuel

def parseBitAnd (assign : Parse σ Value) (fuel : Nat) : Parse σ Value :=
  parseBinaryBits (parseEquality vars expression assign fuel) .and fuel

def parseBitXor (assign : Parse σ Value) (fuel : Nat) : Parse σ Value :=
  parseBinaryBits (parseBitAnd vars expression assign fuel) .xor fuel

def parseBitOr (assign : Parse σ Value) (fuel : Nat) : Parse σ Value :=
  parseBinaryBits (parseBitXor vars expression assign fuel) .or fuel

/-! ## The logical levels -/

/--
The loop of `&&` or `||`: the right operand is evaluated only when the left
one leaves the outcome open, which `goesOn` says.
-/
def logicalLoop (op : TokenKind) (goesOn : IntMax → Bool)
    (combine : IntMax → IntMax → Bool) (operand : Parse σ Value) :
    Nat → Value → Parse σ Value
  | 0, _ => throw .outOfFuel
  | fuel + 1, lhs => do
      if (← peek) = op then do
        let _ ← next
        let flag ← evaluating
        let rhs ← withEvaluation (flag && goesOn lhs.value) operand
        logicalLoop op goesOn combine operand fuel
          { value := ofBool (flag && combine lhs.value rhs.value) }
      else pure lhs

def parseLogicalAnd (assign : Parse σ Value) (fuel : Nat) : Parse σ Value := do
  let lhs ← parseBitOr vars expression assign fuel
  logicalLoop .andAnd (fun l => l != 0) (fun l r => l != 0 && r != 0)
    (parseBitOr vars expression assign fuel) fuel lhs

def parseLogicalOr (assign : Parse σ Value) (fuel : Nat) : Parse σ Value := do
  let lhs ← parseLogicalAnd vars expression assign fuel
  logicalLoop .orOr (fun l => l == 0) (fun l r => l != 0 || r != 0)
    (parseLogicalAnd vars expression assign fuel) fuel lhs

/-! ## `?:` and assignments -/

/-- `ParseConditional` after its `?`. -/
def parseBranches (assign : Parse σ Value) (condition : Value) : Parse σ Value := do
  let flag ← evaluating
  let thenValue ← withEvaluation (flag && condition.value != 0) assign
  if (← peek) ≠ .colon then fail expression "expecting ':'"
  let _ ← next
  let elseValue ← withEvaluation (flag && condition.value == 0) assign
  if flag then
    pure { value := if condition.value != 0 then thenValue.value else elseValue.value }
  else pure {}

def parseConditional (assign : Parse σ Value) (fuel : Nat) : Parse σ Value := do
  let condition ← parseLogicalOr vars expression assign fuel
  if (← peek) ≠ .question then return condition
  let _ ← next
  parseBranches expression assign condition

/-- The `switch` of `ParseAssign`. -/
def applyAssign (op : TokenKind) (lhs rhs : IntMax) : Parse σ IntMax := do
  if (op == .slashEq || op == .percentEq) && rhs == 0 then fail expression "division by zero"
  pure (match op with
    | .plusEq => add lhs rhs
    | .minusEq => sub lhs rhs
    | .starEq => mul lhs rhs
    | .slashEq => div lhs rhs
    | .percentEq => mod lhs rhs
    | .shlEq => shiftLeft lhs rhs
    | .shrEq => shiftRight lhs rhs
    | .andEq => lhs &&& rhs
    | .xorEq => lhs ^^^ rhs
    | .orEq => lhs ||| rhs
    | _ => rhs)

/--
`ParseAssign` once both sides are read.  A plain `=` never reads the old value,
and a compound operator reads it only after the right-hand side.
-/
def assignResult (op : TokenKind) (name : Text) (lhs rhs : IntMax) : Parse σ Value := do
  let old ← if op ≠ .assign then variableValue vars name else pure lhs
  let result ← applyAssign expression op old rhs
  assignVariable vars name result
  pure { value := result }

def parseAssign : Nat → Parse σ Value
  | 0 => throw .outOfFuel
  | fuel + 1 => do
      let lhs ← parseConditional vars expression (parseAssign fuel) (fuel + 1)
      if !isAssignOp (← peek) || lhs.lvalue.isEmpty then return lhs
      let op ← next
      let rhs ← parseAssign fuel -- right associative
      if !(← evaluating) then return {}
      assignResult vars expression op.kind lhs.lvalue lhs.value rhs.value

def run (fuel : Nat) : Parse σ IntMax := do
  let v ← parseAssign vars expression fuel
  if (← peek) ≠ .endToken then fail expression "expecting EOF"
  pure v.value

/-- The value or the failure, and the variables afterwards. -/
def evaluateArithmetic (store : σ) : Except Failure IntMax × σ :=
  let tokens := tokenize expression
  let (result, s) := (run vars expression (tokens.length + 1)).run.run { tokens, store }
  (result, s.store)

end

end Haisos.Hsh.Arithmetic
