import Haisos.Filesystem.Status
import Haisos.Hsh.Shell.Builtins

/-!
# `test`

`HshBuiltinTest.cpp`: the reductions by the number of operands, the lexer whose
operators read as operands where nothing else fits, and the descent over its
tokens.  What the number of operands prescribes is told beside it, and the two
are compared for every list of at most four.
-/

namespace Haisos.Hsh.Shell

open Filesystem (FileStatus FileDateTime)
open StateExcept

/-! ## Operators -/

inductive TestToken where
  | end | fileRead | fileWrite | fileExec | fileExists | fileRegular | fileDirectory
  | fileCharDevice | fileBlockDevice | fileFifo | fileSocket | fileSymlink | fileNonEmpty
  | fileTerminal | fileSetUid | fileSetGid | fileSticky | fileNewer | fileOlder | fileEqual
  | fileOwnerUid | fileOwnerGid | stringEmpty | stringNotEmpty | stringEqual | stringNotEqual
  | stringLess | stringGreater | intEqual | intNotEqual | intGreaterEqual | intGreater
  | intLessEqual | intLess | not | and | or | openParen | closeParen | operand
  deriving DecidableEq, Repr

inductive TestOpType where
  | unary | binary | unaryNot | binaryLogical | paren
  deriving DecidableEq, Repr

structure TestOp where
  text : Text
  token : TestToken
  type : TestOpType
  deriving DecidableEq, Repr

/-- `kTestOps`, in its own order. -/
def testOps : List TestOp :=
  [⟨['-', 'r'], .fileRead, .unary⟩, ⟨['-', 'w'], .fileWrite, .unary⟩,
    ⟨['-', 'x'], .fileExec, .unary⟩, ⟨['-', 'e'], .fileExists, .unary⟩,
    ⟨['-', 'f'], .fileRegular, .unary⟩, ⟨['-', 'd'], .fileDirectory, .unary⟩,
    ⟨['-', 'c'], .fileCharDevice, .unary⟩, ⟨['-', 'b'], .fileBlockDevice, .unary⟩,
    ⟨['-', 'p'], .fileFifo, .unary⟩, ⟨['-', 'u'], .fileSetUid, .unary⟩,
    ⟨['-', 'g'], .fileSetGid, .unary⟩, ⟨['-', 'k'], .fileSticky, .unary⟩,
    ⟨['-', 's'], .fileNonEmpty, .unary⟩, ⟨['-', 't'], .fileTerminal, .unary⟩,
    ⟨['-', 'z'], .stringEmpty, .unary⟩, ⟨['-', 'n'], .stringNotEmpty, .unary⟩,
    ⟨['-', 'h'], .fileSymlink, .unary⟩, ⟨['-', 'O'], .fileOwnerUid, .unary⟩,
    ⟨['-', 'G'], .fileOwnerGid, .unary⟩, ⟨['-', 'L'], .fileSymlink, .unary⟩,
    ⟨['-', 'S'], .fileSocket, .unary⟩, ⟨['='], .stringEqual, .binary⟩,
    ⟨['!', '='], .stringNotEqual, .binary⟩, ⟨['<'], .stringLess, .binary⟩,
    ⟨['>'], .stringGreater, .binary⟩, ⟨['-', 'e', 'q'], .intEqual, .binary⟩,
    ⟨['-', 'n', 'e'], .intNotEqual, .binary⟩, ⟨['-', 'g', 'e'], .intGreaterEqual, .binary⟩,
    ⟨['-', 'g', 't'], .intGreater, .binary⟩, ⟨['-', 'l', 'e'], .intLessEqual, .binary⟩,
    ⟨['-', 'l', 't'], .intLess, .binary⟩, ⟨['-', 'n', 't'], .fileNewer, .binary⟩,
    ⟨['-', 'o', 't'], .fileOlder, .binary⟩, ⟨['-', 'e', 'f'], .fileEqual, .binary⟩,
    ⟨['!'], .not, .unaryNot⟩, ⟨['-', 'a'], .and, .binaryLogical⟩,
    ⟨['-', 'o'], .or, .binaryLogical⟩, ⟨['('], .openParen, .paren⟩,
    ⟨[')'], .closeParen, .paren⟩]

def lookupOp (operand : Text) : Option TestOp := testOps.find? (·.text = operand)

/-! ## Primaries -/

/-- What the primaries ask of the shell, in the state `test` runs in. -/
structure TestHost where
  stat : Text → Option FileStatus
  resolvePath : Text → Text
  isTerminal : Nat → Bool

def TestHost.exists (host : TestHost) (path : Text) : Bool := (host.stat path).isSome

/-- A message that has been reported, for which the status is 2.  No fuel is the model's own. -/
inductive TestFailure where
  | syntaxError (message : Text)
  | outOfFuel
  deriving DecidableEq, Repr

def atomax10 (operand : Text) : Option Int :=
  let number := operand.dropWhile isBlank
  let negative := number.head? = some '-'
  let digits := if negative ∨ number.head? = some '+' then number.tail else number
  let value := (digits.takeWhile isDigit).foldl (fun value c => value * 10 + digitValue c) 0
  if (digits.takeWhile isDigit).isEmpty ∨ !(digits.dropWhile isDigit).all isBlank then none
  else if negative then if value ≤ 9223372036854775808 then some (-value) else none
  else if value ≤ 9223372036854775807 then some value else none

/-- `std::string`'s `operator<`. -/
def textLess : Text → Text → Bool
  | _, [] => false
  | [], _ :: _ => true
  | a :: first, b :: second => a.toNat < b.toNat || (a == b && textLess first second)

section

variable (host : TestHost) (command : Text)

def illegalNumber (operand : Text) : TestFailure :=
  .syntaxError (command ++ text ": Illegal number: " ++ operand)

def numberOf (operand : Text) : Except TestFailure Int :=
  match atomax10 operand with
  | some number => .ok number
  | none => .error (illegalNumber command operand)

def compareNumbers (relation : Int → Int → Bool) (operand1 operand2 : Text) :
    Except TestFailure Bool := do
  let number1 ← numberOf command operand1
  let number2 ← numberOf command operand2
  pure (relation number1 number2)

def compareTimes (relation : FileDateTime → FileDateTime → Bool) (operand1 operand2 : Text) :
    Bool :=
  match host.stat operand1, host.stat operand2 with
  | some a, some b => relation a.modificationTime b.modificationTime
  | _, _ => false

/-- The cases of `BinaryTest`. -/
def binaryTest (token : TestToken) (operand1 operand2 : Text) : Except TestFailure Bool :=
  match token with
  | .stringEqual => .ok (operand1 == operand2)
  | .stringNotEqual => .ok (operand1 != operand2)
  | .stringLess => .ok (textLess operand1 operand2)
  | .stringGreater => .ok (textLess operand2 operand1)
  | .intEqual => compareNumbers command (fun a b => a == b) operand1 operand2
  | .intNotEqual => compareNumbers command (fun a b => a != b) operand1 operand2
  | .intGreaterEqual => compareNumbers command (fun a b => decide (b ≤ a)) operand1 operand2
  | .intGreater => compareNumbers command (fun a b => decide (b < a)) operand1 operand2
  | .intLessEqual => compareNumbers command (fun a b => decide (a ≤ b)) operand1 operand2
  | .intLess => compareNumbers command (fun a b => decide (a < b)) operand1 operand2
  | .fileNewer => .ok (compareTimes host (fun a b => b.before a) operand1 operand2)
  | .fileOlder => .ok (compareTimes host (fun a b => a.before b) operand1 operand2)
  | .fileEqual =>
      .ok (host.exists operand1 && host.exists operand2 &&
        host.resolvePath operand1 == host.resolvePath operand2)
  | _ => .ok false

def unaryTest (token : TestToken) (operand : Text) : Except TestFailure Bool :=
  match token with
  | .stringEmpty => .ok operand.isEmpty
  | .stringNotEmpty => .ok !operand.isEmpty
  | .fileTerminal => do
      let fd ← numberOf command operand
      if fd < 0 ∨ (kMaxDescriptors : Int) ≤ fd then pure false
      else pure (host.isTerminal fd.toNat)
  | .fileSymlink => .ok false
  | .fileRead | .fileWrite | .fileExec | .fileOwnerUid | .fileOwnerGid => .ok (host.exists operand)
  | token =>
      match host.stat operand with
      | none => .ok false
      | some status =>
          match token with
          | .fileExists => .ok true
          | .fileRegular => .ok (status.type == .file)
          | .fileDirectory => .ok (status.type == .dir)
          | .fileCharDevice => .ok (status.type == .charDevice)
          | .fileNonEmpty => .ok (0 < status.size)
          | _ => .ok false

/-! ## The descent -/

def syntaxError (opText message : Text) : TestFailure :=
  .syntaxError (if opText.isEmpty then command ++ text ": " ++ message
    else command ++ text ": " ++ opText ++ text ": " ++ message)

/-- `m_pos` and `m_currentOp`. -/
structure TestPosition where
  pos : Nat
  currentOp : Option TestOp
  deriving DecidableEq, Repr

variable (operands : List Text)

/-- A word that must read as an operand: the last one, or one before a binary primary. -/
def isOperand (index : Nat) : Bool :=
  if operands.length ≤ index + 1 then true
  else if operands.length ≤ index + 2 then false
  else (lookupOp (operands.getD (index + 1) [])).any (·.type == .binary)

def lexTest (index : Nat) : TestToken × Option TestOp :=
  if operands.length ≤ index then (.end, none)
  else
    match lookupOp (operands.getD index []) with
    | none => (.operand, none)
    | some op =>
        if op.type = .unary ∧ isOperand operands index = true then (.operand, none)
        else if op.token = .openParen ∧ operands.length ≤ index + 1 then (.operand, none)
        else (op.token, some op)

mutual

def orExpression : Nat → TestToken → TestPosition → Except TestFailure (Bool × TestPosition)
  | 0, _, _ => .error .outOfFuel
  | fuel + 1, token, position => do
      let (first, position) ← andExpression fuel token position
      let (token, op) := lexTest operands (position.pos + 1)
      if token ≠ .or then pure (first, ⟨position.pos, op⟩)
      else
        let (token, op) := lexTest operands (position.pos + 2)
        let (others, position) ← orExpression fuel token ⟨position.pos + 2, op⟩
        pure (first || others, position)

def andExpression : Nat → TestToken → TestPosition → Except TestFailure (Bool × TestPosition)
  | 0, _, _ => .error .outOfFuel
  | fuel + 1, token, position => do
      let (first, position) ← notExpression fuel token position
      let (token, op) := lexTest operands (position.pos + 1)
      if token ≠ .and then pure (first, ⟨position.pos, op⟩)
      else
        let (token, op) := lexTest operands (position.pos + 2)
        let (others, position) ← andExpression fuel token ⟨position.pos + 2, op⟩
        pure (first && others, position)

def notExpression : Nat → TestToken → TestPosition → Except TestFailure (Bool × TestPosition)
  | 0, _, _ => .error .outOfFuel
  | fuel + 1, token, position =>
      if token ≠ .not then primary fuel token position
      else do
        let (token, op) := lexTest operands (position.pos + 1)
        let pos := if token ≠ .end then position.pos + 1 else position.pos
        let (value, position) ← notExpression fuel token ⟨pos, op⟩
        pure (!value, position)

def primary : Nat → TestToken → TestPosition → Except TestFailure (Bool × TestPosition)
  | 0, _, _ => .error .outOfFuel
  | fuel + 1, token, position =>
      if token = .end then pure (false, position)
      else if token = .openParen then do
        let (inner, op) := lexTest operands (position.pos + 1)
        if inner = .closeParen then pure (false, ⟨position.pos + 1, op⟩)
        else
          let (value, position) ← orExpression fuel inner ⟨position.pos + 1, op⟩
          let (closing, op) := lexTest operands (position.pos + 1)
          if closing ≠ .closeParen then
            throw (syntaxError command [] (text "closing paren expected"))
          pure (value, ⟨position.pos + 1, op⟩)
      else
        match position.currentOp.filter (·.type == .unary) with
        | some op => do
            if operands.length ≤ position.pos + 1 then
              throw (syntaxError command op.text (text "argument expected"))
            let value ← unaryTest host command op.token (operands.getD (position.pos + 1) [])
            pure (value, ⟨position.pos + 1, some op⟩)
        | none => do
            let (_, middle) := lexTest operands (position.pos + 1)
            match middle.filter (·.type == .binary) with
            | some op => do
                if operands.length ≤ position.pos + 2 then
                  throw (syntaxError command op.text (text "argument expected"))
                let value ← binaryTest host command op.token (operands.getD position.pos [])
                  (operands.getD (position.pos + 2) [])
                pure (value, ⟨position.pos + 2, some op⟩)
            | none =>
                -- one operand: whether it is empty
                pure (!(operands.getD position.pos []).isEmpty, ⟨position.pos, middle⟩)

end

def evaluateTest (result : Bool) (first : TestToken × Option TestOp) : Except TestFailure Bool := do
  let (value, position) ←
    orExpression host command operands (4 * operands.length + 8) first.1 ⟨0, first.2⟩
  if position.pos + 1 < operands.length then
    throw (syntaxError command (operands.getD position.pos []) (text "unexpected operator"))
  pure (result ^^ value)

end

/-- `Run`: what the status becomes, as a bit, from what it is before the operands. -/
def runTest (host : TestHost) (command : Text) : Bool → List Text → Except TestFailure Bool
  | result, [] => .ok result
  | result, operand :: rest =>
      let operands := operand :: rest
      let operandToken := operands.length = 3 ∧
        (lookupOp (operands.getD 1 [])).any (·.type == .binary) = true
      if (operands.length = 3 ∨ operands.length = 4) ∧ ¬operandToken then
        if operand = ['('] ∧ operands.getLast? = some [')'] then
          evaluateTest host command rest.dropLast result (lexTest rest.dropLast 0)
        else if operand = ['!'] then runTest host command false rest
        else evaluateTest host command operands result (lexTest operands 0)
      else if operandToken then evaluateTest host command operands result (.operand, none)
      else evaluateTest host command operands result (lexTest operands 0)

/-- `BuiltinTest`: the message it reports, and the status. -/
def testStatus (host : TestHost) (command : Text) (operands : List Text) : Option Text × Int :=
  match runTest host command true operands with
  | .ok result => (none, if result then 1 else 0)
  | .error (.syntaxError message) => (some message, 2)
  | .error .outOfFuel => (none, 2)

def testResult (host : TestHost) : List Text → Option Text × Int
  | [] => (none, 2)
  | command :: arguments =>
      if command = ['['] then
        if (arguments.getLast?.bind List.head?) = some ']' then
          testStatus host command arguments.dropLast
        else (some (text "[: missing ]"), 2)
      else testStatus host command arguments

/-! ## What the number of operands prescribes -/

def unaryOp (operand : Text) : Option TestOp := (lookupOp operand).filter (·.type == .unary)

def binaryOp (operand : Text) : Option TestOp := (lookupOp operand).filter (·.type == .binary)

/--
A binary primary of two operands, if it is one.  Some editions of the standard
have `-a` and `-o` among them, and others leave them open.
-/
def binaryPrimary (host : TestHost) (command : Text) (connectives : Bool)
    (operand1 operator operand2 : Text) : Option (Except TestFailure Bool) :=
  match binaryOp operator with
  | some op => some (binaryTest host command op.token operand1 operand2)
  | none =>
      if connectives ∧ operator = ['-', 'a'] then some (.ok (operand1 ≠ [] && operand2 ≠ []))
      else if connectives ∧ operator = ['-', 'o'] then some (.ok (operand1 ≠ [] || operand2 ≠ []))
      else none

/-- The result that is prescribed for the operands, if one is. -/
def prescribed (host : TestHost) (command : Text) (connectives : Bool) :
    List Text → Option (Except TestFailure Bool)
  | [] => some (.ok false)
  | [a] => some (.ok (a ≠ []))
  | [a, b] =>
      if a = ['!'] then some (.ok (b = []))
      else (unaryOp a).map fun op => unaryTest host command op.token b
  | [a, b, c] =>
      match binaryPrimary host command connectives a b c with
      | some result => some result
      | none =>
          if a = ['!'] then (prescribed host command connectives [b, c]).map (·.map not)
          else if a = ['('] ∧ c = [')'] then some (.ok (b ≠ []))
          else none
  | [a, b, c, d] =>
      if a = ['!'] then (prescribed host command connectives [b, c, d]).map (·.map not)
      else if a = ['('] ∧ d = [')'] then prescribed host command connectives [b, c]
      else none
  | _ => none

def statusOf : Except TestFailure Bool → Int
  | .ok true => 0
  | .ok false => 1
  | .error _ => 2

/-! ## Reading back operators -/

theorem lookupOp_some {operand : Text} {op : TestOp} (h : lookupOp operand = some op) :
    op ∈ testOps ∧ op.text = operand :=
  ⟨List.mem_of_find?_eq_some h, by simpa using List.find?_some h⟩

theorem testOps_unary : ∀ op ∈ testOps, op.type = .unary →
    op.token ≠ .end ∧ op.token ≠ .not ∧ op.token ≠ .and ∧ op.token ≠ .or ∧
      op.token ≠ .openParen ∧ op.token ≠ .closeParen := by decide

theorem testOps_binary : ∀ op ∈ testOps, op.type = .binary → op.token ≠ .openParen := by decide

theorem testOps_paren : ∀ op ∈ testOps, op.token = .openParen → op.text = ['('] := by decide

theorem testOps_not : ∀ op ∈ testOps, op.token = .not → op.text = ['!'] := by decide

theorem testOps_end : ∀ op ∈ testOps, op.token ≠ .end := by decide

section

variable {host : TestHost} {command : Text} {operands : List Text} {index fuel : Nat}

theorem lexTest_past (h : operands.length ≤ index) : lexTest operands index = (.end, none) := by
  rw [lexTest, if_pos h]

/-- The last operand is no unary operator and opens nothing. -/
theorem lexTest_last (h : index + 1 = operands.length) :
    (lexTest operands index).1 ≠ .end ∧ (lexTest operands index).1 ≠ .openParen ∧
      (lexTest operands index).2.filter (·.type == .unary) = none ∧
      ((lexTest operands index).1 = .not → operands.getD index [] = ['!']) := by
  have hinside : ¬operands.length ≤ index := by omega
  have hoperand : isOperand operands index = true := by rw [isOperand, if_pos h.ge]
  rw [lexTest, if_neg hinside]
  cases hop : lookupOp (operands.getD index []) with
  | none => simp
  | some op =>
      obtain ⟨hmem, htext⟩ := lookupOp_some hop
      simp only [hoperand, and_true, h.ge]
      split_ifs with hunary hparen
      · simp
      · simp
      · refine ⟨testOps_end op hmem, hparen, by simpa using hunary, fun hnot => ?_⟩
        rw [← htext, testOps_not op hmem hnot]

theorem primary_operand {token : TestToken} {position : TestPosition} (hend : token ≠ .end)
    (hparen : token ≠ .openParen) (hop : position.currentOp.filter (·.type == .unary) = none)
    (hnext : (lexTest operands (position.pos + 1)).2.filter (·.type == .binary) = none) :
    primary host command operands (fuel + 1) token position =
      .ok (!(operands.getD position.pos []).isEmpty,
        ⟨position.pos, (lexTest operands (position.pos + 1)).2⟩) := by
  rw [primary, if_neg hend, if_neg hparen, hop]
  dsimp only
  rw [hnext]
  rfl

theorem notExpression_last (h : index + 1 = operands.length) :
    notExpression host command operands (fuel + 3) (lexTest operands index).1
        ⟨index, (lexTest operands index).2⟩ =
      .ok (!(operands.getD index []).isEmpty, ⟨index, none⟩) := by
  have hnext : lexTest operands (index + 1) = (.end, none) := lexTest_past h.ge
  obtain ⟨hend, hparen, hunary, hnot⟩ := lexTest_last h
  rw [notExpression]
  split_ifs with htoken
  · rw [primary_operand hend hparen hunary (by rw [hnext]; rfl), hnext]
  · rw [hnot (not_not.mp htoken)]
    dsimp only
    rw [hnext]
    rfl

theorem orExpression_of_not {token : TestToken} {position : TestPosition} {value : Bool}
    {op : Option TestOp}
    (h : notExpression host command operands fuel token position = .ok (value, ⟨index, op⟩))
    (hand : (lexTest operands (index + 1)).1 ≠ .and) (hor : (lexTest operands (index + 1)).1 ≠ .or) :
    orExpression host command operands (fuel + 2) token position =
      .ok (value, ⟨index, (lexTest operands (index + 1)).2⟩) := by
  have hfirst : andExpression host command operands (fuel + 1) token position =
      .ok (value, ⟨index, (lexTest operands (index + 1)).2⟩) := by
    rw [andExpression, h]
    exact if_pos hand
  rw [orExpression, hfirst]
  exact if_pos hor

theorem orExpression_of_not_error {token : TestToken} {position : TestPosition}
    {failure : TestFailure}
    (h : notExpression host command operands fuel token position = .error failure) :
    orExpression host command operands (fuel + 2) token position = .error failure := by
  have hfirst : andExpression host command operands (fuel + 1) token position =
      .error failure := by
    rw [andExpression, h]
    rfl
  rw [orExpression, hfirst]
  rfl

theorem evaluateTest_ok {result value : Bool} {first : TestToken × Option TestOp}
    {op : Option TestOp}
    (h : orExpression host command operands (4 * operands.length + 8) first.1 ⟨0, first.2⟩ =
      .ok (value, ⟨index, op⟩)) (hall : operands.length ≤ index + 1) :
    evaluateTest host command operands result first = .ok (result ^^ value) := by
  rw [evaluateTest, h]
  exact if_neg (by simpa using hall)

theorem evaluateTest_error {result : Bool} {first : TestToken × Option TestOp}
    {failure : TestFailure}
    (h : orExpression host command operands (4 * operands.length + 8) first.1 ⟨0, first.2⟩ =
      .error failure) :
    evaluateTest host command operands result first = .error failure := by
  rw [evaluateTest, h]
  rfl

end

/-! ## One, two and three operands -/

section

variable (host : TestHost) (command : Text) (result : Bool)

theorem evaluateTest_one (a : Text) :
    evaluateTest host command [a] result (lexTest [a] 0) = .ok (result ^^ !a.isEmpty) := by
  have hnot : notExpression host command [a] (7 + 3) (lexTest [a] 0).1 ⟨0, (lexTest [a] 0).2⟩ =
      .ok (!a.isEmpty, ⟨0, none⟩) := notExpression_last rfl
  have hnext : lexTest [a] 1 = (.end, none) := rfl
  exact evaluateTest_ok (orExpression_of_not hnot (by simp [hnext]) (by simp [hnext])) le_rfl

theorem evaluateTest_not (b : Text) :
    evaluateTest host command [['!'], b] result (lexTest [['!'], b] 0) =
      .ok (result ^^ b.isEmpty) := by
  have hend : (lexTest [['!'], b] 1).1 ≠ .end := (lexTest_last rfl).1
  have hlast : notExpression host command [['!'], b] (10 + 3) (lexTest [['!'], b] 1).1
      ⟨1, (lexTest [['!'], b] 1).2⟩ = .ok (!b.isEmpty, ⟨1, none⟩) := notExpression_last rfl
  have hnot : notExpression host command [['!'], b] (13 + 1) (lexTest [['!'], b] 0).1
      ⟨0, (lexTest [['!'], b] 0).2⟩ = .ok (b.isEmpty, ⟨1, none⟩) := by
    have hfirst : (lexTest [['!'], b] 0).1 = .not := rfl
    rw [notExpression, if_neg (not_not.mpr hfirst)]
    dsimp only
    rw [if_pos hend, hlast]
    exact congrArg (fun v => Except.ok (v, TestPosition.mk 1 none)) (Bool.not_not _)
  have hnext : lexTest [['!'], b] 2 = (.end, none) := rfl
  exact evaluateTest_ok (orExpression_of_not hnot (by simp [hnext]) (by simp [hnext])) le_rfl

theorem unaryOp_some {a : Text} {op : TestOp} (h : unaryOp a = some op) :
    lookupOp a = some op ∧ op.type = .unary ∧ op ∈ testOps := by
  obtain ⟨hlookup, htype⟩ := Option.filter_eq_some_iff.mp h
  exact ⟨hlookup, by simpa using htype, (lookupOp_some hlookup).1⟩

theorem binaryOp_some {a : Text} {op : TestOp} (h : binaryOp a = some op) :
    lookupOp a = some op ∧ op.type = .binary ∧ op ∈ testOps := by
  obtain ⟨hlookup, htype⟩ := Option.filter_eq_some_iff.mp h
  exact ⟨hlookup, by simpa using htype, (lookupOp_some hlookup).1⟩

/-- A unary operator reads as one where more than an operand, and no binary primary, follows. -/
theorem lexTest_unary {operands : List Text} {a : Text} {op : TestOp} (h : unaryOp a = some op)
    (hhead : operands.getD 0 [] = a) (hinside : 0 < operands.length)
    (hoperand : isOperand operands 0 = false) :
    lexTest operands 0 = (op.token, some op) := by
  obtain ⟨hlookup, htype, hmem⟩ := unaryOp_some h
  have hparen : op.token ≠ .openParen := (testOps_unary op hmem htype).2.2.2.2.1
  rw [lexTest, if_neg (by omega), hhead, hlookup]
  simp [hoperand, hparen]

theorem notExpression_unary {operands : List Text} {a b : Text} {op : TestOp}
    (h : unaryOp a = some op) (fuel : Nat) (hinside : 1 < operands.length)
    (hb : operands.getD 1 [] = b) :
    notExpression host command operands (fuel + 2) op.token ⟨0, some op⟩ =
      (unaryTest host command op.token b).map fun value => (value, ⟨1, some op⟩) := by
  obtain ⟨-, htype, hmem⟩ := unaryOp_some h
  obtain ⟨hend, hnot, -, -, hparen, -⟩ := testOps_unary op hmem htype
  have hfilter : (some op).filter (·.type == .unary) = some op := by simp [htype]
  rw [notExpression, if_pos hnot, primary, if_neg hend, if_neg hparen]
  dsimp only
  rw [hfilter]
  dsimp only
  rw [if_neg (by omega), hb]
  cases unaryTest host command op.token b <;> rfl

theorem evaluateTest_unary {a : Text} {op : TestOp} (h : unaryOp a = some op) (b : Text) :
    evaluateTest host command [a, b] result (lexTest [a, b] 0) =
      (unaryTest host command op.token b).map (result ^^ ·) := by
  have hfirst : lexTest [a, b] 0 = (op.token, some op) := lexTest_unary h rfl (by simp) rfl
  have hnot : notExpression host command [a, b] (12 + 2) op.token ⟨0, some op⟩ =
      (unaryTest host command op.token b).map fun value => (value, ⟨1, some op⟩) :=
    notExpression_unary host command h 12 (by simp) rfl
  have hnext : lexTest [a, b] 2 = (.end, none) := rfl
  rw [hfirst]
  cases hvalue : unaryTest host command op.token b with
  | error failure =>
      rw [hvalue] at hnot
      exact evaluateTest_error (orExpression_of_not_error hnot)
  | ok value =>
      rw [hvalue] at hnot
      exact evaluateTest_ok (orExpression_of_not hnot (by simp [hnext]) (by simp [hnext])) le_rfl

/-- A binary primary between two operands, however they are spelled. -/
theorem evaluateTest_binary {b : Text} {op : TestOp} (h : binaryOp b = some op) (a c : Text) :
    evaluateTest host command [a, b, c] result (.operand, none) =
      (binaryTest host command op.token a c).map (result ^^ ·) := by
  obtain ⟨hlookup, htype, hmem⟩ := binaryOp_some h
  have hmiddle : lexTest [a, b, c] 1 = (op.token, some op) := by
    rw [lexTest, if_neg (by simp)]
    simp [hlookup, htype, testOps_binary op hmem htype]
  have hbinary : (op.type == .binary) = true := by simp [htype]
  have hnot : notExpression host command [a, b, c] (16 + 2) .operand ⟨0, none⟩ =
      (binaryTest host command op.token a c).map fun value => (value, ⟨2, some op⟩) := by
    rw [notExpression, if_pos (by decide), primary, if_neg (by decide), if_neg (by decide)]
    dsimp only [Option.filter]
    rw [hmiddle]
    dsimp only
    rw [if_pos hbinary]
    dsimp only
    rw [if_neg (by simp), List.getD_cons_zero]
    change (do
      let value ← binaryTest host command op.token a c
      pure (value, TestPosition.mk 2 (some op))) = _
    cases binaryTest host command op.token a c <;> rfl
  have hnext : lexTest [a, b, c] 3 = (.end, none) := rfl
  cases hvalue : binaryTest host command op.token a c with
  | error failure =>
      rw [hvalue] at hnot
      exact evaluateTest_error (orExpression_of_not_error hnot)
  | ok value =>
      rw [hvalue] at hnot
      exact evaluateTest_ok (orExpression_of_not hnot (by simp [hnext]) (by simp [hnext])) le_rfl

/-! ## The reductions -/

theorem runTest_pair (a b : Text) :
    runTest host command result [a, b] =
      evaluateTest host command [a, b] result (lexTest [a, b] 0) := by
  rw [runTest]
  simp

theorem runTest_two {a b : Text} {prescription : Except TestFailure Bool} {connectives : Bool}
    (h : prescribed host command connectives [a, b] = some prescription) :
    runTest host command result [a, b] = prescription.map (result ^^ ·) := by
  rw [runTest_pair]
  rw [prescribed] at h
  split_ifs at h with ha
  · subst ha
    cases h
    rw [evaluateTest_not]
    cases b <;> rfl
  · obtain ⟨op, hop, rfl⟩ := Option.map_eq_some_iff.mp h
    exact evaluateTest_unary host command result hop b

theorem any_binary (b : Text) : (lookupOp b).any (·.type == .binary) = (binaryOp b).isSome := by
  rw [binaryOp]
  cases hop : lookupOp b with
  | none => rfl
  | some op => cases hbinary : (op.type == .binary) <;> simp [hbinary]

theorem runTest_binary {a b c : Text} {op : TestOp} (h : binaryOp b = some op) :
    runTest host command result [a, b, c] =
      (binaryTest host command op.token a c).map (result ^^ ·) := by
  rw [← evaluateTest_binary host command result h, runTest]
  simp [any_binary, h]

theorem runTest_not3 {a b : Text} (h : binaryOp a = none) :
    runTest host command result [['!'], a, b] = runTest host command false [a, b] := by
  rw [runTest]
  simp [any_binary, h]

theorem runTest_not4 (a b c : Text) :
    runTest host command result [['!'], a, b, c] = runTest host command false [a, b, c] := by
  rw [runTest]
  simp

theorem runTest_paren3 {b : Text} (h : binaryOp b = none) :
    runTest host command result [['('], b, [')']] = .ok (result ^^ !b.isEmpty) := by
  rw [← evaluateTest_one host command result b, runTest]
  simp [any_binary, h]

theorem runTest_paren4 (a b : Text) :
    runTest host command result [['('], a, b, [')']] = runTest host command result [a, b] := by
  rw [runTest_pair, runTest]
  simp

theorem runTest_three {a b c : Text} (h : binaryOp b = none) (ha : a ≠ ['!'])
    (hparen : ¬(a = ['('] ∧ c = [')'])) :
    runTest host command result [a, b, c] =
      evaluateTest host command [a, b, c] result (lexTest [a, b, c] 0) := by
  rw [runTest]
  simp [any_binary, h, ha, hparen]

/-! ## `-a` and `-o` between two operands -/

end

section

variable {host : TestHost} {command : Text} {operands : List Text} {index fuel : Nat}

theorem andExpression_of {token : TestToken} {position : TestPosition} {value : Bool}
    {op : Option TestOp}
    (h : notExpression host command operands fuel token position = .ok (value, ⟨index, op⟩)) :
    andExpression host command operands (fuel + 1) token position =
      if (lexTest operands (index + 1)).1 ≠ .and then
        .ok (value, ⟨index, (lexTest operands (index + 1)).2⟩)
      else
        (andExpression host command operands fuel (lexTest operands (index + 2)).1
          ⟨index + 2, (lexTest operands (index + 2)).2⟩).map fun r => (value && r.1, r.2) := by
  rw [andExpression, h]
  dsimp only [bind, Except.bind]
  split_ifs with hand
  · rfl
  · cases andExpression host command operands fuel (lexTest operands (index + 2)).1
      ⟨index + 2, (lexTest operands (index + 2)).2⟩ <;> rfl

theorem orExpression_of {token : TestToken} {position : TestPosition} {value : Bool}
    {op : Option TestOp}
    (h : andExpression host command operands fuel token position = .ok (value, ⟨index, op⟩)) :
    orExpression host command operands (fuel + 1) token position =
      if (lexTest operands (index + 1)).1 ≠ .or then
        .ok (value, ⟨index, (lexTest operands (index + 1)).2⟩)
      else
        (orExpression host command operands fuel (lexTest operands (index + 2)).1
          ⟨index + 2, (lexTest operands (index + 2)).2⟩).map fun r => (value || r.1, r.2) := by
  rw [orExpression, h]
  dsimp only [bind, Except.bind]
  split_ifs with hor
  · rfl
  · cases orExpression host command operands fuel (lexTest operands (index + 2)).1
      ⟨index + 2, (lexTest operands (index + 2)).2⟩ <;> rfl

theorem andExpression_end (h : operands.length ≤ index + 1) :
    andExpression host command operands (fuel + 3) .end ⟨index, none⟩ =
      .ok (false, ⟨index, none⟩) := by
  have hnot : notExpression host command operands (fuel + 2) .end ⟨index, none⟩ =
      .ok (false, ⟨index, none⟩) := by
    rw [notExpression, if_pos (by decide), primary, if_pos rfl]
    rfl
  rw [andExpression_of hnot, lexTest_past h]
  rfl

theorem orExpression_end (h : operands.length ≤ index + 1) :
    orExpression host command operands (fuel + 4) .end ⟨index, none⟩ =
      .ok (false, ⟨index, none⟩) := by
  rw [orExpression_of (andExpression_end h), lexTest_past h]
  rfl

theorem orExpression_beforeAnd {token : TestToken} {position : TestPosition} {value : Bool}
    {op : Option TestOp}
    (h : notExpression host command operands (fuel + 3) token position = .ok (value, ⟨index, op⟩))
    (hlast : index + 2 = operands.length) (hand : operands.getD (index + 1) [] = ['-', 'a']) :
    orExpression host command operands (fuel + 5) token position =
      .ok (false, ⟨index + 2, none⟩) := by
  have hlex : lexTest operands (index + 1) = (.and, some ⟨['-', 'a'], .and, .binaryLogical⟩) := by
    rw [lexTest, if_neg (by omega), hand]
    rfl
  have hfirst : andExpression host command operands (fuel + 4) token position =
      .ok (false, ⟨index + 2, none⟩) := by
    rw [andExpression_of h, hlex, lexTest_past hlast.ge, if_neg (by decide),
      andExpression_end (by omega)]
    simp [Except.map]
  rw [orExpression_of hfirst, lexTest_past (by omega)]
  rfl

theorem orExpression_beforeOr {token : TestToken} {position : TestPosition} {value : Bool}
    {op : Option TestOp}
    (h : notExpression host command operands (fuel + 3) token position = .ok (value, ⟨index, op⟩))
    (hlast : index + 2 = operands.length) (hor : operands.getD (index + 1) [] = ['-', 'o']) :
    orExpression host command operands (fuel + 5) token position =
      .ok (value, ⟨index + 2, none⟩) := by
  have hlex : lexTest operands (index + 1) = (.or, some ⟨['-', 'o'], .or, .binaryLogical⟩) := by
    rw [lexTest, if_neg (by omega), hor]
    rfl
  have hfirst : andExpression host command operands (fuel + 4) token position =
      .ok (value, ⟨index, some ⟨['-', 'o'], .or, .binaryLogical⟩⟩) := by
    rw [andExpression_of h, hlex]
    rfl
  rw [orExpression_of hfirst, hlex, lexTest_past hlast.ge, if_neg (by decide),
    orExpression_end (by omega)]
  simp [Except.map]

theorem testOps_connective : ∀ op ∈ testOps,
    (op.token = .and → op.text = ['-', 'a']) ∧ (op.token = .or → op.text = ['-', 'o']) ∧
      (op.token = .closeParen → op.text = [')']) := by decide

theorem lexTest_token (operands : List Text) (index : Nat) :
    ((lexTest operands index).1 = .and → operands.getD index [] = ['-', 'a']) ∧
      ((lexTest operands index).1 = .or → operands.getD index [] = ['-', 'o']) ∧
      ((lexTest operands index).1 = .closeParen → operands.getD index [] = [')']) := by
  rw [lexTest]
  split_ifs with hpast
  · simp
  cases hop : lookupOp (operands.getD index []) with
  | none => simp
  | some op =>
      obtain ⟨hmem, htext⟩ := lookupOp_some hop
      obtain ⟨hand, hor, hclose⟩ := testOps_connective op hmem
      dsimp only
      split_ifs with hunary hparen
      · simp
      · simp
      · rw [← htext]
        exact ⟨hand, hor, hclose⟩

/-- An operand that is neither negation nor a unary operator, and opens nothing. -/
theorem lexTest_plain (hinside : index < operands.length)
    (hnot : operands.getD index [] ≠ ['!']) (hunary : unaryOp (operands.getD index []) = none)
    (hparen : operands.getD index [] ≠ ['(']) :
    (lexTest operands index).1 ≠ .end ∧ (lexTest operands index).1 ≠ .openParen ∧
      (lexTest operands index).1 ≠ .not ∧
      (lexTest operands index).2.filter (·.type == .unary) = none := by
  rw [lexTest, if_neg (by omega)]
  cases hop : lookupOp (operands.getD index []) with
  | none => simp
  | some op =>
      obtain ⟨hmem, htext⟩ := lookupOp_some hop
      have htype : (op.type == .unary) = false := by
        rw [unaryOp, hop] at hunary
        simpa using hunary
      have hopen : op.token ≠ .openParen := by
        intro h
        exact hparen (htext.symm.trans (testOps_paren op hmem h))
      have hneg : op.token ≠ .not := by
        intro h
        exact hnot (htext.symm.trans (testOps_not op hmem h))
      have hnotUnary : op.type ≠ .unary := by simpa using htype
      dsimp only
      rw [if_neg (by simp [hnotUnary]), if_neg (by simp [hopen])]
      exact ⟨testOps_end op hmem, hopen, hneg, by simp [hnotUnary]⟩

end

/-- `-a` and `-o`. -/
def isConnective (operator : Text) : Prop := operator = ['-', 'a'] ∨ operator = ['-', 'o']

/-- What `-a`, or otherwise `-o`, makes of two operands. -/
def connected (operator a c : Text) : Bool :=
  if operator = ['-', 'a'] then a ≠ [] && c ≠ [] else a ≠ [] || c ≠ []

theorem connected_of_left {b a c : Text} (hb : isConnective b) (ha : a ≠ []) (hc : c ≠ []) :
    connected b a c = true := by
  rcases hb with rfl | rfl <;> simp [connected, ha, hc]

theorem connective_lex {operands : List Text} {index : Nat} {b : Text} (h : isConnective b)
    (hb : operands.getD index [] = b) (hinside : index < operands.length) :
    ∃ op : TestOp, lexTest operands index = (op.token, some op) ∧ op.type = .binaryLogical ∧
      op.token = if b = ['-', 'a'] then .and else .or := by
  rw [lexTest, if_neg (by omega), hb]
  rcases h with rfl | rfl
  · exact ⟨⟨['-', 'a'], .and, .binaryLogical⟩, rfl, rfl, rfl⟩
  · exact ⟨⟨['-', 'o'], .or, .binaryLogical⟩, rfl, rfl, rfl⟩

theorem not_isEmpty (a : Text) : (!a.isEmpty) = decide (a ≠ []) := by
  cases a <;> simp

section

variable (host : TestHost) (command : Text) (result : Bool)

theorem evaluateTest_connected {a b : Text} (hb : isConnective b) (hnot : a ≠ ['!'])
    (hunary : unaryOp a = none) (hparen : a ≠ ['(']) (c : Text) :
    evaluateTest host command [a, b, c] result (lexTest [a, b, c] 0) =
      .ok (result ^^ connected b a c) := by
  obtain ⟨op, hlex, htype, htoken⟩ : ∃ op : TestOp, lexTest [a, b, c] 1 = (op.token, some op) ∧
      op.type = .binaryLogical ∧ op.token = if b = ['-', 'a'] then .and else .or :=
    connective_lex hb rfl (by simp)
  obtain ⟨hend, hopen, hneg, hfilter⟩ : (lexTest [a, b, c] 0).1 ≠ .end ∧
      (lexTest [a, b, c] 0).1 ≠ .openParen ∧ (lexTest [a, b, c] 0).1 ≠ .not ∧
        (lexTest [a, b, c] 0).2.filter (·.type == .unary) = none :=
    lexTest_plain (by simp) hnot hunary hparen
  have hfirst : notExpression host command [a, b, c] (16 + 2) (lexTest [a, b, c] 0).1
      ⟨0, (lexTest [a, b, c] 0).2⟩ = .ok (!a.isEmpty, ⟨0, some op⟩) := by
    rw [notExpression, if_pos hneg, primary_operand hend hopen hfilter (by rw [hlex]; simp [htype]),
      hlex]
    rfl
  have hlast : ∀ fuel, notExpression host command [a, b, c] (fuel + 3) (lexTest [a, b, c] 2).1
      ⟨2, (lexTest [a, b, c] 2).2⟩ = .ok (!c.isEmpty, ⟨2, none⟩) := fun fuel =>
    notExpression_last rfl
  have hnext : lexTest [a, b, c] 3 = (.end, none) := rfl
  have hlastAnd : ∀ fuel, andExpression host command [a, b, c] (fuel + 4) (lexTest [a, b, c] 2).1
      ⟨2, (lexTest [a, b, c] 2).2⟩ = .ok (!c.isEmpty, ⟨2, none⟩) := by
    intro fuel
    rw [andExpression_of (hlast fuel), hnext]
    rfl
  have hlastOr : ∀ fuel, orExpression host command [a, b, c] (fuel + 5) (lexTest [a, b, c] 2).1
      ⟨2, (lexTest [a, b, c] 2).2⟩ = .ok (!c.isEmpty, ⟨2, none⟩) := by
    intro fuel
    rw [orExpression_of (hlastAnd fuel), hnext]
    rfl
  have hor : orExpression host command [a, b, c] (4 * [a, b, c].length + 8)
      (lexTest [a, b, c] 0).1 ⟨0, (lexTest [a, b, c] 0).2⟩ =
        .ok (connected b a c, ⟨2, none⟩) := by
    have hand := andExpression_of hfirst
    rw [hlex, htoken] at hand
    by_cases hba : b = ['-', 'a']
    · rw [if_pos hba, if_neg (by simp), hlastAnd 14] at hand
      refine (orExpression_of hand).trans ?_
      rw [hnext, connected, if_pos hba, ← not_isEmpty, ← not_isEmpty]
      rfl
    · rw [if_neg hba, if_pos (by simp)] at hand
      refine (orExpression_of hand).trans ?_
      rw [hlex, htoken, if_neg hba, if_neg (by simp), hlastOr 14, connected, if_neg hba,
        ← not_isEmpty, ← not_isEmpty]
      rfl
  exact evaluateTest_ok hor le_rfl

theorem evaluateTest_left {operands : List Text} {first : TestToken × Option TestOp} {index : Nat}
    {value : Bool} {op : Option TestOp}
    (h : orExpression host command operands (4 * operands.length + 8) first.1 ⟨0, first.2⟩ =
      .ok (value, ⟨index, op⟩)) (hleft : index + 1 < operands.length) :
    evaluateTest host command operands result first =
      .error (syntaxError command (operands.getD index []) (text "unexpected operator")) := by
  rw [evaluateTest, h]
  exact if_pos hleft

/-- A value that one more operand follows. -/
theorem evaluateTest_oneMore {operands : List Text} {first : TestToken × Option TestOp}
    {index : Nat} {value : Bool} {op : Option TestOp} {c : Text}
    (h : notExpression host command operands (4 * operands.length + 6) first.1 ⟨0, first.2⟩ =
      .ok (value, ⟨index, op⟩)) (hlast : index + 2 = operands.length)
    (hc : operands.getD (index + 1) [] = c) :
    (c = ['-', 'a'] → evaluateTest host command operands result first = .ok (result ^^ false)) ∧
      (c = ['-', 'o'] → evaluateTest host command operands result first = .ok (result ^^ value)) ∧
      (¬isConnective c → ∃ failure,
        evaluateTest host command operands result first = .error failure) := by
  refine ⟨fun hand => ?_, fun hor => ?_, fun hneither => ?_⟩
  · exact evaluateTest_ok (orExpression_beforeAnd h hlast (hc.trans hand)) (by omega)
  · exact evaluateTest_ok (orExpression_beforeOr h hlast (hc.trans hor)) (by omega)
  · obtain ⟨hand, hor, -⟩ := lexTest_token operands (index + 1)
    rw [hc] at hand hor
    refine ⟨_, evaluateTest_left host command result (orExpression_of_not h ?_ ?_) (by omega)⟩
    · exact fun h => hneither (.inl (hand h))
    · exact fun h => hneither (.inr (hor h))

/-- A connective where an operand is looked for, with one more operand after it. -/
theorem notExpression_connective {operands : List Text} {index : Nat} {b c : Text}
    (hb : isConnective b) (hoperand : operands.getD index [] = b)
    (hlast : index + 2 = operands.length) (hc : operands.getD (index + 1) [] = c) (fuel : Nat) :
    (isConnective c → ∃ op, notExpression host command operands (fuel + 2)
        (lexTest operands index).1 ⟨index, (lexTest operands index).2⟩ = .ok (true, ⟨index, op⟩)) ∧
      ((∃ failure, notExpression host command operands (fuel + 2) (lexTest operands index).1
          ⟨index, (lexTest operands index).2⟩ = .error failure) ∨
        ∃ op, notExpression host command operands (fuel + 2) (lexTest operands index).1
          ⟨index, (lexTest operands index).2⟩ = .ok (true, ⟨index, op⟩)) := by
  obtain ⟨op, hlex, htype, htoken⟩ := connective_lex hb hoperand (by omega)
  have hfilter : (some op).filter (·.type == .unary) = none := by simp [htype]
  have hstep : notExpression host command operands (fuel + 2) op.token ⟨index, some op⟩ =
      primary host command operands (fuel + 1) op.token ⟨index, some op⟩ := by
    rw [notExpression, if_pos]
    rw [htoken]
    split_ifs <;> decide
  have hend : op.token ≠ .end := by
    rw [htoken]
    split_ifs <;> decide
  have hopen : op.token ≠ .openParen := by
    rw [htoken]
    split_ifs <;> decide
  have hnonempty : (!(operands.getD index []).isEmpty) = true := by
    rw [hoperand]
    rcases hb with rfl | rfl <;> rfl
  rw [hlex, hstep]
  cases hmiddle : (lexTest operands (index + 1)).2.filter (·.type == .binary) with
  | none =>
      rw [primary_operand hend hopen hfilter hmiddle, hnonempty]
      exact ⟨fun _ => ⟨_, rfl⟩, .inr ⟨_, rfl⟩⟩
  | some binary =>
      refine ⟨fun hconnective => ?_, .inl ?_⟩
      · obtain ⟨other, hother, hlogical, -⟩ := connective_lex hconnective hc (by omega)
        rw [hother] at hmiddle
        obtain ⟨rfl, hbinary⟩ : other = binary ∧ binary.type = .binary := by simpa using hmiddle
        cases hlogical.symm.trans hbinary
      · rw [primary, if_neg hend, if_neg hopen, hfilter]
        dsimp only
        rw [hmiddle]
        dsimp only
        rw [if_pos (by omega)]
        exact ⟨_, rfl⟩

theorem evaluateTest_connectiveFirst {b c : Text} (hb : isConnective b) :
    (c = ['-', 'a'] →
        evaluateTest host command [b, c] result (lexTest [b, c] 0) = .ok (result ^^ false)) ∧
      (c = ['-', 'o'] →
        evaluateTest host command [b, c] result (lexTest [b, c] 0) = .ok (result ^^ true)) ∧
      (¬isConnective c → ∃ failure,
        evaluateTest host command [b, c] result (lexTest [b, c] 0) = .error failure) := by
  have hfirst : [b, c].getD 0 [] = b := rfl
  have hsecond : [b, c].getD (0 + 1) [] = c := rfl
  obtain ⟨hconnective, hany⟩ := notExpression_connective host command hb hfirst rfl hsecond 12
  rcases hany with ⟨failure, hfailure⟩ | ⟨op, hop⟩
  · refine ⟨fun hc => ?_, fun hc => ?_, fun _ => ?_⟩
    · obtain ⟨op, hop⟩ := hconnective (.inl hc)
      cases hfailure.symm.trans hop
    · obtain ⟨op, hop⟩ := hconnective (.inr hc)
      cases hfailure.symm.trans hop
    · exact ⟨failure, evaluateTest_error (orExpression_of_not_error hfailure)⟩
  · exact evaluateTest_oneMore host command result hop rfl rfl

/-- A unary primary is applied to the connective: its right side is never read. -/
theorem evaluateTest_unaryConnective {a b : Text} {op : TestOp} (hb : isConnective b)
    (ha : unaryOp a = some op) (c : Text) :
    evaluateTest host command [a, b, c] result (lexTest [a, b, c] 0) =
        .ok (result ^^ connected b a c) ↔
      c = ['-', 'o'] ∧ unaryTest host command op.token b = .ok true := by
  have ha' : a ≠ [] := by
    rintro rfl
    cases ha
  have hoperand : isOperand [a, b, c] 0 = false := by
    rw [isOperand, if_neg (by simp), if_neg (by simp)]
    rcases hb with rfl | rfl <;> rfl
  have hfirst : lexTest [a, b, c] 0 = (op.token, some op) := lexTest_unary ha rfl (by simp) hoperand
  have hnot : notExpression host command [a, b, c] (16 + 2) op.token ⟨0, some op⟩ =
      (unaryTest host command op.token b).map fun value => (value, ⟨1, some op⟩) :=
    notExpression_unary host command ha 16 (by simp) rfl
  rw [hfirst]
  cases hvalue : unaryTest host command op.token b with
  | error failure =>
      rw [hvalue] at hnot
      rw [evaluateTest_error (orExpression_of_not_error hnot)]
      simp
  | ok value =>
      replace hnot : notExpression host command [a, b, c] (4 * [a, b, c].length + 6)
          (op.token, some op).1 ⟨0, (op.token, some op).2⟩ = .ok (value, ⟨1, some op⟩) := by
        rw [hvalue] at hnot
        exact hnot
      have hlast : [a, b, c].getD (1 + 1) [] = c := rfl
      obtain ⟨hand, hor, hneither⟩ := evaluateTest_oneMore host command result hnot rfl hlast
      by_cases hca : c = ['-', 'a']
      · rw [hand hca, hca, connected_of_left hb ha' (by simp)]
        simp
      by_cases hco : c = ['-', 'o']
      · rw [hor hco, hco, connected_of_left hb ha' (by simp)]
        cases result <;> cases value <;> simp
      · obtain ⟨failure, hfailure⟩ := hneither (by simp [isConnective, hca, hco])
        rw [hfailure]
        simp [hco]

theorem orExpression_oneMore {operands : List Text} {index fuel : Nat} {token : TestToken}
    {position : TestPosition} {value : Bool} {op : Option TestOp}
    (h : notExpression host command operands (fuel + 3) token position = .ok (value, ⟨index, op⟩))
    (hlast : index + 2 = operands.length) :
    ∃ whole after rest, orExpression host command operands (fuel + 5) token position =
      .ok (whole, ⟨after, rest⟩) ∧ (after = index ∨ after = index + 2) := by
  by_cases hand : operands.getD (index + 1) [] = ['-', 'a']
  · exact ⟨_, _, _, orExpression_beforeAnd h hlast hand, .inr rfl⟩
  by_cases hor : operands.getD (index + 1) [] = ['-', 'o']
  · exact ⟨_, _, _, orExpression_beforeOr h hlast hor, .inr rfl⟩
  · obtain ⟨htokenAnd, htokenOr, -⟩ := lexTest_token operands (index + 1)
    exact ⟨_, _, _, orExpression_of_not h (fun h => hand (htokenAnd h)) fun h => hor (htokenOr h),
      .inl rfl⟩

theorem evaluateTest_unclosed {b c : Text} (hb : isConnective b) (hc : c ≠ [')']) :
    ∃ failure, evaluateTest host command [['('], b, c] result (lexTest [['('], b, c] 0) =
      .error failure := by
  have hparen : lexTest [['('], b, c] 0 = (.openParen, some ⟨['('], .openParen, .paren⟩) := rfl
  have hsecond : [['('], b, c].getD 1 [] = b := rfl
  have hthird : [['('], b, c].getD (1 + 1) [] = c := rfl
  obtain ⟨opb, hlex, -, htoken⟩ := connective_lex hb hsecond (by simp)
  have hinner : (lexTest [['('], b, c] 1).1 ≠ .closeParen := by
    rw [hlex]
    dsimp only
    rw [htoken]
    split_ifs <;> decide
  have hprimary : ∃ failure, primary host command [['('], b, c] 17 .openParen
      ⟨0, some ⟨['('], .openParen, .paren⟩⟩ = .error failure := by
    rw [primary, if_neg (by decide), if_pos rfl]
    dsimp only
    rw [if_neg hinner]
    rcases (notExpression_connective host command hb hsecond rfl hthird 12).2 with
      ⟨failure, hfailure⟩ | ⟨op, hop⟩
    · refine ⟨failure, ?_⟩
      rw [orExpression_of_not_error hfailure]
      rfl
    · obtain ⟨whole, after, rest, hor, hafter⟩ := orExpression_oneMore host command hop rfl
      have hclosing : (lexTest [['('], b, c] (after + 1)).1 ≠ .closeParen := by
        rcases hafter with rfl | rfl
        · exact fun h => hc ((lexTest_token [['('], b, c] 2).2.2 h)
        · rw [lexTest_past (by simp)]
          decide
      rw [hor]
      dsimp only [bind, Except.bind]
      rw [if_pos hclosing]
      exact ⟨_, rfl⟩
  obtain ⟨failure, hfailure⟩ := hprimary
  refine ⟨failure, evaluateTest_error (orExpression_of_not_error ?_)⟩
  rw [hparen]
  exact (if_pos (by decide)).trans hfailure

/-! ## Where the code follows the prescription -/

theorem binaryOp_connective {b : Text} (hb : isConnective b) : binaryOp b = none := by
  rcases hb with rfl | rfl <;> rfl

theorem unaryOp_connective {b : Text} (hb : isConnective b) : unaryOp b = none := by
  rcases hb with rfl | rfl <;> rfl

/--
The code takes the first operand for an operator before it sees the connective,
and what comes of it is not, by chance, the result.
-/
def misreadsConnective (chance a b c : Text) : Prop :=
  (a = ['!'] ∧ c ≠ chance) ∨ (a = ['('] ∧ c ≠ [')']) ∨
    ∃ op, unaryOp a = some op ∧
      ¬(c = ['-', 'o'] ∧ unaryTest host command op.token b = .ok true)

theorem runTest_connective_iff {a b c : Text} (hb : isConnective b) :
    runTest host command result [a, b, c] = .ok (result ^^ connected b a c) ↔
      ¬misreadsConnective host command (if result then ['-', 'a'] else ['-', 'o']) a b c := by
  have hbinary := binaryOp_connective hb
  by_cases hnot : a = ['!']
  · subst hnot
    obtain ⟨hand, hor, hneither⟩ := evaluateTest_connectiveFirst host command false hb (c := c)
    have hrun : runTest host command result [['!'], b, c] =
        evaluateTest host command [b, c] false (lexTest [b, c] 0) := by
      rw [runTest_not3 host command result hbinary, runTest_pair]
    have hunary : unaryOp ['!'] = none := rfl
    rw [hrun, misreadsConnective, hunary]
    by_cases hca : c = ['-', 'a']
    · rw [hand hca, hca, connected_of_left hb (by simp) (by simp)]
      cases result <;> simp
    by_cases hco : c = ['-', 'o']
    · rw [hor hco, hco, connected_of_left hb (by simp) (by simp)]
      cases result <;> simp
    · obtain ⟨failure, hfailure⟩ := hneither (by simp [isConnective, hca, hco])
      rw [hfailure]
      cases result <;> simp [hca, hco]
  by_cases hparen : a = ['(']
  · subst hparen
    have hunary : unaryOp ['('] = none := rfl
    rw [misreadsConnective, hunary]
    by_cases hc : c = [')']
    · rw [hc, runTest_paren3 host command result hbinary, not_isEmpty,
        connected_of_left hb (by simp) (by simp)]
      rcases hb with rfl | rfl <;> simp
    · obtain ⟨failure, hfailure⟩ := evaluateTest_unclosed host command result hb hc
      rw [runTest_three host command result hbinary hnot (by simp [hc]), hfailure]
      simp [hc]
  rw [runTest_three host command result hbinary hnot (by simp [hparen]), misreadsConnective]
  cases hunary : unaryOp a with
  | none =>
      rw [evaluateTest_connected host command result hb hnot hunary hparen]
      simp [hnot, hparen]
  | some op =>
      rw [evaluateTest_unaryConnective host command result hb hunary c]
      simp [hnot, hparen]

variable {host command} in
theorem status_iff {operands : List Text} {value : Bool} :
    (testStatus host command operands).2 = statusOf (.ok value) ↔
      runTest host command true operands = .ok (!value) := by
  rw [testStatus]
  cases hrun : runTest host command true operands with
  | ok result => cases result <;> cases value <;> simp [statusOf]
  | error failure => cases failure <;> cases value <;> simp [statusOf]

variable {host command} in
theorem status_of_run {operands : List Text} {prescription : Except TestFailure Bool}
    (h : runTest host command true operands = prescription.map (true ^^ ·)) :
    (testStatus host command operands).2 = statusOf prescription := by
  cases prescription with
  | ok value => exact status_iff.mpr (h.trans (by simp [Except.map]))
  | error failure =>
      rw [testStatus, h]
      cases failure <;> rfl

theorem except_map_not (prescription : Except TestFailure Bool) :
    (prescription.map not).map (result ^^ ·) = prescription.map ((!result) ^^ ·) := by
  cases prescription with
  | error failure => rfl
  | ok value => cases result <;> cases value <;> rfl

theorem binaryPrimary_connective {b : Text} (hb : isConnective b) (a c : Text) :
    binaryPrimary host command true a b c = some (.ok (connected b a c)) := by
  rw [binaryPrimary, binaryOp_connective hb]
  rcases hb with rfl | rfl <;> simp [connected]

theorem binaryPrimary_none {connectives : Bool} {b : Text} (hb : binaryOp b = none)
    (hconnective : ¬(connectives = true ∧ isConnective b)) (a c : Text) :
    binaryPrimary host command connectives a b c = none := by
  have hand : ¬(connectives = true ∧ b = ['-', 'a']) := fun h => hconnective ⟨h.1, .inl h.2⟩
  have hor : ¬(connectives = true ∧ b = ['-', 'o']) := fun h => hconnective ⟨h.1, .inr h.2⟩
  rw [binaryPrimary, hb]
  dsimp only
  rw [if_neg hand, if_neg hor]

/-- Three operands, unless two negations are reduced to one. -/
theorem runTest_prescribed {connectives : Bool} {a b c : Text}
    {prescription : Except TestFailure Bool}
    (h : prescribed host command connectives [a, b, c] = some prescription)
    (hconnective : ¬(connectives = true ∧ isConnective b))
    (honce : result = true ∨ a ≠ ['!'] ∨ binaryOp b ≠ none) :
    runTest host command result [a, b, c] = prescription.map (result ^^ ·) := by
  rw [prescribed] at h
  cases hb : binaryOp b with
  | some op =>
      have hprimary : binaryPrimary host command connectives a b c =
          some (binaryTest host command op.token a c) := by rw [binaryPrimary, hb]
      rw [hprimary] at h
      cases h
      exact runTest_binary host command result hb
  | none =>
      rw [binaryPrimary_none host command hb hconnective] at h
      dsimp only at h
      split_ifs at h with hnot hparen
      · obtain rfl : result = true := by simpa [hnot, hb] using honce
        obtain ⟨inner, hinner, rfl⟩ := Option.map_eq_some_iff.mp h
        rw [hnot, runTest_not3 host command true hb, runTest_two host command false hinner,
          except_map_not]
        rfl
      · obtain ⟨rfl, rfl⟩ := hparen
        cases h
        rw [runTest_paren3 host command result hb, not_isEmpty]
        rfl

/-- The operands on which the code does not give what is prescribed. -/
def misreads (connectives : Bool) : List Text → Prop
  | [a, b, c] =>
      connectives = true ∧ isConnective b ∧
        misreadsConnective host command ['-', 'a'] a b c
  | [n, a, b, c] =>
      n = ['!'] ∧
        ((a = ['!'] ∧ binaryOp b = none ∧
            ∃ value, prescribed host command connectives [b, c] = some (.ok value)) ∨
          (connectives = true ∧ isConnective b ∧
            misreadsConnective host command ['-', 'o'] a b c))
  | _ => False

/-- The status is the one that is prescribed, and one more `!` negates it. -/
def FollowsPrescription (connectives : Bool) (operands : List Text) : Prop :=
  (∀ prescription, prescribed host command connectives operands = some prescription →
      (testStatus host command operands).2 = statusOf prescription) ∧
    ∀ rest value, operands = ['!'] :: rest → rest ≠ [] →
      prescribed host command connectives rest = some (.ok value) →
        (testStatus host command operands).2 = statusOf (.ok !value)

theorem binaryOp_of_prescribed {connectives : Bool} {a b : Text}
    {prescription : Except TestFailure Bool}
    (h : prescribed host command connectives [a, b] = some prescription) : binaryOp a = none := by
  rw [prescribed] at h
  split_ifs at h with hnot
  · rw [hnot]
    rfl
  · obtain ⟨op, hop, -⟩ := Option.map_eq_some_iff.mp h
    obtain ⟨hlookup, htype, -⟩ := unaryOp_some hop
    rw [binaryOp, hlookup]
    simp [htype]

theorem prescribed_not {connectives : Bool} {rest : List Text} {value : Bool} (hrest : rest ≠ [])
    (hlength : rest.length ≤ 3)
    (h : prescribed host command connectives rest = some (.ok value)) :
    prescribed host command connectives (['!'] :: rest) = some (.ok !value) := by
  rcases rest with _ | ⟨a, _ | ⟨b, _ | ⟨c, _ | ⟨d, rest⟩⟩⟩⟩
  · exact absurd rfl hrest
  · have hvalue : decide (a ≠ []) = value := by simpa [prescribed] using h
    rw [← hvalue]
    simp [prescribed]
  · have hconnective : ¬(connectives = true ∧ isConnective a) := by
      rintro ⟨-, hconnective⟩
      rw [prescribed, unaryOp_connective hconnective] at h
      rcases hconnective with rfl | rfl <;> simp at h
    have hbinary : binaryOp a = none := binaryOp_of_prescribed host command h
    rw [prescribed, binaryPrimary_none host command hbinary hconnective]
    dsimp only
    rw [if_pos rfl, h]
    rfl
  · rw [prescribed, if_pos rfl, h]
    rfl
  · simp only [List.length_cons] at hlength
    omega

theorem prescribed_not3 {connectives : Bool} {b : Text} (hb : binaryOp b = none)
    (hconnective : ¬(connectives = true ∧ isConnective b)) (c : Text) :
    prescribed host command connectives [['!'], b, c] =
      (prescribed host command connectives [b, c]).map (·.map not) := by
  rw [prescribed.eq_4, binaryPrimary_none host command hb hconnective]
  exact if_pos rfl

theorem prescribed_not4 (connectives : Bool) (a b c : Text) :
    prescribed host command connectives [['!'], a, b, c] =
      (prescribed host command connectives [a, b, c]).map (·.map not) := by
  rw [prescribed.eq_5]
  exact if_pos rfl

variable {host command} in
theorem followsPrescription_iff_status {connectives : Bool} {operands : List Text}
    (hlength : operands.length ≤ 4) :
    FollowsPrescription host command connectives operands ↔
      ∀ prescription, prescribed host command connectives operands = some prescription →
        (testStatus host command operands).2 = statusOf prescription := by
  refine ⟨fun h => h.1, fun h => ⟨h, ?_⟩⟩
  rintro rest value rfl hrest hvalue
  simp only [List.length_cons] at hlength
  exact h _ (prescribed_not host command hrest (by omega) hvalue)

theorem follows_three (connectives : Bool) (a b c : Text) :
    FollowsPrescription host command connectives [a, b, c] ↔
      ¬misreads host command connectives [a, b, c] := by
  rw [followsPrescription_iff_status (by simp)]
  by_cases hconnective : connectives = true ∧ isConnective b
  · obtain ⟨rfl, hb⟩ := hconnective
    have hvalue : prescribed host command true [a, b, c] = some (.ok (connected b a c)) := by
      rw [prescribed, binaryPrimary_connective host command hb]
    have hiff := runTest_connective_iff host command true hb (a := a) (c := c)
    rw [Bool.true_xor, if_pos rfl, ← status_iff] at hiff
    simp only [hvalue, Option.some.injEq, forall_eq', misreads, hb, true_and, hiff]
  · have hnever : ¬misreads host command connectives [a, b, c] := fun h =>
      hconnective ⟨h.1, h.2.1⟩
    simp only [hnever, not_false_eq_true, iff_true]
    intro prescription h
    exact status_of_run (runTest_prescribed host command true h hconnective (.inl rfl))

/-- Two negations before a two-operand test: the second takes the place of the first. -/
theorem follows_twoNegations {connectives : Bool} {b c : Text} (hb : binaryOp b = none)
    (hconnective : ¬(connectives = true ∧ isConnective b)) :
    FollowsPrescription host command connectives [['!'], ['!'], b, c] ↔
      ¬∃ value, prescribed host command connectives [b, c] = some (.ok value) := by
  rw [followsPrescription_iff_status (by simp)]
  have hprescribed : prescribed host command connectives [['!'], ['!'], b, c] =
      (prescribed host command connectives [b, c]).map fun p => (p.map not).map not := by
    rw [prescribed_not4, prescribed_not3 host command hb hconnective, Option.map_map]
    rfl
  have hrun : runTest host command true [['!'], ['!'], b, c] =
      runTest host command false [b, c] := by
    rw [runTest_not4, runTest_not3 host command false hb]
  rw [hprescribed]
  constructor
  · rintro h ⟨value, hvalue⟩
    have hstatus := h (.ok value) (by rw [hvalue]; cases value <;> rfl)
    rw [status_iff, hrun, runTest_two host command false hvalue] at hstatus
    cases value <;> cases hstatus
  · intro hnone prescription h
    obtain ⟨inner, hinner, rfl⟩ := Option.map_eq_some_iff.mp h
    refine status_of_run ?_
    rw [hrun, runTest_two host command false hinner]
    cases inner with
    | ok value => exact absurd ⟨value, hinner⟩ hnone
    | error failure => rfl

theorem follows_four (connectives : Bool) (n a b c : Text) :
    FollowsPrescription host command connectives [n, a, b, c] ↔
      ¬misreads host command connectives [n, a, b, c] := by
  by_cases hn : n = ['!']
  swap
  · have hnever : ¬misreads host command connectives [n, a, b, c] := fun h => hn h.1
    rw [followsPrescription_iff_status (by simp)]
    simp only [hnever, not_false_eq_true, iff_true]
    intro prescription h
    rw [prescribed.eq_5, if_neg hn] at h
    split_ifs at h with hparen
    obtain ⟨rfl, rfl⟩ := hparen
    exact status_of_run ((runTest_paren4 ..).trans (runTest_two host command true h))
  subst hn
  by_cases hconnective : connectives = true ∧ isConnective b
  · obtain ⟨rfl, hb⟩ := hconnective
    have hvalue : prescribed host command true [['!'], a, b, c] =
        some (.ok !connected b a c) := by
      rw [prescribed_not4, prescribed.eq_4, binaryPrimary_connective host command hb]
      rfl
    have hiff := runTest_connective_iff host command false hb (a := a) (c := c)
    have hnone : prescribed host command true [b, c] = none := by
      rw [prescribed.eq_3, unaryOp_connective hb]
      rcases hb with rfl | rfl <;> rfl
    rw [Bool.false_xor, if_neg (by simp), ← runTest_not4 host command true] at hiff
    rw [followsPrescription_iff_status (by simp)]
    simp only [hvalue, Option.some.injEq, forall_eq', misreads, hb, true_and, hnone, reduceCtorEq,
      exists_false, and_false, false_or, status_iff, Bool.not_not, hiff]
  by_cases htwice : a = ['!'] ∧ binaryOp b = none
  · obtain ⟨rfl, hb⟩ := htwice
    rw [follows_twoNegations host command hb hconnective, misreads, ← and_assoc
      (a := connectives = true)]
    simp only [hb, hconnective, true_and, false_and, or_false]
  · have hnever : ¬misreads host command connectives [['!'], a, b, c] := by
      rintro ⟨-, ⟨ha, hb, -⟩ | ⟨hc, hb, -⟩⟩
      · exact htwice ⟨ha, hb⟩
      · exact hconnective ⟨hc, hb⟩
    rw [followsPrescription_iff_status (by simp)]
    simp only [hnever, not_false_eq_true, iff_true]
    intro prescription h
    rw [prescribed_not4] at h
    obtain ⟨inner, hinner, rfl⟩ := Option.map_eq_some_iff.mp h
    have honce : false = true ∨ a ≠ ['!'] ∨ binaryOp b ≠ none := by
      by_cases ha : a = ['!']
      · exact .inr (.inr fun hb => htwice ⟨ha, hb⟩)
      · exact .inr (.inl ha)
    refine status_of_run ?_
    rw [runTest_not4, runTest_prescribed host command false hinner hconnective honce,
      except_map_not]
    rfl

/--
For at most four operands the status follows the prescription on exactly those
that the code does not misread.
-/
theorem followsPrescription_iff (connectives : Bool) {operands : List Text}
    (hlength : operands.length ≤ 4) :
    FollowsPrescription host command connectives operands ↔
      ¬misreads host command connectives operands := by
  rcases operands with _ | ⟨a, _ | ⟨b, _ | ⟨c, _ | ⟨d, _ | ⟨e, rest⟩⟩⟩⟩⟩
  · rw [followsPrescription_iff_status hlength]
    simp only [misreads, not_false_eq_true, iff_true]
    intro prescription h
    rw [prescribed.eq_1] at h
    cases h
    rfl
  · rw [followsPrescription_iff_status hlength]
    simp only [misreads, not_false_eq_true, iff_true]
    intro prescription h
    rw [prescribed.eq_2] at h
    cases h
    have hrun : runTest host command true [a] = evaluateTest host command [a] true (lexTest [a] 0) := by
      rw [runTest]
      simp
    exact status_of_run (hrun.trans (by rw [evaluateTest_one, not_isEmpty]; rfl))
  · rw [followsPrescription_iff_status hlength]
    simp only [misreads, not_false_eq_true, iff_true]
    intro prescription h
    exact status_of_run (runTest_two host command true h)
  · exact follows_three host command connectives a b c
  · exact follows_four host command connectives a b c d
  · simp only [List.length_cons] at hlength
    omega

end

/-! ## The two commands -/

/-- `test`, or `[`. -/
def testName (bracket : Bool) : Text := if bracket then ['['] else text "test"

/-- The fields of a command with these operands. -/
def testFields (bracket : Bool) (operands : List Text) : List Text :=
  testName bracket :: (operands ++ if bracket then [[']']] else [])

theorem testResult_fields (host : TestHost) (bracket : Bool) (operands : List Text) :
    testResult host (testFields bracket operands) =
      testStatus host (testName bracket) operands := by
  cases bracket with
  | true => simp [testResult, testFields, testName]
  | false => simp [testResult, testFields, testName, text]

/-- The shell's builtins, with a `test` that asks a host. -/
def Knowledge.testing {ω D : Type} (knowledge : Knowledge ω D)
    (host : ProcessFiles ω D → TestHost) : Knowledge ω D :=
  { knowledge with test := fun fields files => testResult (host files) fields }

theorem builtinTest_status {ω D P : Type} {machine : Machine ω D P} {knowledge : Knowledge ω D}
    {host : ProcessFiles ω D → TestHost} {fields : List Text} {world after : World (Members ω D P)}
    {status : Int}
    (h : exec (builtinTest machine (knowledge.testing host) fields) world = (.ok status, after)) :
    status = (testResult (host world.outside.files) fields).2 := by
  have hmembers : exec (getMembers : Sh ω D P (Members ω D P)) world = (.ok world.outside, world) :=
    rfl
  rw [builtinTest, exec_bind_ok hmembers] at h
  dsimp only [Knowledge.testing] at h
  generalize testResult (host world.outside.files) fields = tested at h ⊢
  obtain ⟨message, result⟩ := tested
  cases message with
  | none =>
      cases h
      rfl
  | some message =>
      obtain ⟨-, reported, -, hpure⟩ := exec_bind_eq_ok.mp h
      cases hpure
      rfl

/--
`test` and `[` have the status that the number of their operands prescribes, and
an operand list negated has it negated, on exactly the operands that are not
misread; `-a` and `-o` between two operands may be taken for primaries or not.
-/
theorem test_followsPrescription_iff (host : TestHost) (bracket connectives : Bool)
    {operands : List Text} (hlength : operands.length ≤ 4) :
    testResult host (testFields bracket operands) =
        testStatus host (testName bracket) operands ∧
      (FollowsPrescription host (testName bracket) connectives operands ↔
        ¬misreads host (testName bracket) connectives operands) :=
  ⟨testResult_fields host bracket operands,
    followsPrescription_iff host (testName bracket) connectives hlength⟩

/-- A host without files. -/
def emptyTestHost : TestHost where
  stat _ := none
  resolvePath path := path
  isTerminal _ := false

/-- `test ! ! = a` is true, the second `!` being what `=` compares. -/
theorem test_followsPrescription_iff_negated :
    FollowsPrescription emptyTestHost (text "test") false [['!'], ['!'], ['='], ['a']] ∧
      testStatus emptyTestHost (text "test") [['!'], ['!'], ['='], ['a']] = (none, 0) := by
  have h := test_followsPrescription_iff emptyTestHost false false
    (by decide : [['!'], ['!'], ['='], ['a']].length ≤ 4)
  have hread : ¬misreads emptyTestHost (text "test") false [['!'], ['!'], ['='], ['a']] := by
    rintro ⟨-, ⟨-, hbinary, -⟩ | ⟨hconnectives, -⟩⟩
    · cases hbinary
    · cases hconnectives
  exact ⟨h.2.mpr hread, rfl⟩

/-- `test ! ! -n a` is false, and so is `test ! -n a`. -/
theorem test_twoNegations :
    prescribed emptyTestHost (text "test") false [['!'], ['!'], ['-', 'n'], ['a']] =
        some (.ok true) ∧
      (testResult emptyTestHost
        (testFields false [['!'], ['!'], ['-', 'n'], ['a']])).2 = 1 ∧
      (testResult emptyTestHost (testFields false [['!'], ['-', 'n'], ['a']])).2 = 1 ∧
      ¬FollowsPrescription emptyTestHost (text "test") false
        [['!'], ['!'], ['-', 'n'], ['a']] := by
  have hprescribed : prescribed emptyTestHost (text "test") false
      [['!'], ['!'], ['-', 'n'], ['a']] = some (.ok true) := by
    rw [prescribed_not4, prescribed_not3 _ _ rfl (by simp), prescribed.eq_3]
    rfl
  refine ⟨hprescribed, rfl, rfl, ?_⟩
  intro h
  cases h.1 _ hprescribed

end Haisos.Hsh.Shell
