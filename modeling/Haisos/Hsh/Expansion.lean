import Haisos.Hsh.Arithmetic.Evaluator
import Haisos.Hsh.Glob
import Haisos.Hsh.Variables
import Haisos.StateExcept
import Mathlib.Data.List.DropRight

/-!
# Expansion

`HshExpansion.cpp`: the walk over a word's parts, which turns them into fields
of marked characters, and the ways a walk is finished.  The engine's two mode
flags and its kind are put back by every method that changes them, so they are
arguments of the walk.
-/

namespace Haisos.Hsh

structure CommandSubstitutionResult where
  output : Text := []
  exitStatus : Int := 0
  deriving DecidableEq, Repr

/--
`IExpansionHost`, over any representation `ω` of what is outside the shell's
own state.
-/
structure Host (ω : Type) where
  runCommandSubstitution : Text → Nat → ShellState → ω →
    Except Failure CommandSubstitutionResult × ω
  pathnames : ω → PathnameSource

structure World (ω : Type) where
  state : ShellState
  outside : ω

abbrev Walk (ω : Type) := ExceptT Failure (StateM (World ω))

/-- A character of a field under construction, or the mark of a quoted string. -/
inductive Element where
  | char (ch : Char) (quoted splittable : Bool)
  | quoteMark
  deriving DecidableEq, Repr

/-- The fields a word walks into: those a hard break has ended, and the current one. -/
structure PendingFields where
  ended : List (List Element) := []
  current : List Element := []
  deriving DecidableEq, Repr

inductive ExpansionKind where
  | fields | string | assignment | pattern | hereDoc
  deriving DecidableEq, Repr

/-! ## Emission -/

namespace PendingFields

def fields (out : PendingFields) : List (List Element) := out.ended ++ [out.current]

def emitElements (out : PendingFields) (elements : List Element) : PendingFields :=
  { out with current := out.current ++ elements }

def emitChars (out : PendingFields) (text : Text) (quoted splittable : Bool) : PendingFields :=
  out.emitElements (text.map fun c => .char c quoted splittable)

def emitQuoteMark (out : PendingFields) : PendingFields := out.emitElements [.quoteMark]

def hardBreak (out : PendingFields) : PendingFields where
  ended := out.ended ++ [out.current]
  current := []

/-- `EmitValue`: quoted, after a quote mark, inside double quotes; splittable otherwise. -/
def emitValue (out : PendingFields) (inDoubleQuotes : Bool) (value : Text) : PendingFields :=
  if inDoubleQuotes then out.emitQuoteMark.emitChars value true false
  else out.emitChars value false true

end PendingFields

def Element.text : Element → Text
  | .char c _ _ => [c]
  | .quoteMark => []

/-- `PendingField::Text`. -/
def textOf (elements : List Element) : Text := elements.flatMap Element.text

/-! ## The shell's values -/

def tildeAllowed (kind : ExpansionKind) (inDoubleQuotes : Bool) : Bool :=
  kind != .hereDoc && !inDoubleQuotes

/-- IFS's value, or `" \t\n"` when it is unset. -/
def ifsOf (state : ShellState) : Text := (state.vars.get (text "IFS")).getD [' ', '\t', '\n']

/-- What hard breaks join with: the first character of IFS, nothing when it is empty. -/
def ifsSeparator (state : ShellState) : Text := (ifsOf state).take 1

/-- Joined as `FinishString`, `FinishPattern` and `"$*"` do. -/
def joinWith (separator : Text) (values : List Text) : Text := separator.intercalate values

structure Resolved where
  isSet : Bool := false
  values : List Text := []
  deriving DecidableEq, Repr

def positionalNumber (name : Text) : Nat :=
  name.foldl (fun n c => n * 10 + (c.toNat - '0'.toNat)) 0

def resolve (state : ShellState) (name : Text) : Resolved :=
  if name = ['@'] ∨ name = ['*'] then ⟨true, state.positional⟩
  else if name = ['#'] then ⟨true, [natText state.positional.length]⟩
  else if name = ['?'] then ⟨true, [intText state.lastExitStatus]⟩
  else if name = ['$'] then ⟨true, [natText state.shellPid]⟩
  else if name = ['-'] then ⟨true, [optionLetters state.options]⟩
  else if name = ['!'] then
    match state.lastBackgroundPid with
    | none => {}
    | some pid => ⟨true, [natText pid]⟩
  else if name ≠ [] ∧ name.all isDigit then
    match positionalNumber name with
    | 0 => ⟨true, [state.arg0]⟩
    | n + 1 =>
        match state.positional[n]? with
        | some value => ⟨true, [value]⟩
        | none => {}
  else
    match state.vars.get name with
    | some value => ⟨true, [value]⟩
    | none => {}

def Resolved.isNull (resolved : Resolved) : Bool :=
  !resolved.isSet || (resolved.values.length ≤ 1 && (resolved.values.headD []).isEmpty)

def removalFor : ParameterOp → PatternRemoval
  | .removeSmallestSuffix => .smallestSuffix
  | .removeLargestSuffix => .largestSuffix
  | .removeSmallestPrefix => .smallestPrefix
  | _ => .largestPrefix

/--
`EmitPositionalStyle`: how a parameter's value is emitted.  `"$@"` is each
parameter quoted, with hard breaks between them, `"$*"` their join as one
quoted value; unquoted, either has a hard break between consecutive values.
-/
def emitSeparately (inDoubleQuotes : Bool) (out : PendingFields) : List Text → PendingFields
  | [] => out
  | value :: values =>
      values.foldl (fun out value => out.hardBreak.emitValue inDoubleQuotes value)
        (out.emitValue inDoubleQuotes value)

def emitPositionalStyle (state : ShellState) (inDoubleQuotes : Bool) (name : Text)
    (values : List Text) (out : PendingFields) : PendingFields :=
  if name ≠ ['@'] ∧ name ≠ ['*'] then out.emitValue inDoubleQuotes (values.headD [])
  else if inDoubleQuotes ∧ name = ['*'] then
    out.emitValue true (joinWith (ifsSeparator state) values)
  else emitSeparately inDoubleQuotes out values

/-! ## Literals -/

/--
`TildePrefixEnd`, from the `~` on: up to the first `/` (or `:` in an
assignment's value), or all of it when it ends the word.
-/
def tildePrefixEnd (kind : ExpansionKind) (lastPart : Bool) (fromTilde : Text) : Option Nat :=
  match fromTilde.findIdx? fun c => c == '/' || (kind == .assignment && c == ':') with
  | some length => some length
  | none => if lastPart then some fromTilde.length else none

/-- The loop of `EmitLiteral`. -/
def emitLiteral (state : ShellState) (kind : ExpansionKind) (inOperand lastPart : Bool) :
    Bool → Text → PendingFields → PendingFields
  | _, [], out => out
  | tildePossible, c :: rest, out =>
      let home : Option Text :=
        if tildePossible ∧ c = '~' ∧ tildePrefixEnd kind lastPart (c :: rest) = some 1 then
          state.vars.get (text "HOME")
        else none
      match home with
      | some home =>
          emitLiteral state kind inOperand lastPart false rest (out.emitChars home true false)
      | none =>
          emitLiteral state kind inOperand lastPart (kind == .assignment && c == ':') rest
            (out.emitChars [c] false inOperand)

/-! ## Finishing -/

def finishString (state : ShellState) (out : PendingFields) : Text :=
  joinWith (ifsSeparator state) (out.fields.map textOf)

def patternText : Element → Text
  | .char c true _ => escapeForPattern [c]
  | .char c false _ => [c]
  | .quoteMark => []

def finishPattern (state : ShellState) (out : PendingFields) : Text :=
  joinWith (ifsSeparator state) (out.fields.map (·.flatMap patternText))

/-- White space of IFS that may be split at. -/
def splitsWhite (ifs : Text) : Element → Bool
  | .char c _ true => (c == ' ' || c == '\t' || c == '\n') && ifs.contains c
  | _ => false

/-- Any other character of IFS that may be split at. -/
def splitsNonWhite (ifs : Text) : Element → Bool
  | .char c _ true => !(c == ' ' || c == '\t' || c == '\n') && ifs.contains c
  | _ => false

/--
The loop of `SplitField`.  White space ends a field that has content; a
non-white delimiter ends one in any case, and takes the white space around it
with it.  `afterWhite` is set while the delimiter is still being passed and has
had no non-white character, `passing` while white space is.
-/
def splitLoop (ifs : Text) : Bool → Bool → List Element → Bool → List Element →
    List (List Element)
  | _, _, current, content, [] => if content then [current] else []
  | passing, afterWhite, current, content, element :: rest =>
      if passing ∧ splitsWhite ifs element then
        splitLoop ifs passing afterWhite current content rest
      else if afterWhite ∧ splitsNonWhite ifs element then
        splitLoop ifs true false current content rest
      else if element = .quoteMark then splitLoop ifs false false current true rest
      else if splitsWhite ifs element then
        (if content then [current] else []) ++ splitLoop ifs true true [] false rest
      else if splitsNonWhite ifs element then
        current :: splitLoop ifs true false [] false rest
      else splitLoop ifs false false (current ++ [element]) true rest

def splitField (ifs : Text) (field : List Element) : List (List Element) :=
  if ifs = [] then
    if field = [] then [] else [field.filter (· ≠ .quoteMark)]
  else splitLoop ifs true false [] false field

/-- `GlobPatternOf`. -/
def globPatternText : Element → Text
  | .char c true _ => if c = '/' then [c] else ['\\', c]
  | .char c false _ => if c = '\\' then ['\\', '\\'] else [c]
  | .quoteMark => []

def globPatternOf (elements : List Element) : Text := elements.flatMap globPatternText

def finishField (state : ShellState) (source : PathnameSource) (elements : List Element) :
    List Text :=
  if state.options.noglob then [textOf elements]
  else if hasPatternCharacters (globPatternOf elements) then
    match expandPathname (globPatternOf elements) source with
    | [] => [textOf elements]
    | paths => paths
  else [textOf elements]

def finishFields (state : ShellState) (source : PathnameSource) (out : PendingFields) :
    List Text :=
  (out.fields.flatMap (splitField (ifsOf state))).flatMap (finishField state source)

/-! ## The walk -/

section

variable {ω : Type} (host : Host ω)

def getState : Walk ω ShellState := do pure (← get).state

@[simp] theorem exec_getState (world : World ω) :
    StateExcept.exec getState world = (.ok world.state, world) := rfl

def setState (state : ShellState) : Walk ω Unit := modify fun world => { world with state }

def raise {α : Type} (message : Text) : Walk ω α := throw (.shellError { message })

/-- `m_host.RunCommandSubstitution`, with the trailing newlines taken off. -/
def commandSubstitution (source : Text) (line : Nat) : Walk ω Text := do
  let world ← get
  match host.runCommandSubstitution source line world.state world.outside with
  | (.ok result, outside) => do
      set ({ state := { world.state with lastExitStatus := result.exitStatus }, outside } : World ω)
      pure (result.output.rdropWhile (· == '\n'))
  | (.error failure, outside) => do
      set { world with outside }
      throw failure

/-- `ShellArithmeticVariables`: assigned variables are exported too under allexport. -/
def shellArithmeticVariables : Arithmetic.Variables ShellState where
  get state name := state.vars.get name
  set state name value :=
    (state.vars.set name value).map fun vars =>
      { state with vars := if state.options.allexport then vars.markExported name else vars }

def arithmeticValue (expression : Text) : Walk ω Text := do
  let state ← getState
  match Arithmetic.evaluateArithmetic shellArithmeticVariables expression state with
  | (.ok value, state) => do
      setState state
      pure (intText value.toInt)
  | (.error (.shellError message), state) => do
      setState state
      raise message
  | (.error .outOfFuel, _) => throw .outOfFuel

def checkNounset (name : Text) (resolved : Resolved) : Walk ω Unit := do
  if !resolved.isSet && (← getState).options.nounset && name ≠ ['@'] && name ≠ ['*'] then
    raise (name ++ text ": parameter not set")

/-- `${name:=word}`, once the word's value is known. -/
def assignDefault (name value : Text) : Walk ω Unit := do
  let state ← getState
  match shellArithmeticVariables.set state name value with
  | some state => setState state
  | none => raise (name ++ text ": is read only")

/-- A lone `"$@"` keeps no quote mark. -/
def onlyPlainAt : List WordPart → Bool
  | [.parameter ['@'] .none _] => true
  | _ => false

mutual

/-- `WalkWordInto`; `tildeHere`: a `~` at the start opens a tilde-prefix. -/
def walkWordInto (kind : ExpansionKind) (inDoubleQuotes inOperand tildeHere : Bool) :
    List WordPart → PendingFields → Walk ω PendingFields
  | [], out => pure out
  | part :: parts, out => do
      let out ← walkPart kind inDoubleQuotes inOperand tildeHere parts.isEmpty part out
      walkWordInto kind inDoubleQuotes inOperand false parts out

def walkPart (kind : ExpansionKind) (inDoubleQuotes inOperand atStart lastPart : Bool) :
    WordPart → PendingFields → Walk ω PendingFields
  | .literal text, out => do
      pure (emitLiteral (← getState) kind inOperand lastPart atStart text out)
  | .quoted text, out => pure (out.emitQuoteMark.emitChars text true false)
  | .doubleQuoted parts, out =>
      walkWordInto kind true inOperand false parts
        (if onlyPlainAt parts then out else out.emitQuoteMark)
  | .commandSubstitution source _ line, out => do
      let output ← commandSubstitution host source line
      pure (out.emitValue inDoubleQuotes output)
  | .arithmetic parts, out => do
      let expression ← walkWordInto kind inDoubleQuotes inOperand false parts {}
      let value ← arithmeticValue (finishString (← getState) expression)
      pure (out.emitValue inDoubleQuotes value)
  | .parameter name op operand, out => do
      let resolved := resolve (← getState) name
      let positional (values : List Text) : Walk ω PendingFields := do
        pure (emitPositionalStyle (← getState) inDoubleQuotes name values out)
      let tilde := tildeAllowed kind inDoubleQuotes
      match op with
      | .bad => raise (text "Bad substitution")
      | .none => do
          checkNounset name resolved
          positional resolved.values
      | .length => do
          checkNounset name resolved
          let length :=
            if name = ['@'] ∨ name = ['*'] then (joinWith [' '] resolved.values).length
            else (resolved.values.headD []).length
          pure (out.emitValue inDoubleQuotes (natText length))
      | .removeSmallestSuffix | .removeLargestSuffix | .removeSmallestPrefix
      | .removeLargestPrefix => do
          checkNounset name resolved
          -- The operand has its own quoting even inside double quotes.
          let sub ← walkWordInto kind false inOperand (tildeAllowed kind false) operand {}
          let pattern := finishPattern (← getState) sub
          positional (resolved.values.map fun value => removePattern value pattern (removalFor op))
      | .useDefault | .useDefaultIfUnset =>
          if !resolved.isSet || (op == .useDefault && resolved.isNull) then
            walkWordInto kind inDoubleQuotes (inOperand || !inDoubleQuotes) tilde operand out
          else positional resolved.values
      | .assignDefault | .assignDefaultIfUnset =>
          if !resolved.isSet || (op == .assignDefault && resolved.isNull) then do
            if !isValidShellName name then raise (name ++ text ": bad variable name")
            let sub ← walkWordInto .string inDoubleQuotes inOperand tilde operand {}
            let value := finishString (← getState) sub
            assignDefault name value
            pure (out.emitValue inDoubleQuotes value)
          else positional resolved.values
      | .errorIfNull | .errorIfUnset =>
          if !resolved.isSet || (op == .errorIfNull && resolved.isNull) then
            if operand.isEmpty then
              raise (name ++ text ": " ++
                (if op = .errorIfNull then text "parameter not set or null"
                else text "parameter not set"))
            else do
              let sub ← walkWordInto kind inDoubleQuotes inOperand tilde operand {}
              raise (name ++ text ": " ++ finishString (← getState) sub)
          else positional resolved.values
      | .useAlternative | .useAlternativeIfSet =>
          if resolved.isSet && (op == .useAlternativeIfSet || !resolved.isNull) then
            walkWordInto kind inDoubleQuotes (inOperand || !inDoubleQuotes) tilde operand out
          else pure out

end

def walkWord (kind : ExpansionKind) (parts : List WordPart) : Walk ω PendingFields :=
  walkWordInto host kind false false (tildeAllowed kind false) parts {}

/--
`WalkOperandToPattern`: a pattern operand has its own quoting even inside
double quotes.
-/
def walkOperandToPattern (kind : ExpansionKind) (inOperand : Bool) (operand : List WordPart) :
    Walk ω Text := do
  let sub ← walkWordInto host kind false inOperand (tildeAllowed kind false) operand {}
  pure (finishPattern (← getState) sub)

/-! ## The expander -/

def expandWord (word : Word) : Walk ω (List Text) := do
  let out ← walkWord host .fields word.parts
  let world ← get
  pure (finishFields world.state (host.pathnames world.outside) out)

def expandWords (words : List Word) : Walk ω (List Text) := do
  pure (← words.mapM (expandWord host)).flatten

def expandToKind (kind : ExpansionKind) (parts : List WordPart) : Walk ω Text := do
  let out ← walkWord host kind parts
  pure (finishString (← getState) out)

def expandAssignmentValue (value : Word) : Walk ω Text := expandToKind host .assignment value.parts

def expandToString (word : Word) : Walk ω Text := expandToKind host .string word.parts

def expandPattern (word : Word) : Walk ω Text := do
  let out ← walkWord host .pattern word.parts
  pure (finishPattern (← getState) out)

def expandHereDocument (hereDoc : HereDocument) : Walk ω Text :=
  if hereDoc.quoted then pure hereDoc.rawBody
  else expandToKind host .hereDoc hereDoc.body.parts

end

end Haisos.Hsh
