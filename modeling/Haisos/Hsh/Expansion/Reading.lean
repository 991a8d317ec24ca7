import Haisos.Hsh.Expansion
import Haisos.Hsh.Pattern.Quoting
import Haisos.Hsh.Pattern.Removal

/-!
# The reading of a word

Which characters a word stands for in a state, and which of them are quoted,
part by part: text is quoted when it was written so, and the value of an
expansion when the expansion stands inside double quotes.  A pattern operand is
taken for what its own reading accepts.
-/

namespace Haisos.Hsh

open StateExcept

/-- A character with its quoting, or the place where the next of several parameters begins. -/
inductive Mark where
  | char (c : Char) (quoted : Bool)
  | next (quoted : Bool)
  deriving DecidableEq

def marksOf (quoted : Bool) (text : Text) : List Mark := text.map (.char · quoted)

/-- What is read, and what parameters are joined with: the first character of IFS. -/
structure Reading where
  separator : Text
  marks : List Mark

namespace Reading

def text (reading : Reading) : Text :=
  reading.marks.flatMap fun
    | .char c _ => [c]
    | .next _ => reading.separator

def pattern (reading : Reading) : Marked :=
  reading.marks.flatMap fun
    | .char c quoted => [(c, quoted)]
    | .next quoted => reading.separator.map (·, quoted)

def Accepts (reading : Reading) : Text → Prop := reading.pattern.Accepts

def joinsBare (reading : Reading) : Bool :=
  reading.marks.all fun mark =>
    mark != .next true || !reading.separator.any fun c => Marked.escapes (c, true)

def readsBack (reading : Reading) : Bool := reading.joinsBare && reading.pattern.readsBack

end Reading

/-! ## Text -/

/-- A `~` that is its whole stretch, or before a `/`, is the home directory, as if quoted. -/
def tildeMarks (home : Option Text) (ends : Bool) : Text → List Mark
  | '~' :: rest =>
      match home with
      | some home =>
          if rest.head? = some '/' ∨ rest = [] ∧ ends then marksOf true home ++ marksOf false rest
          else marksOf false ('~' :: rest)
      | none => marksOf false ('~' :: rest)
  | stretch => marksOf false stretch

/-- Text stretch by stretch; a tilde may open the first one `atStart`, and every later one. -/
def stretchMarks (home : Option Text) (lastPart : Bool) : Bool → List Text → List Mark
  | _, [] => []
  | atStart, stretch :: rest =>
      (if atStart then tildeMarks home (!rest.isEmpty || lastPart) stretch
      else marksOf false stretch) ++
        if rest.isEmpty then [] else .char ':' false :: stretchMarks home lastPart true rest

def literalMarks (home : Option Text) (kind : ExpansionKind) (atStart lastPart : Bool)
    (literal : Text) : List Mark :=
  stretchMarks home lastPart atStart
    (if kind = .assignment then literal.splitOn ':' else [literal])

/-! ## Parameters -/

/-- Inside double quotes `$*` is one value; several parameters follow one another otherwise. -/
def valueMarks (separator : Text) (quoted : Bool) (name : Text) (values : List Text) : List Mark :=
  if name = ['*'] ∧ quoted then marksOf true (joinWith separator values)
  else [Mark.next quoted].intercalate (values.map (marksOf quoted))

def ParameterOp.lacks : ParameterOp → Resolved → Bool
  | .useDefault, resolved | .assignDefault, resolved | .errorIfNull, resolved
  | .useAlternative, resolved => !resolved.isSet || resolved.isNull
  | _, resolved => !resolved.isSet

def Allowed (state : ShellState) (name : Text) : Prop :=
  (resolve state name).isSet ∨ state.options.nounset = false

def lengthOf (name : Text) (resolved : Resolved) : Nat :=
  if name = ['@'] ∨ name = ['*'] then (joinWith [' '] resolved.values).length
  else (resolved.values.headD []).length

def isRemoval (op : ParameterOp) : Prop :=
  op = .removeSmallestSuffix ∨ op = .removeLargestSuffix ∨
    op = .removeSmallestPrefix ∨ op = .removeLargestPrefix

section

variable {ω : Type} (host : Host ω) (language : Reading → Text → Prop)

mutual

/--
`PartReads kind quoted atStart lastPart part world marks operands world'`: the
part is read as the marks, with the pattern operands that were read on the way.
`quoted`: it stands inside double quotes.
-/
inductive PartReads : ExpansionKind → Bool → Bool → Bool → WordPart → World ω →
    List Mark → List Reading → World ω → Prop where
  | literal {kind quoted atStart lastPart literal world} :
      PartReads kind quoted atStart lastPart (.literal literal) world
        (literalMarks (world.state.vars.get (text "HOME")) kind atStart lastPart literal) [] world
  | quoted {kind quoted atStart lastPart written world} :
      PartReads kind quoted atStart lastPart (.quoted written) world (marksOf true written) [] world
  | doubleQuoted {kind quoted atStart lastPart parts world marks operands world'}
      (inner : WordReads kind true false parts world marks operands world') :
      PartReads kind quoted atStart lastPart (.doubleQuoted parts) world marks operands world'
  | commandSubstitution {kind quoted atStart lastPart source backquoted line world output world'}
      (run : exec (commandSubstitution host source line) world = (.ok output, world')) :
      PartReads kind quoted atStart lastPart (.commandSubstitution source backquoted line) world
        (marksOf quoted output) [] world'
  | arithmetic {kind quoted atStart lastPart parts world marks operands world' value world''}
      (inner : WordReads kind quoted false parts world marks operands world')
      (evaluated : exec (arithmeticValue (Reading.text ⟨ifsSeparator world'.state, marks⟩)) world' =
        (.ok value, world'')) :
      PartReads kind quoted atStart lastPart (.arithmetic parts) world (marksOf quoted value)
        operands world''
  | value {kind quoted atStart lastPart name operand world} (allowed : Allowed world.state name) :
      PartReads kind quoted atStart lastPart (.parameter name .none operand) world
        (valueMarks (ifsSeparator world.state) quoted name (resolve world.state name).values) [] world
  | length {kind quoted atStart lastPart name operand world} (allowed : Allowed world.state name) :
      PartReads kind quoted atStart lastPart (.parameter name .length operand) world
        (marksOf quoted (natText (lengthOf name (resolve world.state name)))) [] world
  | removal {kind quoted atStart lastPart name op operand world marks operands world' values}
      (hop : isRemoval op) (allowed : Allowed world.state name)
      -- The operand has its own quoting even inside double quotes.
      (inner : WordReads kind false (tildeAllowed kind false) operand world marks operands world')
      (removed : List.Forall₂ (fun value result =>
        Removes (language ⟨ifsSeparator world'.state, marks⟩) value (removalFor op) result)
        (resolve world.state name).values values) :
      PartReads kind quoted atStart lastPart (.parameter name op operand) world
        (valueMarks (ifsSeparator world'.state) quoted name values)
        (operands ++ [⟨ifsSeparator world'.state, marks⟩]) world'
  | present {kind quoted atStart lastPart name op operand world}
      (hop : (op = .useDefault ∨ op = .useDefaultIfUnset) ∨
        (op = .assignDefault ∨ op = .assignDefaultIfUnset) ∨ op = .errorIfNull ∨ op = .errorIfUnset)
      (present : op.lacks (resolve world.state name) = false) :
      PartReads kind quoted atStart lastPart (.parameter name op operand) world
        (valueMarks (ifsSeparator world.state) quoted name (resolve world.state name).values) [] world
  | useDefault {kind quoted atStart lastPart name op operand world marks operands world'}
      (hop : op = .useDefault ∨ op = .useDefaultIfUnset)
      (lacks : op.lacks (resolve world.state name) = true)
      (inner : WordReads kind quoted (tildeAllowed kind quoted) operand world marks operands world') :
      PartReads kind quoted atStart lastPart (.parameter name op operand) world marks operands world'
  | assignDefault {kind quoted atStart lastPart name op operand world marks operands world' world''}
      (hop : op = .assignDefault ∨ op = .assignDefaultIfUnset)
      (lacks : op.lacks (resolve world.state name) = true) (hname : isValidShellName name = true)
      (inner : WordReads .string quoted (tildeAllowed kind quoted) operand world marks operands
        world')
      (assigned : exec (assignDefault name (Reading.text ⟨ifsSeparator world'.state, marks⟩)) world' =
        (.ok ⟨⟩, world'')) :
      PartReads kind quoted atStart lastPart (.parameter name op operand) world
        (marksOf quoted (Reading.text ⟨ifsSeparator world'.state, marks⟩)) operands world''
  | useAlternative {kind quoted atStart lastPart name op operand world marks operands world'}
      (hop : op = .useAlternative ∨ op = .useAlternativeIfSet)
      (present : op.lacks (resolve world.state name) = false)
      (inner : WordReads kind quoted (tildeAllowed kind quoted) operand world marks operands world') :
      PartReads kind quoted atStart lastPart (.parameter name op operand) world marks operands world'
  | noAlternative {kind quoted atStart lastPart name op operand world}
      (hop : op = .useAlternative ∨ op = .useAlternativeIfSet)
      (lacks : op.lacks (resolve world.state name) = true) :
      PartReads kind quoted atStart lastPart (.parameter name op operand) world [] [] world

inductive WordReads : ExpansionKind → Bool → Bool → List WordPart → World ω →
    List Mark → List Reading → World ω → Prop where
  | nil {kind quoted atStart world} : WordReads kind quoted atStart [] world [] [] world
  | cons {kind quoted atStart part parts world marks operands world' marks' operands' world''}
      (first : PartReads kind quoted atStart parts.isEmpty part world marks operands world')
      (rest : WordReads kind quoted false parts world' marks' operands' world'') :
      WordReads kind quoted atStart (part :: parts) world (marks ++ marks') (operands ++ operands')
        world''

end

end

/-! ## Readings of the operands -/

section

variable {ω : Type} {host : Host ω} {language language' : Reading → Text → Prop}

mutual

/-- Only what is meant by the pattern operands matters of a language. -/
theorem PartReads.congr {kind : ExpansionKind} {quoted atStart lastPart : Bool} {part : WordPart}
    {world world' : World ω} {marks : List Mark} {operands : List Reading}
    (h : PartReads host language kind quoted atStart lastPart part world marks operands world')
    (hsame : ∀ reading ∈ operands, ∀ text, language reading text ↔ language' reading text) :
    PartReads host language' kind quoted atStart lastPart part world marks operands world' := by
  cases h with
  | literal => exact .literal
  | quoted => exact .quoted
  | doubleQuoted inner => exact .doubleQuoted (inner.congr hsame)
  | commandSubstitution run => exact .commandSubstitution run
  | arithmetic inner evaluated => exact .arithmetic (inner.congr hsame) evaluated
  | value allowed => exact .value allowed
  | length allowed => exact .length allowed
  | removal hop allowed inner removed =>
      refine .removal hop allowed
        (inner.congr fun reading h => hsame reading (List.mem_append_left _ h)) ?_
      exact removed.imp fun _ _ => (Removes.congr (hsame _ (by simp))).mp
  | present hop present => exact .present hop present
  | useDefault hop lacks inner => exact .useDefault hop lacks (inner.congr hsame)
  | assignDefault hop lacks hname inner assigned =>
      exact .assignDefault hop lacks hname (inner.congr hsame) assigned
  | useAlternative hop present inner => exact .useAlternative hop present (inner.congr hsame)
  | noAlternative hop lacks => exact .noAlternative hop lacks

theorem WordReads.congr {kind : ExpansionKind} {quoted atStart : Bool} {parts : List WordPart}
    {world world' : World ω} {marks : List Mark} {operands : List Reading}
    (h : WordReads host language kind quoted atStart parts world marks operands world')
    (hsame : ∀ reading ∈ operands, ∀ text, language reading text ↔ language' reading text) :
    WordReads host language' kind quoted atStart parts world marks operands world' := by
  cases h with
  | nil => exact .nil
  | cons first rest =>
      exact .cons (first.congr fun reading h => hsame reading (List.mem_append_left _ h))
        (rest.congr fun reading h => hsame reading (List.mem_append_right _ h))

end

end

end Haisos.Hsh
