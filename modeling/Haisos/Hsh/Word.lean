import Haisos.Hsh.Text

/-!
# Words

A word as the lexer reads it: parts in a tree, each keeping what is needed to
expand it later.
-/

namespace Haisos.Hsh

inductive ParameterOp where
  | none
  | length
  | useDefault | useDefaultIfUnset
  | assignDefault | assignDefaultIfUnset
  | errorIfNull | errorIfUnset
  | useAlternative | useAlternativeIfSet
  | removeSmallestSuffix | removeLargestSuffix
  | removeSmallestPrefix | removeLargestPrefix
  | bad
  deriving DecidableEq, Repr

inductive WordPart where
  | literal (text : Text)
  | quoted (text : Text)
  | doubleQuoted (parts : List WordPart)
  | parameter (name : Text) (op : ParameterOp) (operand : List WordPart)
  | commandSubstitution (text : Text) (backquoted : Bool) (line : Nat)
  | arithmetic (parts : List WordPart)
  deriving Repr

structure Word where
  parts : List WordPart := []
  source : Text := []
  line : Nat := 0
  deriving Repr

structure HereDocument where
  delimiter : Text := []
  quoted : Bool := false
  stripTabs : Bool := false
  rawBody : Text := []
  body : Word := {}
  complete : Bool := false
  terminated : Bool := false
  sourceBegin : Nat := 0
  sourceEnd : Nat := 0
  deriving Repr

/-- `LiteralText`: the text of a word made of unquoted literal text only. -/
def literalTextOf : List WordPart → Option Text
  | [] => some []
  | .literal text :: parts => (literalTextOf parts).map (text ++ ·)
  | _ :: _ => none

def Word.literalText (word : Word) : Option Text := literalTextOf word.parts

end Haisos.Hsh
