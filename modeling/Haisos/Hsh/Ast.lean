import Haisos.Hsh.Word

/-!
# The command tree

`HshAst.h`.  The tree is over what a here-document redirection holds (`δ`) and
what a source text is (`τ`): a parse first holds document numbers and token
ranges, and is filled in when the command is complete.
-/

namespace Haisos.Hsh

inductive RedirectionKind where
  | input | output | outputClobber | append | readWrite
  | dupInput | dupOutput
  | hereDoc | hereString
  | outputAndError
  deriving DecidableEq, Repr

/-- `hereDoc` is set for the kind `hereDoc` only. -/
structure Redirection (δ : Type) where
  kind : RedirectionKind
  fd : Nat
  target : Word
  hereDoc : Option δ := none
  line : Nat := 0

structure Assignment where
  name : Text
  value : Word
  deriving Repr

inductive LoopKind where
  | whileLoop | untilLoop
  deriving DecidableEq, Repr

inductive AndOrOperator where
  | and | or
  deriving DecidableEq, Repr

/-- The words may be none (`x=1`, `>f`). -/
structure SimpleCommand (δ : Type) where
  assignments : List Assignment := []
  words : List Word := []
  redirections : List (Redirection δ) := []
  line : Nat := 0

mutual

inductive Command (δ τ : Type) where
  | simple (command : SimpleCommand δ)
  | compound (body : Compound δ τ) (redirections : List (Redirection δ)) (line : Nat)
  | functionDefinition (name : Text) (body : Command δ τ) (sourceText : τ) (line : Nat)

inductive Compound (δ τ : Type) where
  | braceGroup (body : List (ListItem δ τ))
  | subshell (body : List (ListItem δ τ))
  | ifCommand (branches : List (IfBranch δ τ)) (elseBody : Option (List (ListItem δ τ)))
  | loop (kind : LoopKind) (condition body : List (ListItem δ τ))
  | forCommand (var : Text) (words : Option (List Word)) (body : List (ListItem δ τ))
  | caseCommand (subject : Word) (items : List (CaseItem δ τ))

inductive IfBranch (δ τ : Type) where
  | mk (condition body : List (ListItem δ τ))

inductive CaseItem (δ τ : Type) where
  | mk (patterns : List Word) (body : List (ListItem δ τ))

/-- One or more commands, joined by `|`. -/
inductive Pipeline (δ τ : Type) where
  | mk (negated : Bool) (first : Command δ τ) (rest : List (Command δ τ)) (line : Nat)

/-- One or more pipelines, joined by `&&` and `||`. -/
inductive AndOrList (δ τ : Type) where
  | last (pipeline : Pipeline δ τ)
  | chain (pipeline : Pipeline δ τ) (operator : AndOrOperator) (rest : AndOrList δ τ)

inductive ListItem (δ τ : Type) where
  | mk (andOr : AndOrList δ τ) (background : Bool) (sourceText : τ)

end

abbrev CommandList (δ τ : Type) := List (ListItem δ τ)

namespace Pipeline

variable {δ τ : Type}

def negated : Pipeline δ τ → Bool
  | .mk negated _ _ _ => negated

def commands : Pipeline δ τ → List (Command δ τ)
  | .mk _ first rest _ => first :: rest

end Pipeline

namespace ListItem

variable {δ τ : Type}

def andOr : ListItem δ τ → AndOrList δ τ
  | .mk andOr _ _ => andOr

def background : ListItem δ τ → Bool
  | .mk _ background _ => background

def sourceText : ListItem δ τ → τ
  | .mk _ _ sourceText => sourceText

end ListItem

def CaseItem.body {δ τ : Type} : CaseItem δ τ → CommandList δ τ
  | .mk _ body => body

end Haisos.Hsh
