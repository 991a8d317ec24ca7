import Haisos.Hsh.Text

/-!
# Lines of a haisosfile

The scans of `HaisosFileParser.cpp`: comments are stripped from a line,
references are substituted, and what comes of it is split into tokens.  Each
scan has quotes of its own.  A scan that jumps ahead counts the characters it
still has to pass.
-/

namespace Haisos.HaisosFile

open Hsh (Text text natText)

def isBlank (c : Char) : Bool := c == ' ' || c == '\t'

def isQuote (c : Char) : Bool := c == '\'' || c == '"'

/-- What `Trim` takes off either end. -/
def isTrimmed (c : Char) : Bool := isBlank c || c == '\r' || c == '\n'

def trim (s : Text) : Text := ((s.dropWhile isTrimmed).reverse.dropWhile isTrimmed).reverse

/-- `text.find(c)`: what stands before the first `c`, and what after it. -/
def cut (c : Char) : Text → Option (Text × Text)
  | [] => none
  | d :: rest => if d = c then some ([], rest) else (cut c rest).map fun (b, a) => (d :: b, a)

def stripCommentFrom : Nat → Bool → Text → Text
  | _, _, [] => []
  | skip + 1, _, c :: rest => c :: stripCommentFrom skip (isBlank c) rest
  | 0, startsToken, c :: rest =>
      if startsToken && isQuote c then
        match cut c rest with
        | none => c :: rest
        | some (quoted, _) => c :: stripCommentFrom (quoted.length + 1) (isBlank c) rest
      else if startsToken && c == '#' then []
      else c :: stripCommentFrom 0 (isBlank c) rest

def stripComment (line : Text) : Text := stripCommentFrom 0 true line

abbrev Values := List (Text × Text)

/-- The loop of `Substitute`: the text, and the first reference that is not known. -/
def substituteFrom (values : Values) : Nat → Text → Text × Option Text
  | _, [] => ([], none)
  | skip + 1, _ :: rest => substituteFrom values skip rest
  | 0, c :: rest =>
      if c = '$' ∧ rest.head? = some '\x7b' then
        match cut '\x7d' rest.tail with
        | none => (c :: rest, none)
        | some (name, _) =>
            let (result, error) := substituteFrom values (name.length + 2) rest
            match values.lookup name with
            | some value => (value ++ result, error)
            | none =>
                (result, some (text "Unknown variable reference: $\x7b" ++ name ++ text "\x7d\n"))
      else
        let (result, error) := substituteFrom values 0 rest
        (c :: result, error)

def substitute (values : Values) (s : Text) : Text × Option Text := substituteFrom values 0 s

def lineError (lineNumber : Nat) (message : Text) : Text :=
  text "Error: line " ++ natText lineNumber ++ text ": " ++ message ++ text "\n"

def substituteOrFail (values : Values) (lineNumber : Nat) (s : Text) : Except Text Text :=
  match substitute values s with
  | (result, none) => .ok result
  | (_, some error) =>
      .error (text "Error: line " ++ natText lineNumber ++ text ": " ++ error)

/-- The loop of `SplitTokens`. -/
def splitTokensFrom (lineNumber : Nat) : Nat → Text → Except Text (List Text)
  | _, [] => .ok []
  | skip + 1, _ :: rest => splitTokensFrom lineNumber skip rest
  | 0, c :: rest =>
      if isBlank c then splitTokensFrom lineNumber 0 rest
      else if isQuote c then
        match cut c rest with
        | none =>
            .error (lineError lineNumber (text "unterminated " ++
              (if c = '"' then text "double" else text "single") ++ text "-quoted text: " ++
              c :: rest))
        | some (token, after) =>
            if after.head?.any fun d => !isBlank d then
              .error (lineError lineNumber
                (text "unexpected text right after the closing quote: " ++ c :: rest))
            else
              (splitTokensFrom lineNumber (token.length + 1) rest).map (token :: ·)
      else
        let token := c :: rest.takeWhile fun d => !isBlank d
        (splitTokensFrom lineNumber (token.length - 1) rest).map (token :: ·)

def splitTokens (lineNumber : Nat) (s : Text) : Except Text (List Text) :=
  splitTokensFrom lineNumber 0 s

/-- A line read on Windows still carries its `\r`. -/
def stripCarriageReturn (line : Text) : Text :=
  if line.getLast? = some '\r' then line.dropLast else line

end Haisos.HaisosFile
