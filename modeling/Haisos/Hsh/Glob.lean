import Haisos.Hsh.Pattern
import Mathlib.Data.Char
import Mathlib.Data.List.Lex

/-!
# Pathname expansion

`HshGlob.cpp`, over a source that answers what exists and what a directory
holds.
-/

namespace Haisos.Hsh

structure DirectoryEntry where
  name : Text
  isDir : Bool
  deriving DecidableEq, Repr

/-- `IPathnameSource`. -/
structure PathnameSource where
  readDirectory : Text → List DirectoryEntry
  pathExists : Text → Bool

/-- The loop of `ComponentBracketEnd`: as `bracketScan`, but a `/` ends the search. -/
def componentBracketScan : Nat → Text → Option (Text × Text)
  | _, [] => none
  | skip + 1, c :: rest =>
      (componentBracketScan skip rest).map fun (inside, after) => (c :: inside, after)
  | 0, c :: rest =>
      if bracketSkip c rest = none ∧ c = '/' then none
      else if bracketSkip c rest = none ∧ c = ']' then some ([], rest)
      else (componentBracketScan ((bracketSkip c rest).getD 0) rest).map fun (inside, after) =>
        (c :: inside, after)

def componentBracketEnd (pattern : Text) : Option (Text × Text) :=
  let negation := if pattern.head? = some '!' then 1 else 0
  let first := if (pattern.drop negation).head? = some ']' then 1 else 0
  componentBracketScan (negation + first) pattern

/-- The loop of `SplitComponents`; the characters still to be passed go to `current`. -/
def splitComponentsFrom : Nat → Text → Text → List Text
  | _, current, [] => [current]
  | skip + 1, current, c :: rest => splitComponentsFrom skip (current ++ [c]) rest
  | 0, current, c :: rest =>
      if c = '\\' ∧ rest ≠ [] then splitComponentsFrom 1 (current ++ [c]) rest
      else
        match (if c = '[' then componentBracketEnd rest else none) with
        | some (inside, _) => splitComponentsFrom (inside.length + 1) (current ++ [c]) rest
        | none =>
            if c = '/' then current :: splitComponentsFrom 0 [] rest
            else splitComponentsFrom 0 (current ++ [c]) rest

def splitComponents (pattern : Text) : List Text := splitComponentsFrom 0 [] pattern

def directoryOf (pathPrefix : Text) : Text :=
  if pathPrefix = [] then ['.'] else if pathPrefix = ['/'] then ['/'] else pathPrefix.dropLast

def expandComponent (source : PathnameSource) (component : Text) (last : Bool)
    (prefixes : List Text) : List Text :=
  if !hasPatternCharacters component then
    let name := unescapePattern component
    if last then (prefixes.map (· ++ name)).filter source.pathExists
    else prefixes.map (· ++ name ++ ['/'])
  else
    let dotOk := component.head? = some '.' ∨ component.take 2 = ['\\', '.']
    prefixes.flatMap fun pathPrefix =>
      ((source.readDirectory (directoryOf pathPrefix)).filter fun entry =>
        (dotOk ∨ entry.name.head? ≠ some '.') && matchPattern component entry.name &&
          (last || entry.isDir)).map fun entry =>
            if last then pathPrefix ++ entry.name else pathPrefix ++ entry.name ++ ['/']

def expandComponents (source : PathnameSource) : List Text → List Text → List Text
  | [], prefixes => prefixes
  | component :: components, prefixes =>
      if prefixes = [] then []
      else expandComponents source components
        (expandComponent source component components.isEmpty prefixes)

def expandPathname (pattern : Text) (source : PathnameSource) : List Text :=
  let components := splitComponents pattern
  let paths :=
    if pattern.head? = some '/' then expandComponents source components.tail [['/']]
    else expandComponents source components [[]]
  paths.mergeSort fun a b => decide (a ≤ b)

end Haisos.Hsh
