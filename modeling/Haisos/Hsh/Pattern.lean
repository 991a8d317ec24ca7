import Haisos.Hsh.Text
import Haisos.Wildcard

/-!
# Patterns

`HshPattern.cpp`: the matcher of `case`, of `${x#pattern}` and of pathname
expansion.  A position in the pattern is the rest of it; a scan that jumps
ahead counts the characters it still has to pass.
-/

namespace Haisos.Hsh

/-! ## Bracket expressions -/

/-- `pattern.find(":]")`: how far ahead the class name ends. -/
def classLength : Text → Option Nat
  | ':' :: ']' :: _ => some 0
  | _ :: rest => (classLength rest).map (· + 1)
  | [] => none

/-- How many characters after `c` belong to it: one it escapes, or the rest of a class. -/
def bracketSkip (c : Char) (rest : Text) : Option Nat :=
  if c = '\\' ∧ rest ≠ [] then some 1
  else if c = '[' ∧ rest.head? = some ':' then (classLength rest.tail).map (· + 3)
  else none

/-- The loop of `BracketEnd`: what stands before the closing `]`, and what after it. -/
def bracketScan : Nat → Text → Option (Text × Text)
  | _, [] => none
  | skip + 1, c :: rest => (bracketScan skip rest).map fun (inside, after) => (c :: inside, after)
  | 0, c :: rest =>
      if bracketSkip c rest = none ∧ c = ']' then some ([], rest)
      else (bracketScan ((bracketSkip c rest).getD 0) rest).map fun (inside, after) =>
        (c :: inside, after)

/--
`BracketEnd`, given what follows the `[`: a `!` and a `]` right at the start
are passed over.
-/
def bracketEnd (pattern : Text) : Option (Text × Text) :=
  let negation := if pattern.head? = some '!' then 1 else 0
  let first := if (pattern.drop negation).head? = some ']' then 1 else 0
  bracketScan (negation + first) pattern

def isAlpha (c : Char) : Bool := isUpper c || isLower c

/-- `isgraph` of the C locale. -/
def isGraph (c : Char) : Bool := '!' ≤ c && c ≤ '~'

/-- The `[:class:]` members; an unknown class matches nothing. -/
def classMatches (name : Text) (c : Char) : Bool :=
  if name = text "alnum" then isAlpha c || isDigit c
  else if name = text "alpha" then isAlpha c
  else if name = text "blank" then c == ' ' || c == '\t'
  else if name = text "cntrl" then c < ' ' || c == '\x7f'
  else if name = text "digit" then isDigit c
  else if name = text "graph" then isGraph c
  else if name = text "lower" then isLower c
  else if name = text "print" then c == ' ' || isGraph c
  else if name = text "punct" then isGraph c && !(isAlpha c || isDigit c)
  else if name = text "space" then isSpace c
  else if name = text "upper" then isUpper c
  else if name = text "xdigit" then isDigit c || 'a' ≤ c && c ≤ 'f' || 'A' ≤ c && c ≤ 'F'
  else false

inductive Member where
  | class (name : Text)
  | range (lo hi : Char)
  | single (c : Char)
  deriving DecidableEq, Repr

def Member.matches : Member → Char → Bool
  | .class name, ch => classMatches name ch
  | .range lo hi, ch => lo ≤ ch && ch ≤ hi
  | .single c, ch => c == ch

/-- A character, escaped or not, and how many characters it is written with. -/
def memberChar : Text → Option (Char × Nat)
  | [] => none
  | ['\\'] => some ('\\', 1)
  | '\\' :: c :: _ => some (c, 2)
  | c :: _ => some (c, 1)

def classAt : Text → Option Nat
  | '[' :: ':' :: rest => classLength rest
  | _ => none

/-- What `lo`, written with `length` characters, opens: a range when a `-` and an end follow. -/
def rangeFrom (lo : Char) (length : Nat) : Text → Member × Nat
  | '-' :: after =>
      match memberChar after with
      | some (hi, length') => (.range lo hi, length + 1 + length')
      | none => (.single lo, length)
  | _ => (.single lo, length)

/-- The member at the start, and how many characters it is written with. -/
def bracketMember (inside : Text) : Member × Nat :=
  match classAt inside with
  | some length => (.class ((inside.drop 2).take length), length + 4)
  | none =>
      match memberChar inside with
      | none => (.class [], 1)
      | some (lo, length) => rangeFrom lo length (inside.drop length)

def bracketMembers : Nat → Text → List Member
  | _, [] => []
  | skip + 1, _ :: rest => bracketMembers skip rest
  | 0, c :: rest =>
      let (member, length) := bracketMember (c :: rest)
      member :: bracketMembers (length - 1) rest

/-- `BracketMatches`, on what stands between the brackets. -/
def bracketMatches (inside : Text) (ch : Char) : Bool :=
  match inside with
  | '!' :: rest => !(bracketMembers 0 rest).any (·.matches ch)
  | _ => (bracketMembers 0 inside).any (·.matches ch)

/-! ## Matching -/

/--
What the pattern character `c`, not a `*`, accepts with what follows it, and
the rest of the pattern.
-/
def patternElement (c : Char) (rest : Text) : (Char → Bool) × Text :=
  if c = '?' then (fun _ => true, rest)
  else
    match c, rest with
    | '\\', d :: rest => (fun ch => ch == d, rest)
    | '[', rest =>
        match bracketEnd rest with
        | some (inside, after) => (bracketMatches inside, after)
        | none => (fun ch => ch == '[', rest)
    | c, rest => (fun ch => ch == c, rest)

/-- Back to the last `*`, which takes one character more. -/
def backtrack (run : Text → Text → Option (Text × Text) → Bool) : Option (Text × Text) → Bool
  | some (starAfter, _ :: starText) => run starAfter starText (some (starAfter, starText))
  | _ => false

/--
The loop of `MatchPattern`: two positions, and the places the last `*` left to
come back to.
-/
def matchLoop : Nat → Text → Text → Option (Text × Text) → Bool
  | 0, _, _, _ => false
  | _ + 1, pattern, [], _ => (pattern.dropWhile (· == '*')).isEmpty
  | fuel + 1, pattern, ch :: text, star =>
      match pattern with
      | [] => backtrack (matchLoop fuel) star
      | c :: rest =>
          if c = '*' then matchLoop fuel rest (ch :: text) (some (rest, ch :: text))
          else if (patternElement c rest).1 ch then
            matchLoop fuel (patternElement c rest).2 text star
          else backtrack (matchLoop fuel) star

def matchPattern (pattern text : Text) : Bool :=
  matchLoop ((pattern.length + 1) * (text.length + 1)) pattern text none

def hasPatternCharactersFrom : Nat → Text → Bool
  | _, [] => false
  | skip + 1, _ :: rest => hasPatternCharactersFrom skip rest
  | 0, c :: rest =>
      if c = '\\' ∧ rest ≠ [] then hasPatternCharactersFrom 1 rest
      else c = '*' || c = '?' || (c = '[' && (bracketEnd rest).isSome) ||
        hasPatternCharactersFrom 0 rest

def hasPatternCharacters (pattern : Text) : Bool := hasPatternCharactersFrom 0 pattern

def unescapePattern : Text → Text
  | '\\' :: c :: rest => c :: unescapePattern rest
  | c :: rest => c :: unescapePattern rest
  | [] => []

def escapeChar (c : Char) : Text :=
  if c = '\\' ∨ c = '*' ∨ c = '?' ∨ c = '[' then ['\\', c] else [c]

def escapeForPattern (text : Text) : Text := text.flatMap escapeChar

/-! ## Removal -/

inductive PatternRemoval where
  | smallestPrefix | largestPrefix | smallestSuffix | largestSuffix
  deriving DecidableEq, Repr

def PatternRemoval.ofPrefix : PatternRemoval → Bool
  | .smallestPrefix | .largestPrefix => true
  | _ => false

def PatternRemoval.smallest : PatternRemoval → Bool
  | .smallestPrefix | .smallestSuffix => true
  | _ => false

/-- `RemovePattern`: the lengths are tried from one end, and the first that matches is cut. -/
def removePattern (value pattern : Text) (which : PatternRemoval) : Text :=
  let n := value.length
  let piece (length : Nat) : Text :=
    if which.ofPrefix then value.take length else value.drop (n - length)
  let lengths := if which.smallest then List.range (n + 1) else (List.range (n + 1)).reverse
  match lengths.find? fun length => matchPattern pattern (piece length) with
  | none => value
  | some cut => if which.ofPrefix then value.drop cut else value.take (n - cut)

/-! ## Patterns as items -/

theorem bracketScan_length {skip : Nat} {pattern inside after : Text}
    (h : bracketScan skip pattern = some (inside, after)) :
    inside.length + after.length < pattern.length := by
  induction pattern generalizing skip inside with
  | nil => cases skip <;> simp [bracketScan] at h
  | cons c rest ih =>
      have hcons : ∀ skip, (bracketScan skip rest).map (fun (inside, after) =>
          (c :: inside, after)) = some (inside, after) →
          inside.length + after.length < (c :: rest).length := by
        intro skip h
        obtain ⟨⟨inside', after'⟩, h', heq⟩ := Option.map_eq_some_iff.mp h
        cases heq
        have := ih h'
        simp only [List.length_cons]
        omega
      cases skip with
      | succ skip => exact hcons skip h
      | zero =>
          simp only [bracketScan] at h
          split_ifs at h
          · cases h
            simp
          · exact hcons _ h

theorem patternElement_length (c : Char) (rest : Text) :
    (patternElement c rest).2.length ≤ rest.length := by
  unfold patternElement
  split_ifs
  · exact le_rfl
  · split
    · simp
    · split
      · rename_i inside after h
        have := bracketScan_length h
        simp only
        omega
      · exact le_rfl
    · exact le_rfl

/-- The items a pattern stands for. -/
def items : Text → List (Wildcard.Item Char)
  | [] => []
  | c :: rest =>
      if c = '*' then .any :: items rest
      else .one (patternElement c rest).1 :: items (patternElement c rest).2
termination_by pattern => pattern.length
decreasing_by
  · simp
  · have := patternElement_length c rest
    simp only [List.length_cons]
    omega

theorem items_nil : items [] = [] := by rw [items]

theorem items_star (rest : Text) : items ('*' :: rest) = .any :: items rest := by
  rw [items, if_pos rfl]

theorem items_element {c : Char} (h : c ≠ '*') (rest : Text) :
    items (c :: rest) = .one (patternElement c rest).1 :: items (patternElement c rest).2 := by
  rw [items, if_neg h]

theorem items_length_le (pattern : Text) : (items pattern).length ≤ pattern.length := by
  induction pattern using items.induct with
  | case1 => simp [items_nil]
  | case2 rest ih =>
      rw [items_star]
      simpa using ih
  | case3 c rest h ih =>
      have := patternElement_length c rest
      rw [items_element h]
      simp only [List.length_cons]
      omega

theorem all_isAny_items (pattern : Text) :
    (items pattern).all Wildcard.Item.isAny = (pattern.dropWhile (· == '*')).isEmpty := by
  induction pattern using items.induct with
  | case1 => simp [items_nil]
  | case2 rest ih => simp [items_star, Wildcard.Item.isAny, ih]
  | case3 c rest h ih => simp [items_element h, Wildcard.Item.isAny, h]

/-- The loop is the greedy matcher on the items. -/
theorem matchLoop_eq_greedy (fuel : Nat) (pattern text : Text) (star : Option (Text × Text)) :
    matchLoop fuel pattern text star =
      Wildcard.greedy fuel (items pattern) text (star.map fun (p, t) => (items p, t)) := by
  induction fuel generalizing pattern text star with
  | zero => rfl
  | succ fuel ih =>
      rcases text with _ | ⟨ch, text⟩
      · exact (all_isAny_items pattern).symm
      · have hretry : Wildcard.retry (Wildcard.greedy fuel)
            (star.map fun (p, t) => (items p, t)) = backtrack (matchLoop fuel) star := by
          rcases star with _ | ⟨p, _ | ⟨_, t⟩⟩
          · rfl
          · rfl
          · exact (ih p t (some (p, t))).symm
        rcases pattern with _ | ⟨c, rest⟩
        · rw [items_nil, Wildcard.greedy, hretry]
          rfl
        · by_cases hc : c = '*'
          · subst hc
            rw [items_star, matchLoop, Wildcard.greedy, if_pos rfl, ih]
            rfl
          · rw [items_element hc, matchLoop, Wildcard.greedy, if_neg hc, hretry, ih]

theorem matchPattern_iff {pattern text : Text} :
    matchPattern pattern text = true ↔ Wildcard.Matches (items pattern) text := by
  rw [matchPattern, matchLoop_eq_greedy, Option.map_none]
  exact Wildcard.greedy_eq_true_iff
    (Nat.mul_le_mul_right _ (Nat.succ_le_succ (items_length_le pattern)))

end Haisos.Hsh
