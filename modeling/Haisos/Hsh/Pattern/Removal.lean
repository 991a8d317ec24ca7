import Haisos.Hsh.Pattern.Grammar

/-!
# What a pattern is used for

`RemovePattern` cuts the shortest or the longest piece of its value that the
pattern accepts; a pattern without special characters accepts one text, and
`EscapeForPattern` makes such a pattern of any text.
-/

namespace Haisos.Hsh

/-! ## Removal -/

/-- `cut` is what `which` could take from the value, and `rest` what it would leave. -/
def PatternRemoval.Parts (which : PatternRemoval) (value cut rest : Text) : Prop :=
  value = if which.ofPrefix then cut ++ rest else rest ++ cut

def PatternRemoval.Prefers (which : PatternRemoval) (cut cut' : Text) : Prop :=
  if which.smallest then cut.length ≤ cut'.length else cut'.length ≤ cut.length

/-- The value without the piece of the language that comes first, or itself without any. -/
def Removes (language : Text → Prop) (value : Text) (which : PatternRemoval)
    (result : Text) : Prop :=
  (∃ cut, which.Parts value cut result ∧ language cut ∧
    ∀ cut' rest, which.Parts value cut' rest → language cut' → which.Prefers cut cut') ∨
  (result = value ∧ ∀ cut rest, which.Parts value cut rest → ¬language cut)

theorem Removes.congr {language language' : Text → Prop} (h : ∀ t, language t ↔ language' t)
    {value : Text} {which : PatternRemoval} {result : Text} :
    Removes language value which result ↔ Removes language' value which result := by
  simp [Removes, h]

theorem Removes.unique {language : Text → Prop} {value : Text} {which : PatternRemoval}
    {result result' : Text} (h : Removes language value which result)
    (h' : Removes language value which result') : result = result' := by
  rcases h with ⟨cut, hparts, hcut, hfirst⟩ | ⟨rfl, hnone⟩
  · rcases h' with ⟨cut', hparts', hcut', hfirst'⟩ | ⟨rfl, hnone⟩
    · have hle := hfirst cut' _ hparts' hcut'
      have hle' := hfirst' cut _ hparts hcut
      have hlength : cut.length = cut'.length := by
        unfold PatternRemoval.Prefers at hle hle'
        split_ifs at hle hle' <;> omega
      unfold PatternRemoval.Parts at hparts hparts'
      split_ifs at hparts hparts'
      · exact (List.append_inj (hparts.symm.trans hparts') hlength).2
      · exact (List.append_inj' (hparts.symm.trans hparts') hlength).1
    · exact absurd hcut (hnone _ _ hparts)
  · rcases h' with ⟨cut', hparts', hcut', -⟩ | ⟨rfl, -⟩
    · exact absurd hcut' (hnone _ _ hparts')
    · rfl

theorem find?_before {α : Type*} {before : α → α → Prop} {p : α → Bool} {xs : List α} {a : α}
    (hsorted : xs.Pairwise before) (hfind : xs.find? p = some a) {b : α} (hb : b ∈ xs)
    (hp : p b = true) : a = b ∨ before a b := by
  induction xs with
  | nil => cases hb
  | cons x xs ih =>
      rw [List.pairwise_cons] at hsorted
      rw [List.find?_cons] at hfind
      cases hx : p x with
      | true =>
          rw [hx] at hfind
          cases hfind
          rcases List.mem_cons.mp hb with rfl | hb
          · exact .inl rfl
          · exact .inr (hsorted.1 b hb)
      | false =>
          rw [hx] at hfind
          rcases List.mem_cons.mp hb with rfl | hb
          · rw [hx] at hp
            cases hp
          · exact ih hsorted.2 hfind hb

def PatternRemoval.piece (which : PatternRemoval) (value : Text) (length : Nat) : Text :=
  if which.ofPrefix then value.take length else value.drop (value.length - length)

def PatternRemoval.left (which : PatternRemoval) (value : Text) (length : Nat) : Text :=
  if which.ofPrefix then value.drop length else value.take (value.length - length)

def PatternRemoval.lengths (which : PatternRemoval) (n : Nat) : List Nat :=
  if which.smallest then List.range (n + 1) else (List.range (n + 1)).reverse

theorem PatternRemoval.parts_piece (which : PatternRemoval) (value : Text) (length : Nat) :
    which.Parts value (which.piece value length) (which.left value length) := by
  unfold Parts piece left
  split_ifs <;> simp

theorem PatternRemoval.piece_of_parts {which : PatternRemoval} {value cut rest : Text}
    (h : which.Parts value cut rest) :
    cut.length ≤ value.length ∧ which.piece value cut.length = cut := by
  unfold Parts at h
  unfold piece
  split_ifs at h ⊢ with hprefix <;> subst h <;> simp

theorem PatternRemoval.length_piece (which : PatternRemoval) {value : Text} {length : Nat}
    (h : length ≤ value.length) : (which.piece value length).length = length := by
  unfold piece
  split_ifs
  · simpa using h
  · rw [List.length_drop]
    omega

theorem PatternRemoval.mem_lengths {which : PatternRemoval} {n length : Nat} :
    length ∈ which.lengths n ↔ length ≤ n := by
  unfold lengths
  split_ifs <;> simp

theorem PatternRemoval.lengths_sorted (which : PatternRemoval) (n : Nat) :
    (which.lengths n).Pairwise fun a b => if which.smallest then a < b else b < a := by
  unfold lengths
  split_ifs
  · exact List.pairwise_lt_range
  · rw [List.pairwise_reverse]
    exact List.pairwise_lt_range

theorem removePattern_eq (value pattern : Text) (which : PatternRemoval) :
    removePattern value pattern which =
      match (which.lengths value.length).find? fun length =>
        matchPattern pattern (which.piece value length) with
      | none => value
      | some cut => which.left value cut := rfl

theorem removePattern_removes (value pattern : Text) (which : PatternRemoval) :
    Removes (matchPattern pattern · = true) value which (removePattern value pattern which) := by
  rw [removePattern_eq]
  cases hfind : (which.lengths value.length).find? fun length =>
      matchPattern pattern (which.piece value length) with
  | none =>
      refine .inr ⟨rfl, fun cut rest hparts hmatch => ?_⟩
      obtain ⟨hlength, hpiece⟩ := PatternRemoval.piece_of_parts hparts
      have := List.find?_eq_none.mp hfind cut.length (PatternRemoval.mem_lengths.mpr hlength)
      rw [hpiece] at this
      exact this hmatch
  | some length =>
      have hmem := PatternRemoval.mem_lengths.mp (List.mem_of_find?_eq_some hfind)
      have hmatch := List.find?_some hfind
      refine .inl ⟨_, which.parts_piece value length, hmatch, fun cut rest hparts hcut => ?_⟩
      obtain ⟨hlength, hpiece⟩ := PatternRemoval.piece_of_parts hparts
      have hfirst := find?_before (which.lengths_sorted value.length) hfind
        (PatternRemoval.mem_lengths.mpr hlength) (by rw [hpiece]; exact hcut)
      unfold PatternRemoval.Prefers
      rw [which.length_piece hmem]
      split_ifs at hfirst ⊢ <;> omega

/-! ## Patterns without special characters -/

theorem items_of_plain (pattern : Text) (h : hasPatternCharacters pattern = false) :
    items pattern = (unescapePattern pattern).map fun c => .one (· == c) := by
  unfold hasPatternCharacters at h
  induction hn : pattern.length using Nat.strong_induction_on generalizing pattern with
  | _ n ih =>
      subst hn
      rcases pattern with _ | ⟨c, rest⟩
      · rw [items_nil, unescapePattern, List.map_nil]
      · by_cases hescape : c = '\\' ∧ rest ≠ []
        · obtain ⟨rfl, hne⟩ := hescape
          obtain ⟨d, rest, rfl⟩ := List.exists_cons_of_ne_nil hne
          have hrest : hasPatternCharactersFrom 0 rest = false := by
            simpa [hasPatternCharactersFrom] using h
          rw [items_element (by decide), unescapePattern, List.map_cons,
            ← ih _ (by simp) rest hrest rfl]
          rfl
        · simp only [hasPatternCharactersFrom, if_neg hescape, Bool.or_eq_false_iff,
            decide_eq_false_iff_not, Bool.and_eq_false_iff] at h
          obtain ⟨⟨⟨hstar, hany⟩, hopen⟩, hrest⟩ := h
          have helement : patternElement c rest = (fun ch => ch == c, rest) := by
            unfold patternElement
            rw [if_neg hany]
            split
            · exact absurd ⟨rfl, List.cons_ne_nil _ _⟩ hescape
            · rcases hopen with hopen | hopen
              · exact absurd rfl hopen
              · rw [Option.isSome_eq_false_iff, Option.isNone_iff_eq_none] at hopen
                rw [hopen]
            · rfl
          have hunescape : unescapePattern (c :: rest) = c :: unescapePattern rest := by
            rw [unescapePattern]
            rintro d tail rfl rfl
            exact hescape ⟨rfl, List.cons_ne_nil _ _⟩
          rw [items_element hstar, helement, hunescape, List.map_cons,
            ← ih _ (by simp) rest hrest rfl]

theorem matchPattern_of_plain {pattern : Text} (h : hasPatternCharacters pattern = false)
    (value : Text) : matchPattern pattern value = true ↔ value = unescapePattern pattern := by
  rw [matchPattern_iff, items_of_plain pattern h]
  exact Wildcard.matches_literal_iff

theorem escapeForPattern_cons (c : Char) (rest : Text) :
    escapeForPattern (c :: rest) = escapeChar c ++ escapeForPattern rest := rfl

theorem hasPatternCharacters_escapeForPattern (value : Text) :
    hasPatternCharacters (escapeForPattern value) = false := by
  unfold hasPatternCharacters
  induction value with
  | nil => rfl
  | cons c rest ih =>
      rw [escapeForPattern_cons, escapeChar]
      split_ifs with h
      · simpa [hasPatternCharactersFrom] using ih
      · push Not at h
        simpa [hasPatternCharactersFrom, h] using ih

theorem unescapePattern_escapeForPattern (value : Text) :
    unescapePattern (escapeForPattern value) = value := by
  induction value with
  | nil => rfl
  | cons c rest ih =>
      rw [escapeForPattern_cons, escapeChar]
      split_ifs with h
      · simp [unescapePattern, ih]
      · push Not at h
        rw [List.singleton_append, unescapePattern, ih]
        rintro d tail rfl
        exact absurd rfl h.1

theorem matchPattern_escapeForPattern (literal value : Text) :
    matchPattern (escapeForPattern literal) value = true ↔ value = literal := by
  rw [matchPattern_of_plain (hasPatternCharacters_escapeForPattern literal),
    unescapePattern_escapeForPattern]

/-! ## All uses of one pattern -/

/-- The matcher and what is built on it go by the language of the pattern. -/
def PatternLaw (pattern : Text) : Prop :=
  (∀ value, matchPattern pattern value = true ↔ Grammar.Language pattern value) ∧
    (∀ value which,
      Removes (Grammar.Language pattern) value which (removePattern value pattern which)) ∧
    (hasPatternCharacters pattern = false →
      ∀ value, Grammar.Language pattern value ↔ value = unescapePattern pattern) ∧
    ∀ value, matchPattern (escapeForPattern pattern) value = true ↔ value = pattern

/-- A pattern does what its grammar says exactly when its ranges agree. -/
theorem patternLaw_iff (pattern : Text) : PatternLaw pattern ↔ Grammar.RangesAgree pattern := by
  rw [← Grammar.matchPattern_language_iff]
  constructor
  · intro h
    exact h.1
  · intro hlanguage
    refine ⟨hlanguage, fun value which => ?_, fun hplain value => ?_,
      matchPattern_escapeForPattern pattern⟩
    · rw [← Removes.congr hlanguage]
      exact removePattern_removes value pattern which
    · rw [← hlanguage]
      exact matchPattern_of_plain hplain value

/--
In `[a-[:digit:]]` the end of the expression is found past the class, but the
digits are no members.
-/
theorem patternLaw_classAfterRange : ¬PatternLaw (text "[a-[:digit:]]") := by
  rintro ⟨hmatch, -⟩
  have hno : matchPattern (text "[a-[:digit:]]") ['5'] = false := by decide
  rw [← Bool.not_eq_true, hmatch] at hno
  apply hno
  have hpattern : text "[a-[:digit:]]" =
      '[' :: 'a' :: '-' :: '[' :: ':' :: (text "digit" ++ ':' :: ']' :: [']']) := by decide
  have hclass : Grammar.Units ('[' :: ':' :: (text "digit" ++ ':' :: ']' :: [']']))
      [.named (text "digit")] [] := .named (by decide) .close
  have hunits := (hclass.plain (c := '-') (by decide) (by decide) (by simp)).plain (c := 'a')
    (by decide) (by decide) (by simp)
  rw [hpattern]
  refine ⟨_, .bracket (.positive (by simp) (.units (by simp) hunits)) .nil, ?_⟩
  exact .one (by decide) .nil

end Haisos.Hsh
