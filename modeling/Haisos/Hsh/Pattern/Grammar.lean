import Haisos.Hsh.Pattern.Quoting

/-!
# The grammar of patterns

What a pattern says by its documentation: its symbols as they are written one
after the other, and the members of a bracket expression from the characters
and classes written in it.  A pattern has exactly one reading.  The matcher goes
by it, except where a range would end at a class: it finds the end of the
bracket expression with the class in it and takes the members with the `[` of
the class as the end of the range.
-/

namespace Haisos.Hsh

namespace Grammar

/-! ## Symbols and how they are written -/

inductive BracketUnit where
  | char (c : Char) (escaped : Bool)
  | named (name : Text)
  deriving DecidableEq, Repr

def BracketUnit.written : BracketUnit → Text
  | .char c false => [c]
  | .char c true => ['\\', c]
  | .named name => '[' :: ':' :: (name ++ [':', ']'])

def written (units : List BracketUnit) : Text := units.flatMap BracketUnit.written

inductive Symbol where
  | star
  | any
  | char (c : Char)
  | bracket (negated : Bool) (units : List BracketUnit)
  deriving DecidableEq, Repr

/-- `[` opens a class when a `:` is next and a `:]` comes at some place after it. -/
def OpensClass (rest : Text) : Prop := ∃ inner, rest = ':' :: inner ∧ [':', ']'] <:+: inner

/-- The units up to the `]` that closes, and what comes after it. -/
inductive Units : Text → List BracketUnit → Text → Prop where
  | close {after : Text} : Units (']' :: after) [] after
  | plain {c : Char} {rest after : Text} {units : List BracketUnit} (unclosed : c ≠ ']')
      (unescaped : c ≠ '\\') (no_class : c = '[' → ¬OpensClass rest)
      (next : Units rest units after) : Units (c :: rest) (.char c false :: units) after
  | escaped {c : Char} {rest after : Text} {units : List BracketUnit}
      (next : Units rest units after) : Units ('\\' :: c :: rest) (.char c true :: units) after
  | named {name rest after : Text} {units : List BracketUnit}
      (shortest : ¬[':', ']'] <:+: name ++ [':']) (next : Units rest units after) :
      Units ('[' :: ':' :: (name ++ ':' :: ']' :: rest)) (.named name :: units) after

/-- A `]` that stands first is a member. -/
inductive Listed : Text → List BracketUnit → Text → Prop where
  | leading {rest after : Text} {units : List BracketUnit} (next : Units rest units after) :
      Listed (']' :: rest) (.char ']' false :: units) after
  | units {text after : Text} {units : List BracketUnit} (not_leading : text.head? ≠ some ']')
      (next : Units text units after) : Listed text units after

/-- A bracket expression, from what follows its `[`. -/
inductive Bracket : Text → Bool → List BracketUnit → Text → Prop where
  | negated {rest after : Text} {units : List BracketUnit} (next : Listed rest units after) :
      Bracket ('!' :: rest) true units after
  | positive {text after : Text} {units : List BracketUnit} (not_negated : text.head? ≠ some '!')
      (next : Listed text units after) : Bracket text false units after

/-- The symbols of a pattern; a `[` without its `]` is an ordinary character. -/
inductive Reads : Text → List Symbol → Prop where
  | nil : Reads [] []
  | star {rest : Text} {symbols : List Symbol} (next : Reads rest symbols) :
      Reads ('*' :: rest) (.star :: symbols)
  | any {rest : Text} {symbols : List Symbol} (next : Reads rest symbols) :
      Reads ('?' :: rest) (.any :: symbols)
  | escaped {c : Char} {rest : Text} {symbols : List Symbol} (next : Reads rest symbols) :
      Reads ('\\' :: c :: rest) (.char c :: symbols)
  | trailing : Reads ['\\'] [.char '\\']
  | bracket {rest after : Text} {negated : Bool} {units : List BracketUnit}
      {symbols : List Symbol} (complete : Bracket rest negated units after)
      (next : Reads after symbols) : Reads ('[' :: rest) (.bracket negated units :: symbols)
  | opening {rest : Text} {symbols : List Symbol}
      (incomplete : ∀ negated units after, ¬Bracket rest negated units after)
      (next : Reads rest symbols) : Reads ('[' :: rest) (.char '[' :: symbols)
  | char {c : Char} {rest : Text} {symbols : List Symbol}
      (ordinary : c ≠ '*' ∧ c ≠ '?' ∧ c ≠ '\\' ∧ c ≠ '[') (next : Reads rest symbols) :
      Reads (c :: rest) (.char c :: symbols)

/-! ## What the symbols say -/

/-- A `-` between two characters makes a range of them; first, last or at a class it is a member. -/
def members : List BracketUnit → List Member
  | .char lo _ :: .char '-' false :: .char hi _ :: units => .range lo hi :: members units
  | .char c _ :: units => .single c :: members units
  | .named name :: units => .class name :: members units
  | [] => []

def Symbol.itemBy (takes : Bool → List BracketUnit → Char → Bool) : Symbol → Wildcard.Item Char
  | .star => .any
  | .any => .one fun _ => true
  | .char c => .one (· == c)
  | .bracket negated units => .one (takes negated units)

def Symbol.item : Symbol → Wildcard.Item Char :=
  Symbol.itemBy fun negated units c => negated != (members units).any (·.matches c)

def Language (pattern value : Text) : Prop :=
  ∃ symbols, Reads pattern symbols ∧ Wildcard.Matches (symbols.map Symbol.item) value

/-- Somewhere a range is followed by a class where its end should be. -/
def rangesToClass : List BracketUnit → Bool
  | .char _ _ :: .char '-' false :: .char _ _ :: units => rangesToClass units
  | .char _ _ :: .char '-' false :: .named _ :: _ => true
  | .char _ _ :: units => rangesToClass units
  | .named _ :: units => rangesToClass units
  | [] => false

end Grammar

/-! ## Classes -/

theorem closesClass_cons {c : Char} {rest : Text} :
    [':', ']'] <:+: c :: rest ↔ (c = ':' ∧ rest.head? = some ']') ∨ [':', ']'] <:+: rest := by
  rw [List.infix_cons_iff]
  apply or_congr_left
  rcases rest with _ | ⟨d, rest⟩
  · simp
  · simp [List.cons_prefix_cons, eq_comm]

theorem classLength_eq_none_iff {inner : Text} :
    classLength inner = none ↔ ¬[':', ']'] <:+: inner := by
  induction inner with
  | nil => simp [classLength]
  | cons c rest ih =>
      rw [classLength_cons, closesClass_cons]
      split_ifs with h
      · simp [h]
      · simp [h, ih]

theorem classLength_of_shortest {name : Text} (h : ¬[':', ']'] <:+: name ++ [':']) (rest : Text) :
    classLength (name ++ ':' :: ']' :: rest) = some name.length := by
  induction name with
  | nil => simp [classLength]
  | cons c name ih =>
      rw [List.cons_append, closesClass_cons, not_or] at h
      rw [List.cons_append, classLength_cons, if_neg, ih h.2]
      · simp
      · rintro ⟨hc, hhead⟩
        refine h.1 ⟨hc, ?_⟩
        rcases name with _ | ⟨d, name⟩
        · simp at hhead
        · simpa using hhead

theorem exists_shortest {inner : Text} {length : Nat} (h : classLength inner = some length) :
    ∃ name rest, inner = name ++ ':' :: ']' :: rest ∧ ¬[':', ']'] <:+: name ++ [':'] := by
  induction inner generalizing length with
  | nil => cases h
  | cons c inner ih =>
      rw [classLength_cons] at h
      split_ifs at h with hend
      · obtain ⟨rfl, hhead⟩ := hend
        obtain ⟨rest, rfl⟩ : ∃ rest, inner = ']' :: rest := by
          rcases inner with _ | ⟨d, rest⟩
          · cases hhead
          · exact ⟨rest, by simpa using hhead⟩
        exact ⟨[], rest, rfl, by decide⟩
      · obtain ⟨length, hlength, -⟩ := Option.map_eq_some_iff.mp h
        obtain ⟨name, rest, rfl, hname⟩ := ih hlength
        refine ⟨c :: name, rest, rfl, ?_⟩
        rw [List.cons_append, closesClass_cons, not_or]
        refine ⟨fun hclose => hend ⟨hclose.1, ?_⟩, hname⟩
        rcases name with _ | ⟨d, name⟩
        · simp at hclose
        · simpa using hclose.2

namespace Grammar

theorem opensClass_cons {inner : Text} : OpensClass (':' :: inner) ↔ [':', ']'] <:+: inner := by
  simp [OpensClass]

theorem opensClass_named (name rest : Text) : OpensClass (':' :: (name ++ ':' :: ']' :: rest)) := by
  rw [opensClass_cons]
  exact ⟨name, rest, by simp⟩

theorem bracketSkip_eq_none_iff {c : Char} {rest : Text} :
    bracketSkip c rest = none ↔ (c = '\\' → rest = []) ∧ (c = '[' → ¬OpensClass rest) := by
  unfold bracketSkip
  split_ifs with hescape hclass
  · simp [hescape]
  · obtain ⟨rfl, hhead⟩ := hclass
    obtain ⟨inner, rfl⟩ : ∃ inner, rest = ':' :: inner := by
      rcases rest with _ | ⟨d, inner⟩
      · cases hhead
      · exact ⟨inner, by simpa using hhead⟩
    simp [classLength_eq_none_iff, opensClass_cons]
  · simp only [true_iff]
    refine ⟨fun hc => by_contra fun hrest => hescape ⟨hc, hrest⟩, ?_⟩
    rintro hc ⟨inner, rfl, -⟩
    exact hclass ⟨hc, rfl⟩

/-! ## The end of a bracket expression -/

theorem Units.bracketScan {pattern after : Text} {units : List BracketUnit}
    (h : Units pattern units after) : bracketScan 0 pattern = some (written units, after) := by
  induction h with
  | close => simp [Hsh.bracketScan, bracketSkip, written]
  | @plain c rest after units unclosed unescaped no_class next ih =>
      have hskip : bracketSkip c rest = none :=
        bracketSkip_eq_none_iff.mpr ⟨fun hc => absurd hc unescaped, no_class⟩
      simp [Hsh.bracketScan, hskip, unclosed, ih, written, BracketUnit.written]
  | escaped next ih => simp [Hsh.bracketScan, bracketSkip, ih, written, BracketUnit.written]
  | @named name rest after units shortest next ih =>
      have hskip : bracketSkip '[' (':' :: (name ++ ':' :: ']' :: rest)) =
          some (name.length + 3) := by
        simp [bracketSkip, classLength_of_shortest shortest]
      have hdrop : (':' :: (name ++ ':' :: ']' :: rest)).drop (name.length + 3) = rest := by
        simp [List.drop_append]
      have htake : (':' :: (name ++ ':' :: ']' :: rest)).take (name.length + 3) =
          ':' :: (name ++ [':', ']']) := by
        simp [List.take_append]
      rw [Hsh.bracketScan, hskip, if_neg (by simp), Option.getD_some, bracketScan_drop, hdrop,
        htake, ih]
      simp [written, BracketUnit.written]

theorem exists_units {pattern inside after : Text}
    (h : Hsh.bracketScan 0 pattern = some (inside, after)) : ∃ units, Units pattern units after := by
  induction hn : pattern.length using Nat.strong_induction_on generalizing pattern inside with
  | _ n ih =>
      subst hn
      rcases pattern with _ | ⟨c, rest⟩
      · cases h
      · cases hskip : bracketSkip c rest with
        | none =>
            obtain ⟨hescape, hclass⟩ := bracketSkip_eq_none_iff.mp hskip
            rw [Hsh.bracketScan, hskip] at h
            by_cases hclose : c = ']'
            · subst hclose
              simp only [true_and, if_true, Option.some.injEq, Prod.mk.injEq] at h
              rw [← h.2]
              exact ⟨[], .close⟩
            · simp only [hclose, and_false, if_false, Option.getD_none,
                Option.map_eq_some_iff, Prod.mk.injEq] at h
              obtain ⟨⟨inside', after'⟩, hrest, -, rfl⟩ := h
              obtain ⟨units, hunits⟩ := ih _ (by simp) hrest rfl
              refine ⟨.char c false :: units, .plain hclose ?_ hclass hunits⟩
              intro hc
              rw [hescape hc] at hrest
              cases hrest
        | some skip =>
            rw [Hsh.bracketScan, hskip, if_neg (by simp), Option.getD_some,
              bracketScan_drop] at h
            simp only [Option.map_map, Option.map_eq_some_iff, Function.comp_apply,
              Prod.mk.injEq] at h
            obtain ⟨⟨inside', after'⟩, hrest, -, rfl⟩ := h
            unfold bracketSkip at hskip
            split_ifs at hskip with hescape hopen
            · cases hskip
              obtain ⟨rfl, hne⟩ := hescape
              obtain ⟨d, rest, rfl⟩ := List.exists_cons_of_ne_nil hne
              obtain ⟨units, hunits⟩ := ih _ (by simp) hrest rfl
              exact ⟨.char d true :: units, .escaped hunits⟩
            · obtain ⟨length, hlength, rfl⟩ := Option.map_eq_some_iff.mp hskip
              obtain ⟨rfl, hhead⟩ := hopen
              obtain ⟨inner, rfl⟩ : ∃ inner, rest = ':' :: inner := by
                rcases rest with _ | ⟨d, inner⟩
                · cases hhead
                · exact ⟨inner, by simpa using hhead⟩
              obtain ⟨name, rest, hinner, hname⟩ := exists_shortest hlength
              rw [List.tail_cons] at hinner hlength
              subst hinner
              rw [classLength_of_shortest hname] at hlength
              cases hlength
              have hdrop : (':' :: (name ++ ':' :: ']' :: rest)).drop (name.length + 3) =
                  rest := by
                simp [List.drop_append]
              rw [hdrop] at hrest
              obtain ⟨units, hunits⟩ := ih _ (by simp; omega) hrest rfl
              exact ⟨.named name :: units, .named hname hunits⟩

/-- What the brackets hold, the `!` with it. -/
def inside (negated : Bool) (units : List BracketUnit) : Text :=
  if negated then '!' :: written units else written units

theorem Listed.bracketScan {pattern after : Text} {units : List BracketUnit}
    (h : Listed pattern units after) :
    Hsh.bracketScan (if pattern.head? = some ']' then 1 else 0) pattern =
      some (written units, after) := by
  cases h with
  | leading next =>
      simp [Hsh.bracketScan, next.bracketScan, written, BracketUnit.written]
  | units not_leading next =>
      rw [if_neg not_leading]
      exact next.bracketScan

theorem Bracket.bracketEnd {pattern after : Text} {negated : Bool} {units : List BracketUnit}
    (h : Bracket pattern negated units after) :
    Hsh.bracketEnd pattern = some (inside negated units, after) := by
  cases h with
  | @negated rest after units next =>
      have hscan := next.bracketScan
      simp only [Hsh.bracketEnd, List.head?_cons, if_true, List.drop_succ_cons, List.drop_zero,
        inside]
      rw [Nat.add_comm, Hsh.bracketScan, hscan]
      rfl
  | positive not_negated next =>
      simpa [Hsh.bracketEnd, not_negated, inside] using next.bracketScan

theorem exists_listed {pattern inside after : Text}
    (h : Hsh.bracketScan (if pattern.head? = some ']' then 1 else 0) pattern =
      some (inside, after)) : ∃ units, Listed pattern units after := by
  split_ifs at h with hleading
  · obtain ⟨rest, rfl⟩ : ∃ rest, pattern = ']' :: rest := by
      rcases pattern with _ | ⟨d, rest⟩
      · cases hleading
      · exact ⟨rest, by simpa using hleading⟩
    simp only [Hsh.bracketScan, Option.map_eq_some_iff, Prod.mk.injEq] at h
    obtain ⟨⟨inside', after'⟩, hrest, -, rfl⟩ := h
    obtain ⟨units, hunits⟩ := exists_units hrest
    exact ⟨_, .leading hunits⟩
  · obtain ⟨units, hunits⟩ := exists_units h
    exact ⟨units, .units hleading hunits⟩

theorem exists_bracket {pattern inside after : Text}
    (h : Hsh.bracketEnd pattern = some (inside, after)) :
    ∃ negated units, Bracket pattern negated units after := by
  by_cases hnegated : pattern.head? = some '!'
  · obtain ⟨rest, rfl⟩ : ∃ rest, pattern = '!' :: rest := by
      rcases pattern with _ | ⟨d, rest⟩
      · cases hnegated
      · exact ⟨rest, by simpa using hnegated⟩
    simp only [Hsh.bracketEnd, List.head?_cons, if_true, List.drop_succ_cons,
      List.drop_zero] at h
    rw [Nat.add_comm, Hsh.bracketScan] at h
    obtain ⟨⟨inside', after'⟩, hrest, heq⟩ := Option.map_eq_some_iff.mp h
    cases heq
    obtain ⟨units, hunits⟩ := exists_listed hrest
    exact ⟨true, units, .negated hunits⟩
  · have hscan : Hsh.bracketScan (if pattern.head? = some ']' then 1 else 0) pattern =
        some (inside, after) := by
      simpa [Hsh.bracketEnd, hnegated] using h
    obtain ⟨units, hunits⟩ := exists_listed hscan
    exact ⟨false, units, .positive hnegated hunits⟩

/-! ## There is one reading -/

theorem Units.text_eq {pattern after : Text} {units : List BracketUnit}
    (h : Units pattern units after) : pattern = written units ++ ']' :: after := by
  induction h with
  | close => rfl
  | plain unclosed unescaped no_class next ih => simp [written, BracketUnit.written, ih]
  | escaped next ih => simp [written, BracketUnit.written, ih]
  | named shortest next ih => simp [written, BracketUnit.written, ih]

theorem Listed.text_eq {pattern after : Text} {units : List BracketUnit}
    (h : Listed pattern units after) : pattern = written units ++ ']' :: after := by
  cases h with
  | leading next => simp [written, BracketUnit.written, next.text_eq]
  | units not_leading next => exact next.text_eq

theorem Bracket.text_eq {pattern after : Text} {negated : Bool} {units : List BracketUnit}
    (h : Bracket pattern negated units after) : pattern = inside negated units ++ ']' :: after := by
  cases h with
  | negated next => simp [inside, next.text_eq]
  | positive not_negated next => exact next.text_eq

/-- With less after the `]` the units are the same: no class is opened that was not. -/
theorem Units.shorten {pattern after after' : Text} {units : List BracketUnit}
    (h : Units pattern units after) (hafter : after' <+: after) :
    Units (written units ++ ']' :: after') units after' := by
  induction h with
  | close => exact .close
  | @plain c rest after units unclosed unescaped no_class next ih =>
      refine .plain unclosed unescaped (fun hc hopens => no_class hc ?_) (ih hafter)
      obtain ⟨inner, hinner, hclose⟩ := hopens
      have hshort : written units ++ ']' :: after' = ':' :: inner := hinner
      obtain ⟨tail, rfl⟩ := hafter
      refine ⟨inner ++ tail, ?_, hclose.trans (List.prefix_append _ _).isInfix⟩
      calc rest = (written units ++ ']' :: after') ++ tail := by simp [next.text_eq]
        _ = ':' :: (inner ++ tail) := by rw [hshort, List.cons_append]
  | escaped next ih => exact .escaped (ih hafter)
  | named shortest next ih =>
      have := Units.named shortest (ih hafter)
      simpa [written, BracketUnit.written] using this

theorem head?_append_close (front after after' : Text) :
    (front ++ ']' :: after).head? = (front ++ ']' :: after').head? := by
  cases front <;> rfl

theorem Listed.shorten {pattern after after' : Text} {units : List BracketUnit}
    (h : Listed pattern units after) (hafter : after' <+: after) :
    Listed (written units ++ ']' :: after') units after' := by
  cases h with
  | leading next => exact .leading (next.shorten hafter)
  | units not_leading next =>
      refine .units ?_ (next.shorten hafter)
      rw [head?_append_close _ _ after, ← next.text_eq]
      exact not_leading

theorem Bracket.shorten {pattern after after' : Text} {negated : Bool} {units : List BracketUnit}
    (h : Bracket pattern negated units after) (hafter : after' <+: after) :
    Bracket (inside negated units ++ ']' :: after') negated units after' := by
  cases h with
  | negated next => exact .negated (next.shorten hafter)
  | positive not_negated next =>
      refine .positive ?_ (next.shorten hafter)
      rw [inside, if_neg (by simp), head?_append_close _ _ _, ← next.text_eq]
      exact not_negated

theorem Units.unique {pattern after after' : Text} {units units' : List BracketUnit}
    (h : Units pattern units after) (h' : Units pattern units' after') : units = units' := by
  induction h generalizing units' with
  | close =>
      cases h' with
      | close => rfl
      | plain unclosed => exact absurd rfl unclosed
  | plain unclosed unescaped no_class next ih =>
      generalize hpattern : _ :: _ = pattern at h'
      cases h' with
      | close =>
          cases hpattern
          exact absurd rfl unclosed
      | plain unclosed' unescaped' no_class' next' =>
          cases hpattern
          rw [ih next']
      | escaped next' =>
          cases hpattern
          exact absurd rfl unescaped
      | named shortest' next' =>
          cases hpattern
          exact absurd (opensClass_named _ _) (no_class rfl)
  | escaped next ih =>
      cases h' with
      | plain unclosed' unescaped' no_class' next' => exact absurd rfl unescaped'
      | escaped next' => rw [ih next']
  | @named name rest after units shortest next ih =>
      generalize hpattern : '[' :: ':' :: (name ++ ':' :: ']' :: rest) = pattern at h'
      cases h' with
      | close => cases hpattern
      | plain unclosed' unescaped' no_class' next' =>
          cases hpattern
          exact absurd (opensClass_named _ _) (no_class' rfl)
      | escaped next' => cases hpattern
      | @named name' rest' after' units' shortest' next' =>
          simp only [List.cons.injEq, true_and] at hpattern
          have hlength := classLength_of_shortest shortest rest
          rw [hpattern, classLength_of_shortest shortest' rest'] at hlength
          obtain ⟨rfl, hrest⟩ := List.append_inj hpattern (by simpa using hlength.symm)
          simp only [List.cons.injEq, true_and] at hrest
          rw [← hrest] at next'
          rw [ih next']

theorem Listed.unique {pattern after after' : Text} {units units' : List BracketUnit}
    (h : Listed pattern units after) (h' : Listed pattern units' after') : units = units' := by
  cases h with
  | leading next =>
      cases h' with
      | leading next' => rw [next.unique next']
      | units not_leading' => exact absurd rfl not_leading'
  | units not_leading next =>
      cases h' with
      | leading next' => exact absurd rfl not_leading
      | units not_leading' next' => exact next.unique next'

theorem Bracket.unique {pattern after after' : Text} {negated negated' : Bool}
    {units units' : List BracketUnit} (h : Bracket pattern negated units after)
    (h' : Bracket pattern negated' units' after') :
    negated = negated' ∧ units = units' ∧ after = after' := by
  have hafter : after = after' := by
    have hend := h.bracketEnd
    rw [h'.bracketEnd] at hend
    simp only [Option.some.injEq, Prod.mk.injEq] at hend
    exact hend.2.symm
  cases h with
  | negated next =>
      cases h' with
      | negated next' => exact ⟨rfl, next.unique next', hafter⟩
      | positive not_negated' => exact absurd rfl not_negated'
  | positive not_negated next =>
      cases h' with
      | negated next' => exact absurd rfl not_negated
      | positive not_negated' next' => exact ⟨rfl, next.unique next', hafter⟩

theorem Reads.unique {pattern : Text} {symbols symbols' : List Symbol} (h : Reads pattern symbols)
    (h' : Reads pattern symbols') : symbols = symbols' := by
  induction h generalizing symbols' with
  | nil =>
      cases h'
      rfl
  | star next ih =>
      cases h' with
      | star next' => rw [ih next']
      | char ordinary' => simp at ordinary'
  | any next ih =>
      cases h' with
      | any next' => rw [ih next']
      | char ordinary' => simp at ordinary'
  | escaped next ih =>
      cases h' with
      | escaped next' => rw [ih next']
      | char ordinary' => simp at ordinary'
  | trailing =>
      cases h' with
      | trailing => rfl
      | char ordinary' => simp at ordinary'
  | bracket complete next ih =>
      cases h' with
      | bracket complete' next' =>
          obtain ⟨rfl, rfl, rfl⟩ := complete.unique complete'
          rw [ih next']
      | opening incomplete' => exact absurd complete (incomplete' _ _ _)
      | char ordinary' => simp at ordinary'
  | opening incomplete next ih =>
      cases h' with
      | bracket complete' => exact absurd complete' (incomplete _ _ _)
      | opening incomplete' next' => rw [ih next']
      | char ordinary' => simp at ordinary'
  | char ordinary next ih =>
      cases h' with
      | char ordinary' next' => rw [ih next']
      | _ => simp at ordinary

theorem exists_reads (pattern : Text) : ∃ symbols, Reads pattern symbols := by
  induction hn : pattern.length using Nat.strong_induction_on generalizing pattern with
  | _ n ih =>
      subst hn
      rcases pattern with _ | ⟨c, rest⟩
      · exact ⟨[], .nil⟩
      · obtain ⟨symbols, hrest⟩ := ih _ (by simp) rest rfl
        by_cases hstar : c = '*'
        · subst hstar
          exact ⟨_, .star hrest⟩
        by_cases hany : c = '?'
        · subst hany
          exact ⟨_, .any hrest⟩
        by_cases hescape : c = '\\'
        · subst hescape
          rcases rest with _ | ⟨d, rest⟩
          · exact ⟨_, .trailing⟩
          · obtain ⟨symbols, hrest⟩ := ih _ (by simp) rest rfl
            exact ⟨_, .escaped hrest⟩
        by_cases hopen : c = '['
        · subst hopen
          by_cases hcomplete : ∃ negated units after, Bracket rest negated units after
          · obtain ⟨negated, units, after, hbracket⟩ := hcomplete
            have hlen := bracketScan_length hbracket.bracketEnd
            obtain ⟨symbols, hafter⟩ := ih _ (by simp; omega) after rfl
            exact ⟨_, .bracket hbracket hafter⟩
          · refine ⟨_, .opening (fun negated units after hbracket => ?_) hrest⟩
            exact hcomplete ⟨negated, units, after, hbracket⟩
        · exact ⟨_, .char ⟨hstar, hany, hescape, hopen⟩ hrest⟩

/-! ## The members of a bracket expression -/

/-- The units are told apart by what is written, when `rest` follows them. -/
def Apart (rest : Text) : List BracketUnit → Prop
  | [] => True
  | .char c false :: units =>
      c ≠ '\\' ∧ (c = '[' → ¬OpensClass (written units ++ rest)) ∧ Apart rest units
  | .char _ true :: units => Apart rest units
  | .named name :: units => ¬[':', ']'] <:+: name ++ [':'] ∧ Apart rest units

theorem Units.apart {pattern after : Text} {units : List BracketUnit}
    (h : Units pattern units after) : Apart (']' :: after) units := by
  induction h with
  | close => trivial
  | plain unclosed unescaped no_class next ih =>
      rw [next.text_eq] at no_class
      exact ⟨unescaped, no_class, ih⟩
  | escaped next ih => exact ih
  | named shortest next ih => exact ⟨shortest, ih⟩

theorem Listed.apart {pattern after : Text} {units : List BracketUnit}
    (h : Listed pattern units after) : Apart (']' :: after) units := by
  cases h with
  | leading next => exact ⟨by decide, by simp, next.apart⟩
  | units not_leading next => exact next.apart

@[simp] theorem written_nil : written [] = [] := rfl

@[simp] theorem written_cons (unit : BracketUnit) (units : List BracketUnit) :
    written (unit :: units) = unit.written ++ written units := by
  simp [written]

theorem Apart.tail {rest : Text} {unit : BracketUnit} {units : List BracketUnit}
    (h : Apart rest (unit :: units)) : Apart rest units := by
  cases unit with
  | char c escaped =>
      cases escaped with
      | false => exact h.2.2
      | true => exact h
  | named name => exact h.2

theorem memberChar_char {rest : Text} {c : Char} {escaped : Bool} {units : List BracketUnit}
    (h : Apart rest (.char c escaped :: units)) :
    memberChar (written (.char c escaped :: units)) =
      some (c, (BracketUnit.char c escaped).written.length) := by
  cases escaped with
  | true => simp [BracketUnit.written, memberChar]
  | false =>
      have hc : c ≠ '\\' := h.1
      simp [BracketUnit.written, memberChar, hc]

theorem classAt_char {rest : Text} {c : Char} {escaped : Bool} {units : List BracketUnit}
    (h : Apart rest (.char c escaped :: units)) :
    classAt (written (.char c escaped :: units)) = none := by
  cases escaped with
  | true => simp [BracketUnit.written, classAt]
  | false =>
      by_cases hc : c = '['
      · subst hc
        have hclass := h.2.1 rfl
        simp only [written_cons, BracketUnit.written, List.singleton_append]
        rcases hunits : written units with _ | ⟨d, inner⟩
        · rfl
        · by_cases hd : d = ':'
          · subst hd
            rw [hunits, List.cons_append, opensClass_cons] at hclass
            simp only [classAt]
            rw [classLength_eq_none_iff]
            intro hinner
            exact hclass (hinner.trans (List.prefix_append _ _).isInfix)
          · simp [classAt, hd]
      · simp [BracketUnit.written, classAt, hc]

theorem bracketMember_char {rest : Text} {c : Char} {escaped : Bool} {units : List BracketUnit}
    (h : Apart rest (.char c escaped :: units)) :
    bracketMember (written (.char c escaped :: units)) =
      rangeFrom c (BracketUnit.char c escaped).written.length (written units) := by
  simp only [bracketMember, classAt_char h, memberChar_char h]
  rw [written_cons, List.drop_left]

theorem bracketMember_named {rest name : Text} {units : List BracketUnit}
    (h : Apart rest (.named name :: units)) :
    bracketMember (written (.named name :: units)) =
      (.class name, (BracketUnit.named name).written.length) := by
  have hlength : classLength (name ++ ':' :: ']' :: written units) = some name.length :=
    classLength_of_shortest h.1 _
  simp [bracketMember, BracketUnit.written, classAt, hlength]

theorem rangeFrom_single_of_members {lo : Char} {length : Nat} {units : List BracketUnit}
    (hrange : ∀ hi escaped tail, units ≠ .char '-' false :: .char hi escaped :: tail)
    (hclass : ∀ name tail, units ≠ .char '-' false :: .named name :: tail) :
    rangeFrom lo length (written units) = (.single lo, length) := by
  rcases units with _ | ⟨unit, units⟩
  · rfl
  · cases unit with
    | named name => rfl
    | char c escaped =>
        cases escaped with
        | true => rfl
        | false =>
            by_cases hc : c = '-'
            · subst hc
              rcases units with _ | ⟨unit, units⟩
              · rfl
              · cases unit with
                | char hi escaped => exact absurd rfl (hrange hi escaped units)
                | named name => exact absurd rfl (hclass name units)
            · simp [BracketUnit.written, rangeFrom, hc]

theorem bracketMembers_step {unit : BracketUnit} {units tail : List BracketUnit} {member : Member}
    {length : Nat} (hmember : bracketMember (written (unit :: units)) = (member, length))
    (hdrop : (written (unit :: units)).drop length = written tail) (hpos : 0 < length)
    (htail : bracketMembers 0 (written tail) = members tail) :
    bracketMembers 0 (written (unit :: units)) = member :: members tail := by
  have hne : written (unit :: units) ≠ [] := by
    rw [written_cons]
    rcases unit with ⟨c, _ | _⟩ | name <;> simp [BracketUnit.written]
  rw [bracketMembers_cons hne (by rw [hmember]; exact hpos), hmember, hdrop, htail]

theorem BracketUnit.written_length_pos (unit : BracketUnit) : 0 < unit.written.length := by
  rcases unit with ⟨c, _ | _⟩ | name <;> simp [BracketUnit.written]

/-- The matcher takes the members as the grammar does, except at a range before a class. -/
theorem bracketMembers_written {rest : Text} {units : List BracketUnit} (h : Apart rest units)
    (hranges : rangesToClass units = false) : bracketMembers 0 (written units) = members units := by
  induction units using members.induct with
  | case1 lo lo_escaped hi hi_escaped units ih =>
      have hhi : Apart rest (.char hi hi_escaped :: units) := h.tail.tail
      have hmember : bracketMember
          (written (.char lo lo_escaped :: .char '-' false :: .char hi hi_escaped :: units)) =
            (.range lo hi, (BracketUnit.char lo lo_escaped).written.length + 1 +
              (BracketUnit.char hi hi_escaped).written.length) := by
        rw [bracketMember_char h, written_cons, BracketUnit.written, List.singleton_append]
        simp only [rangeFrom, memberChar_char hhi]
      rw [members]
      refine bracketMembers_step hmember ?_ (by omega) (ih h.tail.tail.tail ?_)
      · rw [← List.drop_drop, ← List.drop_drop, written_cons, List.drop_left, written_cons,
          written_cons, BracketUnit.written, List.singleton_append, List.drop_succ_cons,
          List.drop_zero, List.drop_left]
      · simpa [rangesToClass] using hranges
  | case2 c escaped units hrange ih =>
      have hclass : ∀ name tail, units ≠ .char '-' false :: .named name :: tail := by
        rintro name tail rfl
        simp [rangesToClass] at hranges
      have hmember := bracketMember_char h
      rw [rangeFrom_single_of_members (fun hi escaped tail heq => hrange hi escaped tail heq)
        hclass] at hmember
      rw [members]
      · refine bracketMembers_step hmember ?_ (BracketUnit.written_length_pos _) (ih h.tail ?_)
        · rw [written_cons, List.drop_left]
        · rw [rangesToClass] at hranges
          · exact hranges
          · exact hrange
          · exact hclass
      · exact hrange
  | case3 name units ih =>
      rw [members]
      refine bracketMembers_step (bracketMember_named h) ?_ (BracketUnit.written_length_pos _)
        (ih h.tail ?_)
      · rw [written_cons, List.drop_left]
      · simpa [rangesToClass] using hranges
  | case4 => rfl

theorem Listed.written_ne_bang {pattern after rest : Text} {units : List BracketUnit}
    (h : Listed pattern units after) (hpattern : pattern.head? ≠ some '!') :
    written units ≠ '!' :: rest := by
  intro hwritten
  cases h with
  | leading next =>
      simp [BracketUnit.written] at hwritten
  | units not_leading next =>
      rw [next.text_eq, hwritten] at hpattern
      exact hpattern rfl

theorem Bracket.bracketMatches {pattern after : Text} {negated : Bool} {units : List BracketUnit}
    (h : Bracket pattern negated units after) (c : Char) :
    Hsh.bracketMatches (inside negated units) c =
      (negated != (bracketMembers 0 (written units)).any (·.matches c)) := by
  cases h with
  | negated next => simp [inside, Hsh.bracketMatches]
  | positive not_negated next =>
      simp only [inside, Bool.false_eq_true, if_false, Bool.false_bne]
      unfold Hsh.bracketMatches
      split
      · rename_i rest hwritten
        exact absurd hwritten (next.written_ne_bang not_negated)
      · rfl

theorem Bracket.apart {pattern after : Text} {negated : Bool} {units : List BracketUnit}
    (h : Bracket pattern negated units after) : Apart (']' :: after) units := by
  cases h with
  | negated next => exact next.apart
  | positive not_negated next => exact next.apart

/-! ## What the matcher takes a pattern for -/

def Symbol.matched : Symbol → Wildcard.Item Char :=
  Symbol.itemBy fun negated units => bracketMatches (inside negated units)

theorem Symbol.matched_isAny (symbol : Symbol) : symbol.matched.isAny = symbol.item.isAny := by
  cases symbol <;> rfl

theorem Reads.items_eq {pattern : Text} {symbols : List Symbol} (h : Reads pattern symbols) :
    items pattern = symbols.map Symbol.matched := by
  induction h with
  | nil => rw [items_nil, List.map_nil]
  | star next ih => rw [items_star, ih, List.map_cons, Symbol.matched, Symbol.itemBy]
  | any next ih =>
      rw [items_element (by decide), List.map_cons, ← ih, Symbol.matched, Symbol.itemBy]
      rfl
  | escaped next ih =>
      rw [items_element (by decide), List.map_cons, ← ih, Symbol.matched, Symbol.itemBy]
      rfl
  | trailing =>
      rw [items_element (by decide), List.map_cons, List.map_nil, ← items_nil, Symbol.matched,
        Symbol.itemBy]
      rfl
  | bracket complete next ih =>
      rw [items_element (by decide), List.map_cons, ← ih, Symbol.matched, Symbol.itemBy]
      simp [patternElement, complete.bracketEnd]
  | @opening rest symbols incomplete next ih =>
      have hend : bracketEnd rest = none := by
        rw [Option.eq_none_iff_forall_not_mem]
        rintro ⟨inside, after⟩ hend
        obtain ⟨negated, units, hbracket⟩ := exists_bracket hend
        exact incomplete _ _ _ hbracket
      rw [items_element (by decide), List.map_cons, ← ih, Symbol.matched, Symbol.itemBy]
      simp [patternElement, hend]
  | @char c rest symbols ordinary next ih =>
      rw [items_element ordinary.1, List.map_cons, ← ih, Symbol.matched, Symbol.itemBy]
      unfold patternElement
      rw [if_neg ordinary.2.1]
      split
      · exact absurd rfl ordinary.2.2.1
      · exact absurd rfl ordinary.2.2.2
      · rfl

theorem Reads.bracket_of_mem {pattern : Text} {symbols : List Symbol} (h : Reads pattern symbols)
    {negated : Bool} {units : List BracketUnit} (hmem : .bracket negated units ∈ symbols) :
    ∃ rest after, Bracket rest negated units after := by
  induction h with
  | bracket complete next ih =>
      rcases List.mem_cons.mp hmem with hmem | hmem
      · cases hmem
        exact ⟨_, _, complete⟩
      · exact ih hmem
  | nil => cases hmem
  | trailing => simp at hmem
  | _ =>
      rename_i ih
      rcases List.mem_cons.mp hmem with hmem | hmem
      · cases hmem
      · exact ih hmem

/--
With the `[` of a class taken as the end of a range where one meets it, and the
rest of the class as members, the bracket expression has the same characters.
-/
def ReadAlike (negated : Bool) (units : List BracketUnit) : Prop :=
  rangesToClass units = true →
    ∀ c, bracketMatches (inside negated units) c =
      (negated != (members units).any (·.matches c))

/-- The two ways of taking the ranges of a pattern that meet a class come to the same. -/
def RangesAgree (pattern : Text) : Prop :=
  ∃ symbols, Reads pattern symbols ∧
    ((∀ negated units, .bracket negated units ∈ symbols → ReadAlike negated units) ∨
      (∃ symbol ∈ symbols, symbol.item.Dead) ∧ ∃ symbol ∈ symbols, symbol.matched.Dead)

theorem Bracket.readAlike_iff {pattern after : Text} {negated : Bool} {units : List BracketUnit}
    (h : Bracket pattern negated units after) :
    (∀ c, Hsh.bracketMatches (inside negated units) c =
      (negated != (members units).any (·.matches c))) ↔ ReadAlike negated units := by
  constructor
  · intro hsame _
    exact hsame
  · intro halike c
    cases hranges : rangesToClass units with
    | true => exact halike hranges c
    | false => rw [h.bracketMatches, bracketMembers_written h.apart hranges]

/-- The matcher has the language of the pattern exactly when its ranges agree. -/
theorem matchPattern_language_iff (pattern : Text) :
    (∀ value, matchPattern pattern value = true ↔ Language pattern value) ↔
      RangesAgree pattern := by
  obtain ⟨symbols, hreads⟩ := exists_reads pattern
  have hlanguage : ∀ value, Language pattern value ↔
      Wildcard.Matches (symbols.map Symbol.item) value := by
    intro value
    constructor
    · rintro ⟨symbols', hreads', hmatches⟩
      rwa [hreads.unique hreads']
    · intro hmatches
      exact ⟨symbols, hreads, hmatches⟩
  have hagree : RangesAgree pattern ↔
      ((∀ negated units, .bracket negated units ∈ symbols → ReadAlike negated units) ∨
        (∃ symbol ∈ symbols, symbol.matched.Dead) ∧ ∃ symbol ∈ symbols, symbol.item.Dead) := by
    constructor
    · rintro ⟨symbols', hreads', h⟩
      rw [hreads.unique hreads']
      exact h.imp_right And.symm
    · intro h
      exact ⟨symbols, hreads, h.imp_right And.symm⟩
  have htakes : (∀ symbol ∈ symbols, ∀ c, symbol.matched.Takes c ↔ symbol.item.Takes c) ↔
      ∀ negated units, .bracket negated units ∈ symbols → ReadAlike negated units := by
    constructor
    · intro h negated units hmem
      obtain ⟨rest, after, hbracket⟩ := hreads.bracket_of_mem hmem
      rw [← hbracket.readAlike_iff]
      intro c
      exact Bool.eq_iff_iff.mpr (h _ hmem c)
    · intro h symbol hmem c
      cases symbol with
      | bracket negated units =>
          obtain ⟨rest, after, hbracket⟩ := hreads.bracket_of_mem hmem
          have hsame := hbracket.readAlike_iff.mpr (h _ _ hmem) c
          exact Bool.eq_iff_iff.mp hsame
      | _ => exact Iff.rfl
  rw [hagree, ← htakes,
    ← Wildcard.matches_map_congr_iff fun symbol _ => symbol.matched_isAny]
  simp only [matchPattern_iff, hreads.items_eq, hlanguage]

end Grammar

end Haisos.Hsh
