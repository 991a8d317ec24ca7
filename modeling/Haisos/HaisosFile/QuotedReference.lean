import Haisos.HaisosFile.Parser
import Mathlib.Tactic

/-!
# A quoted reference is one token

A token written as a quoted `$\x7bname\x7d` alone is the value of the name,
whatever blanks, comment marks and references the value holds, unless it holds
the quote that the reference is written in: the line is split after the
substitution, and quotes inside a value are read as quoting.
-/

namespace Haisos.HaisosFile

open Hsh (Text text)

/-! ## The first of a character -/

theorem cut_append {c : Char} {front : Text} (h : c ∉ front) (rest : Text) :
    cut c (front ++ c :: rest) = some (front, rest) := by
  induction front with
  | nil => simp [cut]
  | cons d front ih =>
      simp only [List.mem_cons, not_or] at h
      simp [cut, Ne.symm h.1, ih h.2]

theorem cut_eq_some {c : Char} {s front rest : Text} (h : cut c s = some (front, rest)) :
    s = front ++ c :: rest ∧ c ∉ front := by
  induction s generalizing front with
  | nil => cases h
  | cons d s ih =>
      rw [cut] at h
      split_ifs at h with hd
      · cases h
        simp [hd]
      · obtain ⟨⟨front', rest'⟩, h', heq⟩ := Option.map_eq_some_iff.mp h
        cases heq
        obtain ⟨rfl, hfront⟩ := ih h'
        exact ⟨rfl, by simp [hfront, Ne.symm hd]⟩

/-! ## Substitution -/

inductive Closed : Text → Prop where
  | nil : Closed []
  | reference {name rest : Text} (named : '\x7d' ∉ name) (next : Closed rest) :
      Closed ('$' :: '\x7b' :: (name ++ '\x7d' :: rest))
  | char {c : Char} {rest : Text} (opens_none : ¬(c = '$' ∧ rest.head? = some '\x7b'))
      (next : Closed rest) : Closed (c :: rest)

theorem substituteFrom_drop (values : Values) (skip : Nat) (s : Text) :
    substituteFrom values skip s = substitute values (s.drop skip) := by
  induction skip generalizing s with
  | zero => rfl
  | succ skip ih =>
      rcases s with _ | ⟨c, rest⟩
      · rfl
      · exact ih rest

theorem substitute_char {values : Values} {c : Char} {rest : Text}
    (h : ¬(c = '$' ∧ rest.head? = some '\x7b')) :
    substitute values (c :: rest) =
      (c :: (substitute values rest).1, (substitute values rest).2) := by
  rw [substitute, substituteFrom, if_neg h]
  rfl

theorem substitute_reference {values : Values} {name : Text} (h : '\x7d' ∉ name) (rest : Text) :
    substitute values ('$' :: '\x7b' :: (name ++ '\x7d' :: rest)) =
      match values.lookup name with
      | some value => (value ++ (substitute values rest).1, (substitute values rest).2)
      | none => ((substitute values rest).1,
          some (text "Unknown variable reference: $\x7b" ++ name ++ text "\x7d\n")) := by
  have hdrop : ('\x7b' :: (name ++ '\x7d' :: rest)).drop (name.length + 2) = rest := by
    simp [List.drop_append]
  rw [substitute, substituteFrom, if_pos ⟨rfl, rfl⟩, List.tail_cons, cut_append h]
  cases hlookup : values.lookup name <;> simp only [substituteFrom_drop, hdrop, hlookup]

/-- A text whose references are closed is substituted on its own. -/
theorem Closed.substitute_append {values : Values} {front rest : Text} (h : Closed front)
    (hfront : front.getLast? ≠ some '$') :
    substitute values (front ++ rest) =
      ((substitute values front).1 ++ (substitute values rest).1,
        (substitute values front).2.or (substitute values rest).2) := by
  induction h with
  | nil => rfl
  | @reference name front named next ih =>
      have happend : '$' :: '\x7b' :: (name ++ '\x7d' :: front) ++ rest =
          '$' :: '\x7b' :: (name ++ '\x7d' :: (front ++ rest)) := by simp
      have hlast : front.getLast? ≠ some '$' := by
        intro hlast
        have hne : front ≠ [] := by
          rintro rfl
          cases hlast
        refine hfront ?_
        have hcons : '$' :: '\x7b' :: (name ++ '\x7d' :: front) =
            ('$' :: '\x7b' :: (name ++ ['\x7d'])) ++ front := by simp
        rw [hcons, List.getLast?_append_of_ne_nil _ hne, hlast]
      rw [happend, substitute_reference named, substitute_reference named, ih hlast]
      cases values.lookup name <;> simp
  | @char c front opens_none next ih =>
      have hopen : ¬(c = '$' ∧ (front ++ rest).head? = some '\x7b') := by
        rintro ⟨hc, hhead⟩
        rcases front with _ | ⟨d, front⟩
        · exact hfront (by simp [hc])
        · exact opens_none ⟨hc, hhead⟩
      have hlast : front.getLast? ≠ some '$' := by
        intro hlast
        have hne : front ≠ [] := by
          rintro rfl
          cases hlast
        exact hfront (by rw [List.getLast?_cons_of_ne_nil hne, hlast])
      rw [List.cons_append, substitute_char hopen, substitute_char opens_none, ih hlast]
      simp

theorem Closed.getLast?_substitute (values : Values) {s : Text} (h : Closed s) {c : Char}
    (hlast : s.getLast? = some c) (hc : c ≠ '\x7d') :
    (substitute values s).1.getLast? = some c := by
  induction h with
  | nil => cases hlast
  | @reference name rest named next ih =>
      have hrest : rest ≠ [] := by
        rintro rfl
        have hconcat : '$' :: '\x7b' :: (name ++ ['\x7d']) =
            ('$' :: '\x7b' :: name) ++ ['\x7d'] := rfl
        rw [hconcat, List.getLast?_concat] at hlast
        exact hc (Option.some.inj hlast).symm
      have hlast' : rest.getLast? = some c := by
        have hcons : '$' :: '\x7b' :: (name ++ '\x7d' :: rest) =
            ('$' :: '\x7b' :: (name ++ ['\x7d'])) ++ rest := by simp
        rw [hcons, List.getLast?_append_of_ne_nil _ hrest] at hlast
        exact hlast
      have hresult := ih hlast'
      have hne : (substitute values rest).1 ≠ [] := by
        intro hnil
        rw [hnil] at hresult
        cases hresult
      rw [substitute_reference named]
      cases values.lookup name with
      | none => exact hresult
      | some value => exact (List.getLast?_append_of_ne_nil _ hne).trans hresult
  | @char d rest opens_none next ih =>
      rw [substitute_char opens_none]
      by_cases hrest : rest = []
      · subst hrest
        simpa [substitute, substituteFrom] using hlast
      · rw [List.getLast?_cons_of_ne_nil hrest] at hlast
        have hresult := ih hlast
        have hne : (substitute values rest).1 ≠ [] := by
          intro hnil
          rw [hnil] at hresult
          cases hresult
        exact (List.getLast?_cons_of_ne_nil hne).trans hresult

/-! ## Tokens -/

theorem splitTokensFrom_drop (lineNumber skip : Nat) (s : Text) :
    splitTokensFrom lineNumber skip s = splitTokens lineNumber (s.drop skip) := by
  induction skip generalizing s with
  | zero => rfl
  | succ skip ih =>
      rcases s with _ | ⟨c, rest⟩
      · simp [splitTokens, splitTokensFrom]
      · exact ih rest

theorem splitTokens_nil (lineNumber : Nat) : splitTokens lineNumber [] = .ok [] := rfl

theorem splitTokens_blank {lineNumber : Nat} {c : Char} (h : isBlank c = true) (rest : Text) :
    splitTokens lineNumber (c :: rest) = splitTokens lineNumber rest := by
  simp [splitTokens, splitTokensFrom, h]

theorem not_isBlank_of_isQuote {c : Char} (h : isQuote c = true) : isBlank c = false := by
  simp only [isQuote, Bool.or_eq_true, beq_iff_eq] at h
  rcases h with rfl | rfl <;> rfl

theorem splitTokens_quoted (lineNumber : Nat) {q : Char} (hq : isQuote q = true) {token rest : Text}
    (htoken : q ∉ token) (hrest : ∀ c ∈ rest.head?, isBlank c = true) :
    splitTokens lineNumber (q :: (token ++ q :: rest)) =
      (splitTokens lineNumber rest).map (token :: ·) := by
  have hnext : (rest.head?.any fun d => !isBlank d) = false := by
    cases hhead : rest.head? with
    | none => rfl
    | some d => simp [hrest d hhead]
  have hdrop : (token ++ q :: rest).drop (token.length + 1) = rest := by
    simp [List.drop_append]
  rw [splitTokens, splitTokensFrom, not_isBlank_of_isQuote hq, hq, cut_append htoken]
  simp only [Bool.false_eq_true, if_false, if_true, hnext, splitTokensFrom_drop, hdrop]

theorem splitTokens_bare {lineNumber : Nat} {c : Char} (hblank : isBlank c = false)
    (hquote : isQuote c = false) {token rest : Text} (htoken : ∀ d ∈ token, isBlank d = false)
    (hrest : ∀ d ∈ rest.head?, isBlank d = true) :
    splitTokens lineNumber (c :: (token ++ rest)) =
      (splitTokens lineNumber rest).map ((c :: token) :: ·) := by
  have htake : (token ++ rest).takeWhile (fun d => !isBlank d) = token := by
    rw [List.takeWhile_append_of_pos (by simpa using htoken)]
    rcases rest with _ | ⟨d, rest⟩
    · simp
    · simp [hrest d rfl]
  rw [splitTokens, splitTokensFrom, hblank, hquote]
  simp only [Bool.false_eq_true, if_false, htake, splitTokensFrom_drop]
  simp

theorem exists_bare (s : Text) :
    ∃ token rest, s = token ++ rest ∧ (∀ d ∈ token, isBlank d = false) ∧
      ∀ d ∈ rest.head?, isBlank d = true := by
  induction s with
  | nil => exact ⟨[], [], by simp⟩
  | cons c s ih =>
      cases hc : isBlank c with
      | true => exact ⟨[], c :: s, by simp [hc]⟩
      | false =>
          obtain ⟨token, rest, rfl, htoken, hrest⟩ := ih
          refine ⟨c :: token, rest, rfl, ?_, hrest⟩
          simpa [hc] using htoken

theorem blank_last_of_append {token after : Text}
    (hlast : ∀ c ∈ (token ++ after).getLast?, isBlank c = true) {d : Char}
    (htoken : token.getLast? = some d) (hd : isBlank d = false) :
    after ≠ [] ∧ ∀ c ∈ after.getLast?, isBlank c = true := by
  by_cases hafter : after = []
  · subst hafter
    rw [List.append_nil] at hlast
    rw [hlast d htoken] at hd
    cases hd
  · rw [List.getLast?_append_of_ne_nil _ hafter] at hlast
    exact ⟨hafter, hlast⟩

theorem head_append {s rest : Text} (h : s ≠ []) : (s ++ rest).head? = s.head? := by
  obtain ⟨c, s, rfl⟩ := List.exists_cons_of_ne_nil h
  rfl

theorem map_cons_map {tokens : List Text} {token : Text} (result : Except Text (List Text)) :
    (result.map (tokens ++ ·)).map (token :: ·) = result.map (token :: tokens ++ ·) := by
  cases result <;> rfl

theorem splitTokens_append {lineNumber : Nat} {front : Text} {tokens : List Text}
    (htokens : splitTokens lineNumber front = .ok tokens)
    (hlast : ∀ c ∈ front.getLast?, isBlank c = true) (rest : Text) :
    splitTokens lineNumber (front ++ rest) =
      (splitTokens lineNumber rest).map (tokens ++ ·) := by
  induction hn : front.length using Nat.strong_induction_on generalizing front tokens with
  | _ n ih =>
      subst hn
      rcases front with _ | ⟨c, front⟩
      · rw [splitTokens_nil] at htokens
        cases htokens
        rw [List.nil_append]
        cases splitTokens lineNumber rest <;> rfl
      · -- A token is taken off, and what is left of the front still ends in a blank.
        have hstep : ∀ (token : Text) {after : Text} {d : Char} {written : Text},
            c :: front = written ++ after → written.getLast? = some d → isBlank d = false →
            (∀ after', (∀ e ∈ after'.head?, isBlank e = true) →
              splitTokens lineNumber (written ++ after') =
                (splitTokens lineNumber after').map (token :: ·)) →
            (∀ e ∈ after.head?, isBlank e = true) →
            splitTokens lineNumber (c :: front ++ rest) =
              (splitTokens lineNumber rest).map (tokens ++ ·) := by
          intro token after d written heq hwritten hd htoken hhead
          rw [heq] at hlast htokens
          obtain ⟨hne, hafter⟩ := blank_last_of_append hlast hwritten hd
          rw [htoken after hhead] at htokens
          have hlength : after.length < (c :: front).length := by
            rw [heq, List.length_append]
            have : written ≠ [] := by
              rintro rfl
              cases hwritten
            have := List.length_pos_iff.mpr this
            omega
          cases hrest : splitTokens lineNumber after with
          | error e =>
              rw [hrest] at htokens
              cases htokens
          | ok tokens' =>
              rw [hrest] at htokens
              cases htokens
              rw [heq, List.append_assoc, htoken _ (by rw [head_append hne]; exact hhead),
                ih _ hlength hrest hafter rfl, map_cons_map]
        cases hblank : isBlank c with
        | true =>
            rw [splitTokens_blank hblank] at htokens
            rw [List.cons_append, splitTokens_blank hblank]
            refine ih _ (by simp) htokens (fun d hd => hlast d ?_) rfl
            rw [Option.mem_def, List.getLast?_cons, Option.mem_def.mp hd]
            rfl
        | false =>
            cases hquote : isQuote c with
            | true =>
                have hcuts := htokens
                rw [splitTokens, splitTokensFrom, hblank, hquote] at hcuts
                cases hcut : cut c front with
                | none =>
                    rw [hcut] at hcuts
                    cases hcuts
                | some parts =>
                    obtain ⟨token, after⟩ := parts
                    obtain ⟨rfl, htoken⟩ := cut_eq_some hcut
                    have hhead : ∀ e ∈ after.head?, isBlank e = true := by
                      intro e he
                      by_contra hne
                      rw [Bool.not_eq_true] at hne
                      rw [hcut] at hcuts
                      simp [Option.mem_def.mp he, hne] at hcuts
                    have hwritten : (c :: (token ++ [c])).getLast? = some c := by
                      rw [← List.cons_append, List.getLast?_concat]
                    refine hstep token (by simp) hwritten hblank
                      (fun after' hhead' => ?_) hhead
                    simpa using splitTokens_quoted lineNumber hquote htoken hhead'
            | false =>
                obtain ⟨token, after, rfl, htoken, hhead⟩ := exists_bare front
                obtain ⟨d, hd⟩ : ∃ d, (c :: token).getLast? = some d := by
                  simp [List.getLast?_cons]
                have hdblank : isBlank d = false := by
                  have hmem := List.mem_of_getLast? hd
                  rcases List.mem_cons.mp hmem with rfl | hmem
                  · exact hblank
                  · exact htoken d hmem
                exact hstep (c :: token) (by simp) hd hdblank
                  (fun after' hhead' => splitTokens_bare hblank hquote htoken hhead') hhead

/-! ## The position of a token -/

/-- What the directive gets of a part of its arguments. -/
def writtenTokens (values : Values) (lineNumber : Nat) (written : Text) :
    Except Text (List Text) :=
  (substituteOrFail values lineNumber written).bind (splitTokens lineNumber)

/-- A part of the arguments that is whole tokens once its references are substituted. -/
structure Stretch (values : Values) (lineNumber : Nat) where
  written : Text
  tokens : List Text
  closed : Closed written
  ends : ∀ c ∈ written.getLast?, isBlank c = true
  splits : writtenTokens values lineNumber written = .ok tokens

/-- The name is not referred to. -/
inductive Free (name : Text) : Text → Prop where
  | nil : Free name []
  | reference {other rest : Text} (named : '\x7d' ∉ other) (other_ne : other ≠ name)
      (next : Free name rest) : Free name ('$' :: '\x7b' :: (other ++ '\x7d' :: rest))
  | char {c : Char} {rest : Text} (opens_none : ¬(c = '$' ∧ rest.head? = some '\x7b'))
      (next : Free name rest) : Free name (c :: rest)

/-- A reference alone in quotes. -/
def quotedReference (q : Char) (name : Text) : Text :=
  q :: '$' :: '\x7b' :: (name ++ ['\x7d', q])

theorem Free.substitute {name s : Text} (h : Free name s) (value : Text) (values : Values) :
    substitute ((name, value) :: values) s = substitute values s := by
  induction h with
  | nil => rfl
  | reference named other_ne next ih =>
      rw [substitute_reference named, substitute_reference named, ih, List.lookup_cons,
        beq_false_of_ne other_ne]
  | char opens_none next ih =>
      rw [substitute_char opens_none, substitute_char opens_none, ih]

theorem Free.writtenTokens {name s : Text} (h : Free name s) (value : Text) (values : Values)
    (lineNumber : Nat) :
    writtenTokens ((name, value) :: values) lineNumber s = writtenTokens values lineNumber s := by
  rw [HaisosFile.writtenTokens, substituteOrFail, h.substitute]
  rfl

theorem head?_substitute (values : Values) {c : Char} (rest : Text) (hc : c ≠ '$') :
    (substitute values (c :: rest)).1.head? = some c := by
  rw [substitute_char fun h => hc h.1]
  rfl

theorem head?_substitute_blank (values : Values) {s : Text}
    (h : ∀ c ∈ s.head?, isBlank c = true) :
    ∀ c ∈ (substitute values s).1.head?, isBlank c = true := by
  intro c hc
  rcases s with _ | ⟨d, s⟩
  · cases hc
  · have hblank := h d rfl
    have hdollar : d ≠ '$' := by
      rintro rfl
      cases hblank
    rw [head?_substitute values s hdollar] at hc
    cases hc
    exact hblank

theorem substitute_quotedReference {values : Values} {q : Char} (hq : isQuote q = true)
    {name value : Text} (hname : '\x7d' ∉ name) (hvalue : values.lookup name = some value)
    (after : Text) :
    substitute values (quotedReference q name ++ after) =
      (q :: (value ++ q :: (substitute values after).1), (substitute values after).2) := by
  have hdollar : q ≠ '$' := by
    rintro rfl
    cases hq
  have happend : quotedReference q name ++ after =
      q :: '$' :: '\x7b' :: (name ++ '\x7d' :: q :: after) := by
    simp [quotedReference]
  rw [happend, substitute_char fun h => hdollar h.1, substitute_reference hname, hvalue,
    substitute_char fun h => hdollar h.1]

theorem writtenTokens_eq (values : Values) (lineNumber : Nat) (s : Text) :
    writtenTokens values lineNumber s =
      match (substitute values s).2 with
      | none => splitTokens lineNumber (substitute values s).1
      | some message =>
          .error (text "Error: line " ++ Hsh.natText lineNumber ++ text ": " ++ message) := by
  unfold writtenTokens substituteOrFail
  rcases substitute values s with ⟨result, _ | message⟩ <;> rfl

theorem writtenTokens_quotedReference {values : Values} (lineNumber : Nat) {q : Char}
    (hq : isQuote q = true) {name value : Text} (hname : '\x7d' ∉ name)
    (hlookup : values.lookup name = some value) (hvalue : q ∉ value) {after : Text}
    (hafter : ∀ c ∈ after.head?, isBlank c = true) :
    writtenTokens values lineNumber (quotedReference q name ++ after) =
      (writtenTokens values lineNumber after).map (value :: ·) := by
  rw [writtenTokens_eq, writtenTokens_eq, substitute_quotedReference hq hname hlookup]
  cases (substitute values after).2 with
  | some message => rfl
  | none => exact splitTokens_quoted lineNumber hq hvalue (head?_substitute_blank values hafter)

section Stretches

variable {values : Values} {lineNumber : Nat}

theorem Stretch.last_ne_dollar (stretch : Stretch values lineNumber) :
    stretch.written.getLast? ≠ some '$' := by
  intro hlast
  have hblank := stretch.ends '$' hlast
  cases hblank

theorem Stretch.substitute_eq (stretch : Stretch values lineNumber) :
    ∃ result, substitute values stretch.written = (result, none) ∧
      splitTokens lineNumber result = .ok stretch.tokens := by
  have hsplits := stretch.splits
  rw [writtenTokens_eq] at hsplits
  rcases hwritten : substitute values stretch.written with ⟨result, _ | message⟩
  · rw [hwritten] at hsplits
    exact ⟨result, rfl, hsplits⟩
  · rw [hwritten] at hsplits
    cases hsplits

theorem Stretch.ends_substituted (stretch : Stretch values lineNumber) :
    ∀ c ∈ (substitute values stretch.written).1.getLast?, isBlank c = true := by
  intro c hc
  cases hlast : stretch.written.getLast? with
  | none =>
      rw [List.getLast?_eq_none_iff] at hlast
      rw [hlast] at hc
      cases hc
  | some d =>
      have hblank := stretch.ends d hlast
      have hbrace : d ≠ '\x7d' := by
        rintro rfl
        cases hblank
      have := stretch.closed.getLast?_substitute values hlast hbrace
      rw [Option.mem_def, this] at hc
      cases hc
      exact hblank

theorem Stretch.writtenTokens_append (stretch : Stretch values lineNumber) (rest : Text) :
    writtenTokens values lineNumber (stretch.written ++ rest) =
      (writtenTokens values lineNumber rest).map (stretch.tokens ++ ·) := by
  obtain ⟨result, hresult, htokens⟩ := stretch.substitute_eq
  have hends := stretch.ends_substituted
  rw [hresult] at hends
  rw [writtenTokens_eq, writtenTokens_eq,
    stretch.closed.substitute_append stretch.last_ne_dollar, hresult, Option.none_or]
  cases (substitute values rest).2 with
  | some message => rfl
  | none => exact splitTokens_append htokens hends (substitute values rest).1

/-- The stretches as they are written one after the other. -/
def writtenOf (stretches : List (Stretch values lineNumber)) : Text :=
  stretches.flatMap Stretch.written

def tokensOf (stretches : List (Stretch values lineNumber)) : List Text :=
  stretches.flatMap Stretch.tokens

theorem writtenTokens_stretches (stretches : List (Stretch values lineNumber)) (rest : Text) :
    writtenTokens values lineNumber (writtenOf stretches ++ rest) =
      (writtenTokens values lineNumber rest).map (tokensOf stretches ++ ·) := by
  induction stretches with
  | nil =>
      change writtenTokens values lineNumber rest = _
      cases writtenTokens values lineNumber rest <;> rfl
  | cons stretch stretches ih =>
      have hwritten : writtenOf (stretch :: stretches) ++ rest =
          stretch.written ++ (writtenOf stretches ++ rest) := by simp [writtenOf]
      rw [hwritten, stretch.writtenTokens_append, ih]
      cases writtenTokens values lineNumber rest <;> simp [Except.map, tokensOf]

end Stretches

theorem argumentTokens_eq (st : ParseState) (rest : Text) :
    argumentTokens st rest = st.orFail (writtenTokens st.values st.lineNumber rest) := by
  unfold argumentTokens writtenTokens
  cases substituteOrFail st.values st.lineNumber rest <;> rfl

@[simp] theorem noteFileDirective_values (st : ParseState) (key : Text) :
    (st.noteFileDirective key).values = st.values := by
  unfold ParseState.noteFileDirective
  split_ifs <;> rfl

@[simp] theorem noteFileDirective_lineNumber (st : ParseState) (key : Text) :
    (st.noteFileDirective key).lineNumber = st.lineNumber := by
  unfold ParseState.noteFileDirective
  split_ifs <;> rfl

theorem parseLine_tokens {argOverrides : List (Text × Text)} {st : ParseState}
    {rawLine key rest : Text} {stream : List Text}
    {directive : ParseState → List Text → Parsed ParseState}
    (hdirective : tokenDirective key = some directive)
    (hline : splitKey (trim (stripComment rawLine)) = (key, rest))
    (horder : outOfOrder st key = none)
    (hrefused : refusedBefore (st.noteFileDirective key) key rest = none) :
    parseLine argOverrides st rawLine stream =
      (argumentTokens (st.noteFileDirective key) rest >>=
        directive (st.noteFileDirective key)).map (·, 0) := by
  have hnamed : ∀ other : String, tokenDirective (text other) = none → key ≠ text other := by
    rintro other hother rfl
    rw [hother] at hdirective
    cases hdirective
  have hne : trim (stripComment rawLine) ≠ [] := by
    intro hnil
    rw [hnil] at hline
    cases hline
    cases hdirective
  simp only [parseLine, if_neg hne, hline, horder, hdirective, if_neg (hnamed "ARG" rfl),
    if_neg (hnamed "VAR" rfl), if_neg (hnamed "ENV" rfl), if_neg (hnamed "CREATE" rfl),
    if_neg (hnamed "APPEND" rfl), parseTokens, hrefused]

/--
At a token written as a quoted reference alone the directive gets exactly the
value, when the value does not hold the quote. The tokens of every other stretch
that does not refer to the name are the same for every value.
-/
theorem parseLine_quotedReference {st : ParseState} {key name : Text}
    {directive : ParseState → List Text → Parsed ParseState}
    (hdirective : tokenDirective key = some directive)
    {q : Char} (hq : isQuote q = true) (hname : '\x7d' ∉ name)
    {value : Text} (hlookup : st.values.lookup name = some value) (hvalue : q ∉ value)
    {before middle : List (Stretch st.values st.lineNumber)} {tail : Text}
    (hafter : ∀ c ∈ (writtenOf middle ++ tail).head?, isBlank c = true)
    {argOverrides : List (Text × Text)} {rawLine : Text} {stream : List Text}
    (hline : splitKey (trim (stripComment rawLine)) =
      (key, writtenOf before ++ (quotedReference q name ++ (writtenOf middle ++ tail))))
    (horder : outOfOrder st key = none)
    (hrefused : refusedBefore (st.noteFileDirective key) key
      (writtenOf before ++ (quotedReference q name ++ (writtenOf middle ++ tail))) = none) :
    parseLine argOverrides st rawLine stream =
        ((st.noteFileDirective key).orFail
            ((writtenTokens st.values st.lineNumber tail).map fun later =>
              tokensOf before ++ value :: (tokensOf middle ++ later)) >>=
          directive (st.noteFileDirective key)).map (·, 0) ∧
      ∀ value',
        (∀ stretch ∈ before ++ middle, Free name stretch.written →
          writtenTokens ((name, value') :: st.values) st.lineNumber stretch.written =
            .ok stretch.tokens) ∧
        (Free name tail →
          writtenTokens ((name, value') :: st.values) st.lineNumber tail =
            writtenTokens st.values st.lineNumber tail) := by
  refine ⟨?_, fun value' => ⟨fun stretch _ hfree => ?_, fun hfree => ?_⟩⟩
  · rw [parseLine_tokens hdirective hline horder hrefused, argumentTokens_eq,
      noteFileDirective_values, noteFileDirective_lineNumber, writtenTokens_stretches,
      writtenTokens_quotedReference _ hq hname hlookup hvalue hafter, writtenTokens_stretches]
    cases writtenTokens st.values st.lineNumber tail <;> rfl
  · rw [hfree.writtenTokens]
    exact stretch.splits
  · exact hfree.writtenTokens value' st.values st.lineNumber

/--
Blanks, the other quote, a comment mark and a reference in a value are part of
its token, and the name may be referred to again before and after it.
-/
theorem parseLine_quotedReference_copy :
    parseLine [] { values := [(text "src", text "a b # 'c' $\x7bx\x7d")], lineNumber := 1 }
        (text "COPY \"$\x7bsrc\x7d\" \"$\x7bsrc\x7d\" # here") [] =
      (copyTokens
        { values := [(text "src", text "a b # 'c' $\x7bx\x7d")]
          lineNumber := 1
          firstFileDirectiveLine := 1 }
        [text "a b # 'c' $\x7bx\x7d", text "a b # 'c' $\x7bx\x7d"]).map (·, 0) := by
  let st : ParseState :=
    { values := [(text "src", text "a b # 'c' $\x7bx\x7d")], lineNumber := 1 }
  have hopens : ∀ rest, ¬('"' = '$' ∧ rest = some '\x7b') := by
    rintro _ ⟨h, -⟩
    cases h
  have hreference : Closed ('$' :: '\x7b' :: (text "src" ++ '\x7d' :: text "\" ")) :=
    .reference (by decide) (.char (hopens _) (.char (by decide) .nil))
  have hclosed : Closed (text "\"$\x7bsrc\x7d\" ") := .char (hopens _) hreference
  let first : Stretch st.values st.lineNumber :=
    { written := text "\"$\x7bsrc\x7d\" "
      tokens := [text "a b # 'c' $\x7bx\x7d"]
      closed := hclosed
      ends := by simp [text, isBlank]
      splits := by rfl }
  have hvalue : '"' ∉ text "a b # 'c' $\x7bx\x7d" := by decide
  have hline : splitKey (trim (stripComment
      (text "COPY \"$\x7bsrc\x7d\" \"$\x7bsrc\x7d\" # here"))) =
      (text "COPY", writtenOf [first] ++ (quotedReference '"' (text "src") ++
        (writtenOf ([] : List (Stretch st.values st.lineNumber)) ++ []))) := rfl
  have horder : outOfOrder st (text "COPY") = none := rfl
  exact (parseLine_quotedReference rfl (q := '"') rfl (by decide) rfl hvalue (by simp [writtenOf])
    hline horder rfl).1

/--
A value with the quote that its reference is written in is not one token, and a
quote in a value before it can take the position away.
-/
theorem quotedReference_ownQuote :
    (parseHaisosFile (text "ARG dir\nCREATE_DIR '$\x7bdir\x7d'\nRUN /agent.md\n")
        [(text "dir", text "/it's")]).config.setupOperations.map HaisosFileOperation.path ≠
          [text "/it's"] ∧
      (parseHaisosFile
          (text "ARG from\nARG to\nCOPY $\x7bfrom\x7d \"$\x7bto\x7d\"\nRUN /agent.md\n")
        [(text "from", text "\"x"), (text "to", text "/y")]).config.setupOperations.map
          HaisosFileOperation.path ≠ [text "/y"] := by
  decide +kernel

end Haisos.HaisosFile
