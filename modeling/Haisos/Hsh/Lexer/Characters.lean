import Haisos.Hsh.Lexer
import Mathlib.Tactic

/-!
# What the lexer reads

The reader of each kind of group, run on a source that goes on with a text of
that kind: the parts it adds, and the lexer past the text.
-/

namespace Haisos.Hsh

variable {α β : Type}

theorem run_bind_ok {m : Lex α} {f : α → Lex β} {lexer lexer' : Lexer} {a : α}
    (h : m.run lexer = .ok (a, lexer')) : (m >>= f).run lexer = (f a).run lexer' := by
  rw [StateT.run_bind, h]
  rfl

/-! ## Past a text -/

namespace Lexer

def past (lexer : Lexer) (text : Text) : Lexer := text.foldl advance lexer

@[simp] theorem past_nil (lexer : Lexer) : lexer.past [] = lexer := rfl

@[simp] theorem past_cons (lexer : Lexer) (c : Char) (text : Text) :
    lexer.past (c :: text) = (lexer.advance c).past text := rfl

theorem past_append (lexer : Lexer) (text text' : Text) :
    lexer.past (text ++ text') = (lexer.past text).past text' := List.foldl_append ..

@[simp] theorem advance_source (lexer : Lexer) (c : Char) :
    (lexer.advance c).source = lexer.source := rfl

theorem rest_advance {lexer : Lexer} {c : Char} {rest : Text} (h : lexer.rest = c :: rest) :
    (lexer.advance c).rest = rest := by
  have : lexer.source.drop (lexer.pos + 1) = (lexer.source.drop lexer.pos).drop 1 := by
    rw [List.drop_drop]
  rw [Lexer.rest] at h
  rw [Lexer.rest, advance_source]
  exact this.trans (by rw [h]; rfl)

theorem rest_past {text rest : Text} : ∀ {lexer : Lexer}, lexer.rest = text ++ rest →
    (lexer.past text).rest = rest := by
  induction text with
  | nil =>
      intro lexer h
      exact h
  | cons c text ih =>
      intro lexer h
      exact ih (rest_advance h)

@[simp] theorem past_source (lexer : Lexer) (text : Text) :
    (lexer.past text).source = lexer.source := by
  induction text generalizing lexer with
  | nil => rfl
  | cons c text ih => exact ih _

@[simp] theorem past_pos (lexer : Lexer) (text : Text) :
    (lexer.past text).pos = lexer.pos + text.length := by
  induction text generalizing lexer with
  | nil => rfl
  | cons c text ih =>
      rw [past_cons, ih, List.length_cons]
      change lexer.pos + 1 + text.length = _
      omega

theorem past_lastCharEnd (lexer : Lexer) {text : Text} (h : text ≠ []) :
    (lexer.past text).lastCharEnd = lexer.pos + text.length := by
  induction text generalizing lexer with
  | nil => exact absurd rfl h
  | cons c text ih =>
      rcases text with _ | ⟨d, text⟩
      · rfl
      · rw [past_cons, ih _ (by simp), List.length_cons (a := c)]
        change lexer.pos + 1 + _ = _
        omega

@[simp] theorem past_expectHereDocDelimiter (lexer : Lexer) (text : Text) :
    (lexer.past text).expectHereDocDelimiter = lexer.expectHereDocDelimiter := by
  induction text generalizing lexer with
  | nil => rfl
  | cons c text ih => exact ih _

@[simp] theorem past_pendingHereDocs (lexer : Lexer) (text : Text) :
    (lexer.past text).pendingHereDocs = lexer.pendingHereDocs := by
  induction text generalizing lexer with
  | nil => rfl
  | cons c text ih => exact ih _

@[simp] theorem past_incompleteHereDoc (lexer : Lexer) (text : Text) :
    (lexer.past text).incompleteHereDoc = lexer.incompleteHereDoc := by
  induction text generalizing lexer with
  | nil => rfl
  | cons c text ih => exact ih _

theorem past_lastContinuationAtEnd (lexer : Lexer) {text : Text}
    (h : lexer.lastContinuationAtEnd = false) :
    (lexer.past text).lastContinuationAtEnd = false := by
  induction text generalizing lexer with
  | nil => exact h
  | cons c text ih => exact ih _ rfl

theorem take_drop_source {lexer : Lexer} {text rest : Text} (h : lexer.rest = text ++ rest) :
    (lexer.source.take (lexer.pos + text.length)).drop lexer.pos = text := by
  rw [List.drop_take, Nat.add_sub_cancel_left]
  rw [Lexer.rest] at h
  rw [h, List.take_left]

theorem skipContinuations_eq {lexer : Lexer} (h : lexer.rest.head? ≠ some '\\') :
    lexer.skipContinuations = lexer := by
  have hnone : continuations lexer.rest = 0 := by
    rcases hrest : lexer.rest with _ | ⟨c, rest⟩
    · rfl
    · rw [hrest, List.head?_cons, ne_eq, Option.some.injEq] at h
      unfold continuations
      split
      · rename_i heq
        cases heq
        exact absurd rfl h
      · rfl
  rw [skipContinuations, hnone]
  rfl

end Lexer

/-! ## The character layer -/

variable {lexer : Lexer} {c : Char} {rest : Text}

@[simp] theorem run_rawPeek (lexer : Lexer) : rawPeek.run lexer = .ok (lexer.rest.head?, lexer) :=
  rfl

theorem run_rawGet (h : lexer.rest = c :: rest) : rawGet.run lexer = .ok ((), lexer.advance c) := by
  rw [rawGet, run_bind_ok (run_rawPeek lexer), h]
  rfl

theorem run_peek (h : lexer.rest.head? ≠ some '\\') :
    peek.run lexer = .ok (lexer.rest.head?, lexer) := by
  have hskip : (modify fun lexer : Lexer => lexer.skipContinuations : Lex Unit).run lexer =
      .ok ((), lexer) := by
    change Except.ok ((), lexer.skipContinuations) = _
    rw [Lexer.skipContinuations_eq h]
  exact run_bind_ok hskip

theorem run_peek_cons (h : lexer.rest = c :: rest) (hc : c ≠ '\\') :
    peek.run lexer = .ok (some c, lexer) := by
  rw [run_peek (by simpa [h] using hc), h]
  rfl

/-! ## Groups -/

theorem run_singleQuotedText {text : Text} (htext : '\'' ∉ text) : ∀ {fuel : Nat} {lexer : Lexer}
    (before : Text), lexer.rest = text ++ '\'' :: rest → text.length < fuel →
    (singleQuotedText fuel before).run lexer = .ok (before ++ text, lexer.past (text ++ ['\''])) := by
  induction text with
  | nil =>
      intro fuel lexer before h hfuel
      obtain ⟨fuel, rfl⟩ : ∃ n, fuel = n + 1 := ⟨fuel - 1, by omega⟩
      have h : lexer.rest = '\'' :: rest := h
      rw [singleQuotedText, run_bind_ok (run_rawPeek lexer), h]
      simp only [List.head?_cons, if_true]
      rw [run_bind_ok (run_rawGet h), List.append_nil]
      rfl
  | cons c text ih =>
      intro fuel lexer before h hfuel
      have hc : c ≠ '\'' := fun hc => htext (by simp [hc])
      obtain ⟨fuel, rfl⟩ : ∃ n, fuel = n + 1 := ⟨fuel - 1, by omega⟩
      have h : lexer.rest = c :: (text ++ '\'' :: rest) := h
      rw [singleQuotedText, run_bind_ok (run_rawPeek lexer), h]
      simp only [List.head?_cons]
      rw [run_bind_ok (run_rawGet h), if_neg hc,
        ih (fun hmem => htext (List.mem_cons_of_mem _ hmem)) _ (Lexer.rest_advance h)
          (by simpa using hfuel)]
      simp

theorem run_readSingleQuoted {text : Text} (htext : '\'' ∉ text) {fuel : Nat}
    (parts : List WordPart) (h : lexer.rest = '\'' :: (text ++ '\'' :: rest))
    (hfuel : text.length < fuel) :
    (readSingleQuoted fuel parts).run lexer =
      .ok (appendText parts .quoted text, lexer.past ('\'' :: (text ++ ['\'']))) := by
  rw [readSingleQuoted, run_bind_ok (run_rawGet h),
    run_bind_ok (run_singleQuotedText htext [] (Lexer.rest_advance h) hfuel)]
  rfl

def standsInDoubleQuotes (c : Char) : Prop := c ≠ '"' ∧ c ≠ '\\' ∧ c ≠ '$' ∧ c ≠ '`'

theorem run_doubleQuotedParts {text : Text} (htext : ∀ c ∈ text, standsInDoubleQuotes c) :
    ∀ {fuel : Nat} {lexer : Lexer} (parts : List WordPart),
      lexer.rest = text ++ '"' :: rest → text.length < fuel →
      (doubleQuotedParts fuel parts).run lexer =
        .ok (text.foldl (appendChar · .quoted ·) parts, lexer.past (text ++ ['"'])) := by
  induction text with
  | nil =>
      intro fuel lexer parts h hfuel
      obtain ⟨fuel, rfl⟩ : ∃ n, fuel = n + 1 := ⟨fuel - 1, by omega⟩
      have h : lexer.rest = '"' :: rest := h
      rw [doubleQuotedParts, run_bind_ok (run_peek_cons h (by decide))]
      simp only [if_pos]
      rw [run_bind_ok (run_rawGet h)]
      rfl
  | cons c text ih =>
      intro fuel lexer parts h hfuel
      obtain ⟨hquote, hbackslash, hdollar, hbackquote⟩ := htext c (by simp)
      obtain ⟨fuel, rfl⟩ : ∃ n, fuel = n + 1 := ⟨fuel - 1, by omega⟩
      have h : lexer.rest = c :: (text ++ '"' :: rest) := h
      rw [doubleQuotedParts, run_bind_ok (run_peek_cons h hbackslash)]
      simp only [if_neg hquote, if_neg hbackslash, if_neg hdollar, if_neg hbackquote]
      rw [run_bind_ok (run_rawGet h),
        ih (fun d hd => htext d (List.mem_cons_of_mem _ hd)) _ (Lexer.rest_advance h)
          (by simpa using hfuel)]
      rfl

/-! ## Words -/

theorem run_readWordCharacters_end {fuel : Nat} {parts : List WordPart}
    (h : ∀ c ∈ lexer.rest.head?, endsWord c = true) :
    (readWordCharacters (fuel + 1) parts).run lexer = .ok (parts, lexer) := by
  have hbackslash : lexer.rest.head? ≠ some '\\' := by
    intro hhead
    have := h '\\' hhead
    revert this
    decide
  rw [readWordCharacters, run_bind_ok (run_peek hbackslash)]
  rcases hhead : lexer.rest.head? with _ | c
  · rfl
  · simp only [h c hhead, if_true]
    rfl

theorem run_readWordCharacters_single {text : Text} (htext : '\'' ∉ text) {fuel : Nat}
    {parts : List WordPart} (h : lexer.rest = '\'' :: (text ++ '\'' :: rest))
    (hfuel : text.length < fuel) :
    (readWordCharacters (fuel + 1) parts).run lexer =
      (readWordCharacters fuel (appendText parts .quoted text)).run
        (lexer.past ('\'' :: (text ++ ['\'']))) := by
  rw [readWordCharacters, run_bind_ok (run_peek_cons h (by decide))]
  exact run_bind_ok (run_readSingleQuoted htext parts h hfuel)

theorem run_readWordCharacters_double {text : Text} (htext : ∀ c ∈ text, standsInDoubleQuotes c)
    {fuel : Nat} {parts : List WordPart} (h : lexer.rest = '"' :: (text ++ '"' :: rest))
    (hfuel : text.length < fuel) :
    (readWordCharacters (fuel + 1) parts).run lexer =
      (readWordCharacters fuel
        (parts ++ [.doubleQuoted (text.foldl (appendChar · .quoted ·) [])])).run
        (lexer.past ('"' :: (text ++ ['"']))) := by
  rw [readWordCharacters, run_bind_ok (run_peek_cons h (by decide))]
  refine (run_bind_ok (run_rawGet h)).trans ?_
  exact run_bind_ok (run_doubleQuotedParts htext [] (Lexer.rest_advance h) hfuel)

def standsInWord (c : Char) : Prop :=
  endsWord c = false ∧ c ≠ '\'' ∧ c ≠ '"' ∧ c ≠ '\\' ∧ c ≠ '$' ∧ c ≠ '`'

theorem run_readWordCharacters_literal {text : Text} (htext : ∀ c ∈ text, standsInWord c)
    {fuel : Nat} : ∀ {lexer : Lexer} (parts : List WordPart), lexer.rest = text ++ rest →
    (readWordCharacters (text.length + fuel) parts).run lexer =
      (readWordCharacters fuel (text.foldl (appendChar · .literal ·) parts)).run
        (lexer.past text) := by
  induction text with
  | nil =>
      intro lexer parts _
      rw [List.length_nil, Nat.zero_add]
      rfl
  | cons c text ih =>
      intro lexer parts h
      obtain ⟨hends, hsingle, hdouble, hbackslash, hdollar, hbackquote⟩ := htext c (by simp)
      have h : lexer.rest = c :: (text ++ rest) := h
      rw [List.length_cons, Nat.add_right_comm, readWordCharacters,
        run_bind_ok (run_peek_cons h hbackslash)]
      simp only [hends, Bool.false_eq_true, if_false, if_neg hsingle, if_neg hdouble,
        if_neg hbackslash, if_neg hdollar, if_neg hbackquote]
      rw [run_bind_ok (run_rawGet h),
        ih (fun d hd => htext d (List.mem_cons_of_mem _ hd)) _ (Lexer.rest_advance h)]
      rfl

/-! ## What is merged -/

theorem lastText_concat (kind : PlainKind) (parts : List WordPart) (text : Text) :
    lastText kind (parts ++ [kind.part text]) = some text := by
  cases kind <;> simp [lastText, PlainKind.textOf, PlainKind.part]

theorem foldl_appendChar (kind : PlainKind) (parts : List WordPart) (before text : Text) :
    text.foldl (appendChar · kind ·) (parts ++ [kind.part before]) =
      parts ++ [kind.part (before ++ text)] := by
  induction text generalizing before with
  | nil => simp
  | cons c text ih =>
      rw [List.foldl_cons, appendChar, mergeText, lastText_concat, List.dropLast_concat, ih]
      simp

theorem foldl_appendChar_nil (kind : PlainKind) {text : Text} (h : text ≠ []) :
    text.foldl (appendChar · kind ·) [] = [kind.part text] := by
  rcases text with _ | ⟨c, text⟩
  · exact absurd rfl h
  · have := foldl_appendChar kind [] [c] text
    simpa [appendChar, mergeText, lastText] using this

/-! ## Tokens -/

/-- A character that a token which is a word may begin with, besides a digit. -/
def startsWord (c : Char) : Prop :=
  endsWord c = false ∧ c ≠ '#' ∧ c ≠ '\\' ∧ isDigit c = false

theorem run_skipBlanks {blanks : Text} (hblanks : ∀ b ∈ blanks, isBlank b = true)
    (hc : c ≠ '\\') (hblank : isBlank c = false) : ∀ {fuel : Nat} {lexer : Lexer},
    lexer.rest = blanks ++ c :: rest → blanks.length < fuel →
    (skipBlanks fuel).run lexer = .ok ((), lexer.past blanks) := by
  induction blanks with
  | nil =>
      intro fuel lexer h hfuel
      obtain ⟨fuel, rfl⟩ : ∃ n, fuel = n + 1 := ⟨fuel - 1, by omega⟩
      have h : lexer.rest = c :: rest := h
      rw [skipBlanks, run_bind_ok (run_peek_cons h hc)]
      simp only [hblank, Bool.false_eq_true, if_false]
      rfl
  | cons b blanks ih =>
      intro fuel lexer h hfuel
      obtain ⟨fuel, rfl⟩ : ∃ n, fuel = n + 1 := ⟨fuel - 1, by omega⟩
      have h : lexer.rest = b :: (blanks ++ c :: rest) := h
      have hb := hblanks b (by simp)
      have hbackslash : b ≠ '\\' := by
        rintro rfl
        cases hb
      rw [skipBlanks, run_bind_ok (run_peek_cons h hbackslash)]
      simp only [hb, if_true]
      rw [run_bind_ok (run_rawGet h)]
      exact ih (fun d hd => hblanks d (by simp [hd])) (Lexer.rest_advance h) (by simpa using hfuel)

theorem run_skipToToken {blanks : Text} (hblanks : ∀ b ∈ blanks, isBlank b = true) {fuel : Nat}
    (h : lexer.rest = blanks ++ c :: rest) (hc : c ≠ '\\') (hblank : isBlank c = false)
    (hcomment : c ≠ '#') (hfuel : blanks.length < fuel) :
    (skipToToken fuel).run lexer = .ok (some c, lexer.past blanks) := by
  have hpast := Lexer.rest_past h
  rw [skipToToken, run_bind_ok (run_skipBlanks hblanks hc hblank h hfuel),
    run_bind_ok (run_peek_cons hpast hc), if_neg (by simpa using hcomment)]
  exact run_peek_cons hpast hc

def Lexer.expecting (lexer : Lexer) : Lexer := { lexer with expectHereDocDelimiter := false }

theorem Lexer.line_past_expecting (lexer : Lexer) (text : Text) :
    (lexer.expecting.past text).line = (lexer.past text).line := by
  induction text generalizing lexer with
  | nil => rfl
  | cons c text ih => exact ih (lexer.advance c)

theorem run_nextToken_word {blanks : Text} (hblanks : ∀ b ∈ blanks, isBlank b = true)
    {fuel : Nat} (h : lexer.rest = blanks ++ c :: rest) (hc : startsWord c)
    (hfuel : blanks.length ≤ fuel) :
    (nextToken (fuel + 3)).run lexer =
      (readWordRest (fuel + 1)
        { line := (lexer.past blanks).line, beginsAt := (lexer.past blanks).pos }
        (if lexer.expectHereDocDelimiter then some lexer.hereDocStripsTabs else none) []).run
        (lexer.expecting.past blanks) := by
  obtain ⟨hends, hcomment, hbackslash, hdigit⟩ := hc
  simp only [endsWord, Bool.or_eq_false_iff, beq_eq_false_iff_ne] at hends
  obtain ⟨⟨hblank, hnewline⟩, hoperator⟩ := hends
  have hexpecting : lexer.expecting.rest = blanks ++ c :: rest := h
  have hflags : takeDelimiterFlags.run lexer = .ok
      (if lexer.expectHereDocDelimiter then some lexer.hereDocStripsTabs else none,
        lexer.expecting) := rfl
  have hget : (get : Lex Lexer).run (lexer.expecting.past blanks) =
      .ok (lexer.expecting.past blanks, lexer.expecting.past blanks) := rfl
  have hskip := run_skipToToken hblanks hexpecting hbackslash hblank hcomment
    (show blanks.length < fuel + 2 by omega)
  rw [nextToken, run_bind_ok hflags, run_bind_ok hskip, run_bind_ok hget, readToken]
  simp only [if_neg hnewline, hdigit, hoperator, Bool.false_eq_true, if_false]
  rw [Lexer.line_past_expecting, Lexer.past_pos, Lexer.past_pos]
  rfl

theorem run_readWordRest (token : Token) (hereDoc : Option Bool) {fuel : Nat}
    {parts : List WordPart} {written tail : Text}
    (hread : (readWordCharacters fuel []).run lexer = .ok (parts, lexer.past written))
    (hrest : lexer.rest = written ++ tail) (hne : written ≠ [])
    (hbegins : token.beginsAt = lexer.pos) :
    ∃ token' lexer', (readWordRest (fuel + 1) token hereDoc []).run lexer = .ok (token', lexer') ∧
      token'.kind = .word ∧ token'.word = { parts, source := written, line := token.line } ∧
      token'.beginsAt = lexer.pos ∧ token'.endsAt = lexer.pos + written.length ∧
      lexer'.rest = tail ∧ (hereDoc = none → lexer' = lexer.past written) := by
  have hget : (get : Lex Lexer).run (lexer.past written) =
      .ok (lexer.past written, lexer.past written) := rfl
  have hend := lexer.past_lastCharEnd hne
  have hsource : ((lexer.past written).source.take (lexer.pos + written.length)).drop
      token.beginsAt = written := by
    rw [Lexer.past_source, hbegins]
    exact Lexer.take_drop_source hrest
  rw [readWordRest, run_bind_ok hread, run_bind_ok hget]
  simp only [hend, hsource]
  cases hereDoc with
  | none => exact ⟨_, _, rfl, rfl, rfl, hbegins, rfl, Lexer.rest_past hrest, fun _ => rfl⟩
  | some stripTabs =>
      exact ⟨_, _, rfl, rfl, rfl, hbegins, rfl, Lexer.rest_past hrest, by simp⟩

/-! ## A lexer between commands -/

/-- No here-document is expected or pending, and the source did not end in a continuation. -/
structure Lexer.Settled (lexer : Lexer) : Prop where
  expects_none : lexer.expectHereDocDelimiter = false
  pending_none : lexer.pendingHereDocs = []
  complete : lexer.incompleteHereDoc = false
  not_continued : lexer.lastContinuationAtEnd = false

theorem Lexer.Settled.past (h : lexer.Settled) (text : Text) : (lexer.past text).Settled where
  expects_none := (lexer.past_expectHereDocDelimiter text).trans h.expects_none
  pending_none := (lexer.past_pendingHereDocs text).trans h.pending_none
  complete := (lexer.past_incompleteHereDoc text).trans h.complete
  not_continued := lexer.past_lastContinuationAtEnd h.not_continued

theorem Lexer.Settled.expecting (h : lexer.Settled) : lexer.expecting = lexer := by
  rw [Lexer.expecting, ← h.expects_none]

theorem run_takeDelimiterFlags (h : lexer.Settled) :
    takeDelimiterFlags.run lexer = .ok (none, lexer) := by
  have hrun : takeDelimiterFlags.run lexer = .ok
      (if lexer.expectHereDocDelimiter then some lexer.hereDocStripsTabs else none,
        lexer.expecting) := rfl
  rw [hrun, h.expecting, h.expects_none]
  rfl

theorem run_readPendingHereDocs (h : lexer.Settled) {fuel : Nat} :
    (readPendingHereDocs (fuel + 2)).run lexer = .ok ((), lexer) := by
  have hget : (get : Lex Lexer).run lexer = .ok (lexer, lexer) := rfl
  have hmodify : (modify fun lexer : Lexer => { lexer with pendingHereDocs := [] } : Lex PUnit).run
      lexer = .ok (⟨⟩, lexer) := by
    have hsame : ({ lexer with pendingHereDocs := [] } : Lexer) = lexer := by
      rw [← h.pending_none]
    change Except.ok (PUnit.unit, ({ lexer with pendingHereDocs := [] } : Lexer)) = _
    rw [hsame]
  rw [readPendingHereDocs, run_bind_ok hget, run_bind_ok hmodify, h.pending_none,
    readHereDocBodies]
  rfl

theorem run_nextToken {blanks : Text} (hblanks : ∀ b ∈ blanks, isBlank b = true) {fuel : Nat}
    {parts : List WordPart} {written tail : Text} (hc : startsWord c)
    (hrest : lexer.rest = blanks ++ c :: (written ++ tail)) (hfuel : blanks.length ≤ fuel)
    (hread : (readWordCharacters fuel []).run (lexer.expecting.past blanks) =
      .ok (parts, (lexer.expecting.past blanks).past (c :: written))) :
    ∃ token lexer', (nextToken (fuel + 3)).run lexer = .ok (token, lexer') ∧
      token.kind = .word ∧
      token.word = { parts, source := c :: written, line := (lexer.past blanks).line } ∧
      lexer'.rest = tail ∧ (lexer.Settled → lexer' = lexer.past (blanks ++ c :: written)) := by
  rw [run_nextToken_word hblanks hrest hc hfuel]
  have hrest' : (lexer.expecting.past blanks).rest = c :: written ++ tail :=
    Lexer.rest_past (show lexer.expecting.rest = blanks ++ (c :: written ++ tail) from hrest)
  have hpos : (lexer.past blanks).pos = (lexer.expecting.past blanks).pos := by
    rw [Lexer.past_pos, Lexer.past_pos]
    rfl
  obtain ⟨token, lexer', hrun, hkind, hword, -, -, htail, hnone⟩ :=
    run_readWordRest { line := (lexer.past blanks).line, beginsAt := (lexer.past blanks).pos }
      (if lexer.expectHereDocDelimiter then some lexer.hereDocStripsTabs else none)
      hread hrest' (by simp) hpos
  refine ⟨token, lexer', hrun, hkind, hword, htail, fun h => ?_⟩
  rw [hnone (by simp [h.expects_none]), h.expecting, Lexer.past_append]

theorem run_nextToken_newline (fuel : Nat) (h : lexer.Settled)
    (hrest : lexer.rest = '\n' :: rest) :
    (nextToken (fuel + 4)).run lexer =
      .ok ({ kind := .newline, line := lexer.line, beginsAt := lexer.pos,
             endsAt := lexer.pos + 1 }, lexer.past ['\n']) := by
  have hget : ∀ lexer : Lexer, (get : Lex Lexer).run lexer = .ok (lexer, lexer) := fun _ => rfl
  have hnone : ∀ b ∈ ([] : Text), isBlank b = true := by simp
  have hbodies : ∀ n, (readPendingHereDocs (n + 2)).run (lexer.advance '\n') =
      .ok ((), lexer.advance '\n') := fun _ => run_readPendingHereDocs (h.past ['\n'])
  rw [nextToken, run_bind_ok (run_takeDelimiterFlags h),
    run_bind_ok (run_skipToToken hnone hrest (by decide) (by decide) (by decide) (by simp)),
    run_bind_ok (hget _), readToken]
  simp only [if_true, Lexer.past_nil]
  rw [run_bind_ok (run_rawGet hrest), run_bind_ok (hget _), run_bind_ok (hbodies fuel)]
  rfl

theorem run_nextToken_end (h : lexer.Settled) (hrest : lexer.rest = []) {fuel : Nat} :
    (nextToken (fuel + 4)).run lexer =
      .ok ({ kind := .endOfInput, line := lexer.line, beginsAt := lexer.source.length,
             endsAt := lexer.source.length }, lexer) := by
  have hget : (get : Lex Lexer).run lexer = .ok (lexer, lexer) := rfl
  have hpeek : peek.run lexer = .ok (none, lexer) := by
    rw [run_peek (by simp [hrest]), hrest]
    rfl
  have hblanks : ∀ n, (skipBlanks (n + 1)).run lexer = .ok ((), lexer) := by
    intro n
    rw [skipBlanks, run_bind_ok hpeek]
    rfl
  have hskip : (skipToToken (fuel + 3)).run lexer = .ok (none, lexer) := by
    rw [skipToToken, run_bind_ok (hblanks _), run_bind_ok hpeek, if_neg (by simp)]
    exact hpeek
  have hdone : (lexer.interactive &&
      (lexer.incompleteHereDoc || lexer.lastContinuationAtEnd)) = false := by
    simp [h.complete, h.not_continued]
  rw [nextToken, run_bind_ok (run_takeDelimiterFlags h), run_bind_ok hskip, run_bind_ok hget,
    readToken, run_bind_ok (run_readPendingHereDocs h), run_bind_ok hget]
  simp only [hdone, Bool.false_eq_true, if_false]
  rfl

end Haisos.Hsh
