import Haisos.BuiltinCommands.Quoting

/-!
# A quoted file name is one word of hsh

Each form that `ShellEscapeQuoted` writes for a name without control bytes, read by the
lexer as the parts of one word, which the expander makes the name of.
-/

namespace Haisos.Hsh

open StateExcept

variable {lexer : Lexer} {c : Char} {rest tail : Text}

/-! ## A quotation that goes on -/

theorem run_peek_backslash (h : lexer.rest = '\\' :: c :: rest) (hc : c ≠ '\n') :
    peek.run lexer = .ok (some '\\', lexer) := by
  have hnone : Lexer.continuations lexer.rest = 0 := by
    rw [h]
    unfold Lexer.continuations
    split
    · rename_i heq
      cases heq
      exact absurd rfl hc
    · rfl
  have hskip : (modify fun lexer : Lexer => lexer.skipContinuations : Lex Unit).run lexer =
      .ok ((), lexer) := by
    change Except.ok ((), lexer.skipContinuations) = _
    rw [Lexer.skipContinuations, hnone]
    rfl
  rw [peek, run_bind_ok hskip, run_rawPeek, h]
  rfl

theorem run_readWordCharacters_escaped {fuel : Nat} {parts : List WordPart}
    (h : lexer.rest = '\\' :: c :: rest) (hc : c ≠ '\n') :
    (readWordCharacters (fuel + 1) parts).run lexer =
      (readWordCharacters fuel (appendChar parts .quoted c)).run (lexer.past ['\\', c]) := by
  have hrest : (lexer.advance '\\').rest = c :: rest := Lexer.rest_advance h
  have hescaped : (readEscaped (fun _ => true) (addChar .quoted) parts).run lexer =
      .ok (appendChar parts .quoted c, lexer.past ['\\', c]) := by
    rw [readEscaped, run_bind_ok (run_rawGet h), run_bind_ok (run_rawPeek _), hrest]
    simp only [List.head?_cons]
    rw [run_bind_ok (run_rawGet hrest)]
    rfl
  rw [readWordCharacters, run_bind_ok (run_peek_backslash h hc)]
  exact run_bind_ok hescaped

theorem appendChar_eq (parts : List WordPart) (c : Char) :
    appendChar parts .quoted c = appendText parts .quoted [c] := rfl

theorem mergeText_mergeText (kind : PlainKind) (parts : List WordPart) (before after : Text) :
    mergeText kind after (mergeText kind before parts) = mergeText kind (before ++ after) parts := by
  cases h : lastText kind parts with
  | none => simp [mergeText, h, lastText_concat]
  | some text => simp [mergeText, h, lastText_concat]

theorem lastText_mergeText (kind : PlainKind) (parts : List WordPart) (text : Text) :
    lastText kind (mergeText kind text parts) ≠ none := by
  cases h : lastText kind parts with
  | none => simp [mergeText, h, lastText_concat]
  | some before => simp [mergeText, h, lastText_concat]

theorem appendText_appendText (parts : List WordPart) (before after : Text) :
    appendText (appendText parts .quoted before) .quoted after =
      appendText parts .quoted (before ++ after) := by
  by_cases hbefore : before = []
  · subst hbefore
    cases hlast : lastText .quoted parts with
    | some text => simp [appendText, hlast]
    | none =>
        have hconcat : lastText .quoted (parts ++ [.quoted []]) = some [] :=
          lastText_concat .quoted parts []
        by_cases hafter : after = []
        · simp [appendText, hlast, hafter, hconcat]
        · simp [appendText, mergeText, hlast, hafter, hconcat, PlainKind.part]
  · by_cases hafter : after = []
    · simp [appendText, hbefore, hafter, lastText_mergeText]
    · simp [appendText, hbefore, hafter, mergeText_mergeText]

/-- A text in single quotes, with each single quote of it behind a backslash between them. -/
inductive SingleQuoted : Text → Text → Prop where
  | plain {text : Text} (plain : '\'' ∉ text) : SingleQuoted ('\'' :: (text ++ ['\''])) text
  | next {text written value : Text} (plain : '\'' ∉ text) (rest : SingleQuoted written value) :
      SingleQuoted ('\'' :: (text ++ ['\'']) ++ (['\\', '\''] ++ written))
        (text ++ (['\''] ++ value))

theorem SingleQuoted.run_readWordCharacters {written value : Text}
    (h : SingleQuoted written value) : ∀ {lexer : Lexer} {fuel : Nat} (parts : List WordPart),
    lexer.rest = written ++ tail → (∀ c ∈ tail.head?, endsWord c = true) →
    written.length < fuel →
    (readWordCharacters fuel parts).run lexer =
      .ok (appendText parts .quoted value, lexer.past written) := by
  induction h with
  | @plain text plain =>
      intro lexer fuel parts hrest htail hfuel
      simp only [List.length_cons, List.length_append] at hfuel
      obtain ⟨fuel, rfl⟩ : ∃ n, fuel = n + 2 := ⟨fuel - 2, by omega⟩
      have hsingle : lexer.rest = '\'' :: (text ++ '\'' :: tail) := by
        rw [hrest]
        simp
      rw [run_readWordCharacters_single plain hsingle (by omega)]
      refine run_readWordCharacters_end ?_
      rwa [Lexer.rest_past hrest]
  | @next text written value plain rest ih =>
      intro lexer fuel parts hrest htail hfuel
      simp only [List.length_cons, List.length_append] at hfuel
      obtain ⟨fuel, rfl⟩ : ∃ n, fuel = n + 2 := ⟨fuel - 2, by omega⟩
      have hsingle : lexer.rest = '\'' :: (text ++ '\'' :: ('\\' :: '\'' :: (written ++ tail))) := by
        rw [hrest]
        simp
      have hescaped : (lexer.past ('\'' :: (text ++ ['\'']))).rest =
          '\\' :: '\'' :: (written ++ tail) := by
        refine Lexer.rest_past ?_
        rw [hsingle]
        simp
      have hwritten : ((lexer.past ('\'' :: (text ++ ['\'']))).past ['\\', '\'']).rest =
          written ++ tail := Lexer.rest_past hescaped
      rw [run_readWordCharacters_single plain hsingle (by omega),
        run_readWordCharacters_escaped hescaped (by decide), appendChar_eq, appendText_appendText,
        ih _ hwritten htail (by omega), appendText_appendText, Lexer.past_append,
        Lexer.past_append, List.append_assoc]

/-! ## A number in front -/

theorem run_readWordRest_parts (token : Token) {fuel : Nat} {first parts : List WordPart}
    {written : Text}
    (hread : (readWordCharacters fuel first).run lexer = .ok (parts, lexer.past written)) :
    ∃ token', (readWordRest (fuel + 1) token none first).run lexer =
        .ok (token', lexer.past written) ∧ token'.kind = .word ∧ token'.word.parts = parts := by
  have hget : (get : Lex Lexer).run (lexer.past written) =
      .ok (lexer.past written, lexer.past written) := rfl
  rw [readWordRest, run_bind_ok hread, run_bind_ok hget]
  exact ⟨_, rfl, rfl, rfl⟩

theorem run_nextToken_digit {blanks text : Text} (hblanks : ∀ b ∈ blanks, isBlank b = true)
    {fuel : Nat} (hc : isDigit c = true) (htext : ∀ d ∈ text, standsInWord d)
    (hexpects : lexer.expectHereDocDelimiter = false)
    (hrest : lexer.rest = blanks ++ (c :: text ++ tail))
    (htail : ∀ d ∈ tail.head?, endsWord d = true ∧ d ≠ '<' ∧ d ≠ '>')
    (hfuel : blanks.length + text.length + 5 ≤ fuel) :
    ∃ token, (nextToken fuel).run lexer = .ok (token, lexer.past (blanks ++ c :: text)) ∧
      token.kind = .word ∧ token.word.parts = literalParts (c :: text) := by
  obtain ⟨fuel, rfl⟩ : ∃ n, fuel = text.length + (n + 1) + 1 + 1 + 1 :=
    ⟨fuel - text.length - 4, by omega⟩
  have hexpecting : lexer.expecting = lexer := by rw [Lexer.expecting, ← hexpects]
  have hflags : takeDelimiterFlags.run lexer = .ok (none, lexer) := by
    have hrun : takeDelimiterFlags.run lexer = .ok
        (if lexer.expectHereDocDelimiter then some lexer.hereDocStripsTabs else none,
          lexer.expecting) := rfl
    rw [hrun, hexpecting, hexpects]
    rfl
  have hstands : standsInWord c := standsInWord_of_isNameChar (by simp [isNameChar, hc])
  have hcomment : c ≠ '#' := by
    rintro rfl
    cases hc
  have hends := hstands.1
  simp only [endsWord, Bool.or_eq_false_iff, beq_eq_false_iff_ne] at hends
  obtain ⟨⟨hblank, hnewline⟩, -⟩ := hends
  have hat : (lexer.past blanks).rest = c :: (text ++ tail) := Lexer.rest_past hrest
  have hnext : ((lexer.past blanks).advance c).rest = text ++ tail := Lexer.rest_advance hat
  -- what comes after the digit opens no redirection
  have hhead : ∀ d ∈ (text ++ tail).head?, d ≠ '\\' ∧ d ≠ '<' ∧ d ≠ '>' := by
    cases text with
    | nil =>
        intro d hd
        refine ⟨?_, (htail d hd).2⟩
        rintro rfl
        cases (htail _ hd).1
    | cons d text =>
        intro e he
        cases he
        obtain ⟨hend, -, -, hbackslash, -⟩ := htext d (by simp)
        refine ⟨hbackslash, ?_, ?_⟩
        · rintro rfl
          cases hend
        · rintro rfl
          cases hend
  have hpeek : peek.run ((lexer.past blanks).advance c) =
      .ok ((text ++ tail).head?, (lexer.past blanks).advance c) := by
    rw [run_peek, hnext]
    rw [hnext]
    intro hbackslash
    exact (hhead _ hbackslash).1 rfl
  have hword : (readWordCharacters (text.length + (fuel + 1)) (appendChar [] .literal c)).run
      ((lexer.past blanks).advance c) =
        .ok (literalParts (c :: text), ((lexer.past blanks).advance c).past text) := by
    have hliteral : appendChar [] .literal c = [] ++ [PlainKind.part .literal [c]] := rfl
    rw [run_readWordCharacters_literal htext _ hnext, hliteral, foldl_appendChar,
      run_readWordCharacters_end]
    · rfl
    · rw [Lexer.rest_past hnext]
      exact fun d hd => (htail d hd).1
  have hget : (get : Lex Lexer).run (lexer.past blanks) =
      .ok (lexer.past blanks, lexer.past blanks) := rfl
  have hskip := run_skipToToken hblanks hrest hstands.2.2.2.1 hblank hcomment
    (show blanks.length < text.length + (fuel + 1) + 1 + 1 by omega)
  have hredirect : ¬ ((text ++ tail).head? = some '<' ∨ (text ++ tail).head? = some '>') := by
    rintro (h | h)
    · exact (hhead _ h).2.1 rfl
    · exact (hhead _ h).2.2 rfl
  rw [nextToken, run_bind_ok hflags, run_bind_ok hskip, run_bind_ok hget, readToken]
  simp only [if_neg hnewline, hc, if_true]
  rw [run_bind_ok (run_rawGet hat), run_bind_ok hpeek, if_neg hredirect, Lexer.past_append]
  exact run_readWordRest_parts _ hword

/-! ## What the parts expand to -/

theorem exec_expandWord_quotedElements {ω : Type} (host : Host ω) {word : Word}
    {elements : List Element} (hne : elements ≠ []) (hall : elements.all Element.isQuoted = true)
    {world : World ω}
    (hwalk : exec (walkWord host .fields word.parts) world =
      (.ok (PendingFields.emitElements {} elements), world)) :
    exec (expandWord host word) world = (.ok [textOf elements], world) := by
  have hplain : ∀ field ∈ [elements], Plain field ∧ field ≠ [] := by
    simpa using ⟨plain_quoted hall, hne⟩
  have hfields := flatMap_finish_plain hplain (ifsOf world.state) world.state
    (host.pathnames world.outside)
  rw [expandWord, exec_bind_ok hwalk]
  rw [List.map_singleton] at hfields
  rw [← hfields]
  rfl

theorem exec_expandWord_quoted {ω : Type} (host : Host ω) {word : Word} {value : Text}
    (hparts : word.parts = [.quoted value]) (world : World ω) :
    exec (expandWord host word) world = (.ok [value], world) := by
  have hall : (valueElements value).all Element.isQuoted = true := by
    simp [valueElements, Element.isQuoted]
  have hwalk : exec (walkWord host .fields word.parts) world =
      (.ok (PendingFields.emitElements {} (valueElements value)), world) := by
    rw [hparts, walkWord, walkWordInto,
      exec_bind_ok (Requoted.exec_walkPart_quoted host .fields false _ _ value {} world),
      walkWordInto]
    rfl
  have htext : textOf (valueElements value) = value := textOf_chars value true false
  have hne : valueElements value ≠ [] := List.cons_ne_nil _ _
  rw [exec_expandWord_quotedElements host hne hall hwalk, htext]

theorem exec_expandWord_doubleQuoted {ω : Type} (host : Host ω) {word : Word} {value : Text}
    (hparts : word.parts = [.doubleQuoted [.quoted value]]) (world : World ω) :
    exec (expandWord host word) world = (.ok [value], world) := by
  have hall : (Element.quoteMark :: valueElements value).all Element.isQuoted = true := by
    simp [valueElements, Element.isQuoted]
  have hwalk : exec (walkWord host .fields word.parts) world =
      (.ok (PendingFields.emitElements {} (.quoteMark :: valueElements value)), world) := by
    rw [hparts, walkWord, walkWordInto,
      exec_bind_ok (Requoted.exec_walkPart_doubleQuoted host .fields _ _ value {} world),
      walkWordInto]
    rfl
  have htext : textOf (.quoteMark :: valueElements value) = value := textOf_chars value true false
  rw [exec_expandWord_quotedElements host (List.cons_ne_nil _ _) hall hwalk, htext]

/-! ## The token -/

/-- The lexer reads the text as one word, which expands to the one field. -/
def ReadsAsWord (written field : Text) : Prop :=
  ∀ (blanks tail : Text) (lexer : Lexer) (fuel : Nat), (∀ b ∈ blanks, isBlank b = true) →
    lexer.expectHereDocDelimiter = false → lexer.rest = blanks ++ (written ++ tail) →
    (∀ c ∈ tail.head?, endsWord c = true ∧ c ≠ '<' ∧ c ≠ '>') →
    blanks.length + written.length + 5 ≤ fuel →
    ∃ token lexer', (nextToken fuel).run lexer = .ok (token, lexer') ∧
      lexer'.rest = tail ∧ (lexer.Settled → lexer'.Settled) ∧ IsWordOf token field

theorem readsAsWord_of_parts {written field : Text} {parts : List WordPart}
    (hfirst : ∃ c text, written = c :: text ∧ startsWord c)
    (hread : ∀ (tail : Text) (lexer : Lexer) (fuel : Nat), lexer.rest = written ++ tail →
      (∀ c ∈ tail.head?, endsWord c = true) → written.length < fuel →
      (readWordCharacters fuel []).run lexer = .ok (parts, lexer.past written))
    (hexpand : ∀ {ω : Type} (host : Host ω) (word : Word) (world : World ω),
      word.parts = parts → exec (expandWord host word) world = (.ok [field], world)) :
    ReadsAsWord written field := by
  intro blanks tail lexer fuel hblanks hexpects hrest htail hfuel
  obtain ⟨c, text, rfl, hc⟩ := hfirst
  obtain ⟨fuel, rfl⟩ : ∃ n, fuel = n + 3 := ⟨fuel - 3, by omega⟩
  have hexpecting : (lexer.expecting.past blanks).rest = c :: text ++ tail :=
    Lexer.rest_past (show lexer.expecting.rest = blanks ++ _ from hrest)
  obtain ⟨token, lexer', hrun, hkind, hword, hrest', hsettled⟩ :=
    run_nextToken hblanks hc hrest (by omega)
      (hread tail _ fuel hexpecting (fun d hd => (htail d hd).1) (by omega))
  refine ⟨token, lexer', hrun, hrest', ?_, hkind, ?_⟩
  · intro h
    rw [hsettled h]
    exact h.past _
  · intro ω host world
    exact hexpand host token.word world (by rw [hword])

end Haisos.Hsh

namespace Haisos.BuiltinCommands

open Hsh StateExcept

/-! ## The forms -/

theorem readsAsWord_singleQuoted {written value : Text} (h : SingleQuoted written value) :
    ReadsAsWord written value := by
  have hvalue : appendText [] .quoted value = [.quoted value] :=
    Requoted.appendText_quoted rfl value
  apply readsAsWord_of_parts
  · cases h <;> exact ⟨_, _, rfl, by unfold startsWord; decide⟩
  · intro tail lexer fuel hrest htail hfuel
    exact h.run_readWordCharacters [] hrest htail hfuel
  · intro ω host word world hparts
    exact exec_expandWord_quoted host (hparts.trans hvalue) world

theorem readsAsWord_doubleQuoted {name : Text} (h : ∀ c ∈ name, standsInDoubleQuotes c)
    (hne : name ≠ []) : ReadsAsWord ('"' :: (name ++ ['"'])) name := by
  apply readsAsWord_of_parts
  · exact ⟨_, _, rfl, by unfold startsWord; decide⟩
  · intro tail lexer fuel hrest htail hfuel
    simp only [List.length_cons, List.length_append] at hfuel
    obtain ⟨fuel, rfl⟩ : ∃ n, fuel = n + 2 := ⟨fuel - 2, by omega⟩
    have hdouble : lexer.rest = '"' :: (name ++ '"' :: tail) := by
      rw [hrest]
      simp
    rw [run_readWordCharacters_double h hdouble (by omega), foldl_appendChar_nil .quoted hne]
    refine run_readWordCharacters_end ?_
    rwa [Lexer.rest_past hrest]
  · intro ω host word world hparts
    exact exec_expandWord_doubleQuoted host hparts world

theorem readsAsWord_bare {name : Text} (hne : name ≠ []) (hstands : ∀ c ∈ name, standsInWord c)
    (hfirst : ∀ c ∈ name.head?, c ≠ '#' ∧ c ≠ '~') (hpattern : NoPattern name) :
    ReadsAsWord name name := by
  intro blanks tail lexer fuel hblanks hexpects hrest htail hfuel
  have htilde : name.head? ≠ some '~' := fun h => (hfirst _ h).2 rfl
  obtain ⟨c, text, rfl⟩ := List.exists_cons_of_ne_nil hne
  have hfuel' : blanks.length + text.length + 5 ≤ fuel := by
    rw [List.length_cons] at hfuel
    omega
  cases hdigit : isDigit c with
  | true =>
      obtain ⟨token, hrun, hkind, hparts⟩ := run_nextToken_digit hblanks hdigit
        (fun d hd => hstands d (List.mem_cons_of_mem c hd)) hexpects hrest htail hfuel'
      refine ⟨token, _, hrun, ?_, fun h => h.past _, hkind, ?_⟩
      · rw [← List.append_assoc] at hrest
        exact Lexer.rest_past hrest
      · intro ω host world
        exact exec_expandWord_literal host hne htilde hpattern hparts world
  | false =>
      have hstarts : ∀ d ∈ (c :: text).head?, startsWord d := by
        intro d hd
        cases hd
        obtain ⟨hend, -, -, hbackslash, -⟩ := hstands c (by simp)
        exact ⟨hend, (hfirst c rfl).1, hbackslash, hdigit⟩
      obtain ⟨token, lexer', hrun, hkind, hparts, hrest', hsettled⟩ :=
        run_nextToken_literal hblanks hne hstands hstarts hrest (fun d hd => (htail d hd).1)
          (show blanks.length + (c :: text).length + 4 ≤ fuel by omega)
      refine ⟨token, lexer', hrun, hrest', ?_, hkind, ?_⟩
      · intro h
        rw [hsettled h]
        exact h.past _
      · intro ω host world
        exact exec_expandWord_literal host hne htilde hpattern hparts world

/-! ## The choice between them -/

theorem standsInWord_of_not_special {c : Char} (h : shellEscapeSpecial c = false) :
    standsInWord c ∧ c ≠ '*' ∧ c ≠ '?' ∧ c ≠ '[' := by
  have hne : ∀ d, shellEscapeSpecial d = true → c ≠ d := by
    rintro d hd rfl
    rw [h] at hd
    cases hd
  refine ⟨⟨?_, hne _ rfl, hne _ rfl, hne _ rfl, hne _ rfl, hne _ rfl⟩, hne _ rfl, hne _ rfl,
    hne _ rfl⟩
  simp [endsWord, isBlank, isOperatorChar, hne ' ' rfl, hne '\t' rfl, hne '\n' rfl, hne ';' rfl,
    hne '&' rfl, hne '|' rfl, hne '(' rfl, hne ')' rfl, hne '<' rfl, hne '>' rfl]

theorem singleQuoted_append {text name : Text} (htext : '\'' ∉ text)
    (h : ∀ c ∈ name, isControl c = false) :
    SingleQuoted ('\'' :: (text ++ escapeFrom name ++ ['\''])) (text ++ name) := by
  induction name generalizing text with
  | nil =>
      rw [escapeFrom, List.append_nil]
      exact .plain htext
  | cons c name ih =>
      rw [List.forall_mem_cons] at h
      rw [escapeFrom, if_neg (by simp [h.1])]
      by_cases hc : c = '\''
      · have hrest := SingleQuoted.next htext (ih List.not_mem_nil h.2)
        rw [if_pos hc, hc]
        simpa [Hsh.text] using hrest
      · have hrest := @ih (text ++ [c]) (by simp [htext, Ne.symm hc]) h.2
        rw [if_neg hc]
        simpa using hrest

theorem singleQuoted_escapeFrom {name : Text} (h : ∀ c ∈ name, isControl c = false) :
    SingleQuoted ('\'' :: (escapeFrom name ++ ['\''])) name :=
  singleQuoted_append List.not_mem_nil h

theorem readsAsWord_shellEscapeQuoted {name : Text} (h : ∀ c ∈ name, isControl c = false)
    (always : Bool) : ReadsAsWord (shellEscapeQuoted name always) name := by
  have hcontrol : ¬ name.any isControl = true := by simpa using h
  rw [shellEscapeQuoted]
  by_cases hquoting : shellEscapeNeedsQuoting name = true
  · rw [if_neg (not_not.mpr hquoting)]
    by_cases hsingle : ¬ name.any isControl = true ∧ ¬ name.contains '\'' = true
    · rw [if_pos hsingle]
      exact readsAsWord_singleQuoted (.plain (by simpa using hsingle.2))
    · rw [if_neg hsingle]
      by_cases hdouble : ¬ name.any isControl = true ∧ ¬ name.any doubleQuotesRead = true
      · rw [if_pos hdouble]
        have hread : ∀ c ∈ name, doubleQuotesRead c = false := by simpa using hdouble.2
        refine readsAsWord_doubleQuoted (fun c hc => inDouble_of_not_read (hread c hc)) ?_
        rintro rfl
        exact hsingle ⟨hcontrol, by simp⟩
      · rw [if_neg hdouble]
        have hlast : ¬ name.getLast?.any isControl = true := by
          cases hget : name.getLast? with
          | none => simp
          | some c => simp [h c (List.mem_of_getLast? hget)]
        rw [if_neg hlast]
        exact readsAsWord_singleQuoted (singleQuoted_escapeFrom h)
  · obtain ⟨hne, hfirst, hspecial⟩ := bare_of_not_needsQuoting hquoting
    rw [if_pos hquoting]
    cases always with
    | true => exact readsAsWord_singleQuoted (.plain (no_quote_of_special hspecial))
    | false =>
        have hstands := fun c hc => standsInWord_of_not_special (hspecial c hc)
        exact readsAsWord_bare hne (fun c hc => (hstands c hc).1) hfirst
          (fun c hc => (hstands c hc).2)

/-! ## The law -/

/-- A quoted name reads back: as POSIX input it is the one word that the name is; to hsh, where
the name has no control bytes, it is a word that expands to the one field that the name is,
whatever the lexer has read before it, and so behind a command's name. -/
theorem shellEscapeQuoted_readBack :
    (∀ (name : Text) (always : Bool),
      ShellWords.readWords (shellEscapeQuoted name always) = some [name]) ∧
    (∀ (name : Text) (always : Bool), (∀ c ∈ name, isControl c = false) →
      ReadsAsWord (shellEscapeQuoted name always) name) ∧
    (∀ (command name tail : Text) (quoting always : Bool) (line : Nat) (interactive : Bool)
      (fuel : Nat), (∀ c ∈ command, isControl c = false) → (∀ c ∈ name, isControl c = false) →
      (∀ c ∈ tail.head?, endsWord c = true ∧ c ≠ '<' ∧ c ≠ '>') →
      (shellEscapeQuoted command quoting).length + (shellEscapeQuoted name always).length + 6 ≤
        fuel →
      ∃ first second lexer lexer',
        (nextToken fuel).run
            { source := shellEscapeQuoted command quoting ++
                ([' '] ++ (shellEscapeQuoted name always ++ tail))
              line
              interactive } = .ok (first, lexer) ∧
        (nextToken fuel).run lexer = .ok (second, lexer') ∧ lexer'.rest = tail ∧
        IsWordOf first command ∧ IsWordOf second name) := by
  refine ⟨readWords_shellEscapeQuoted, ?_, ?_⟩
  · intro name always hname
    exact readsAsWord_shellEscapeQuoted hname always
  · intro command name tail quoting always line interactive fuel hcommand hname htail hfuel
    have hnone : ∀ b ∈ ([] : Text), isBlank b = true := by simp
    have hblank : ∀ b ∈ [' '], isBlank b = true := by simp [isBlank]
    obtain ⟨first, lexer, hrun, hrest, hsettled, hfirst⟩ :=
      readsAsWord_shellEscapeQuoted hcommand quoting [] _
        { source := shellEscapeQuoted command quoting ++
            ([' '] ++ (shellEscapeQuoted name always ++ tail))
          line
          interactive } fuel hnone rfl rfl (by simp [endsWord, isBlank]) (by simp; omega)
    obtain ⟨second, lexer', hrun', hrest', -, hsecond⟩ :=
      readsAsWord_shellEscapeQuoted hname always [' '] tail lexer fuel hblank
        (hsettled ⟨rfl, rfl, rfl, rfl⟩).expects_none hrest htail (by simp; omega)
    exact ⟨first, second, lexer, lexer', hrun, hrun', hrest', hfirst, hsecond⟩

/-- `ls 'it'\''s $5'`. -/
theorem shellEscapeQuoted_readBack_both :
    (∀ c ∈ text "it's $5", isControl c = false) ∧
      ReadsAsWord (shellEscapeQuoted (text "it's $5") false) (text "it's $5") ∧
      ∃ first second lexer lexer',
        (nextToken 40).run
            { source := shellEscapeQuoted (text "ls") false ++
                ([' '] ++ (shellEscapeQuoted (text "it's $5") false ++ ['\n']))
              line := 1
              interactive := false } = .ok (first, lexer) ∧
        (nextToken 40).run lexer = .ok (second, lexer') ∧ lexer'.rest = ['\n'] ∧
        IsWordOf first (text "ls") ∧ IsWordOf second (text "it's $5") := by
  have hname : ∀ c ∈ text "it's $5", isControl c = false := by simp [text, isControl]
  have hcommand : ∀ c ∈ text "ls", isControl c = false := by simp [text, isControl]
  have htail : ∀ c ∈ ['\n'].head?, endsWord c = true ∧ c ≠ '<' ∧ c ≠ '>' := by
    simp [endsWord]
  refine ⟨hname, shellEscapeQuoted_readBack.2.1 _ false hname, ?_⟩
  refine shellEscapeQuoted_readBack.2.2 _ _ ['\n'] false false 1 false 40 hcommand hname htail ?_
  simp [shellEscapeQuoted, shellEscapeNeedsQuoting, shellEscapeSpecial, isControl, text,
    doubleQuotesRead, escapeFrom]

end Haisos.BuiltinCommands
