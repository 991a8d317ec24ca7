import Haisos.Hsh.Arithmetic.Tokenization
import Haisos.Hsh.Expansion.PlainFields
import Haisos.Hsh.Lexer.Characters
import Haisos.Hsh.Shell.Builtins

/-!
# What the shell prints can be read back

`ShellSingleQuote` is read by the lexer as one word, and that word expands to
the value in every shell: the lines of `set`, `export -p` and `readonly -p` are
the assignments they were printed for.
-/

namespace Haisos.Hsh

open Shell (shellSingleQuote singleQuoteFrom)
open StateExcept

variable {ω : Type}

/-! ## Assignments -/

/-- `AssignmentNameLength`: 0 when the word is no assignment. -/
def assignmentNameLength (word : Word) : Nat :=
  match word.parts with
  | .literal text :: _ =>
      let name := text.takeWhile isNameChar
      if isValidShellName name ∧ text[name.length]? = some '=' then name.length else 0
  | _ => 0

/-- The assignment that `ParseSimpleCommand` makes of a word in front of a command. -/
def takeAssignment (word : Word) : Option Assignment :=
  let length := assignmentNameLength word
  match word.parts with
  | .literal text :: parts =>
      if length = 0 then none
      else
        some
          { name := text.take length
            value :=
              { parts := literalParts (text.drop (length + 1)) ++ parts
                source := (word.source.dropWhile (· ≠ '=')).drop 1
                line := word.line } }
  | _ => none

/-! ## What `ShellSingleQuote` writes -/

/--
The text that is written for a value, and the parts it is read as: the runs of
single quotes stand in double quotes, what is between them in single ones.
-/
inductive Requoted : Text → List WordPart → Text → Prop where
  | plain {text : Text} (plain : '\'' ∉ text) :
      Requoted ('\'' :: (text ++ ['\''])) [.quoted text] text
  | ended {text quotes : Text} (plain : '\'' ∉ text) (present : quotes ≠ [])
      (all : ∀ c ∈ quotes, c = '\'') :
      Requoted ('\'' :: (text ++ ['\'']) ++ '"' :: (quotes ++ ['"']))
        [.quoted text, .doubleQuoted [.quoted quotes]] (text ++ quotes)
  | next {text quotes written value : Text} {parts : List WordPart} (plain : '\'' ∉ text)
      (present : quotes ≠ []) (all : ∀ c ∈ quotes, c = '\'') (rest : Requoted written parts value) :
      Requoted ('\'' :: (text ++ ['\'']) ++ ('"' :: (quotes ++ ['"']) ++ written))
        (.quoted text :: .doubleQuoted [.quoted quotes] :: parts) (text ++ (quotes ++ value))

/-- One round of `ShellSingleQuote`: a text without quotes, a run of quotes, and what is left. -/
theorem exists_round (value : Text) : ∃ text quotes after,
    value = text ++ (quotes ++ after) ∧ '\'' ∉ text ∧ (∀ c ∈ quotes, c = '\'') ∧
      (quotes = [] → after = []) ∧
      ∀ fuel, singleQuoteFrom (fuel + 1) value = '\'' :: (text ++ ['\'']) ++
        if quotes.isEmpty then []
        else '"' :: (quotes ++ ['"']) ++ if after.isEmpty then [] else singleQuoteFrom fuel after := by
  refine ⟨value.takeWhile (· ≠ '\''), (value.dropWhile (· ≠ '\'')).takeWhile (· = '\''),
    (value.dropWhile (· ≠ '\'')).dropWhile (· = '\''), ?_, ?_, ?_, ?_, ?_⟩
  · rw [List.takeWhile_append_dropWhile, List.takeWhile_append_dropWhile]
  · intro hmem
    have := List.mem_takeWhile_imp hmem
    simp at this
  · intro c hc
    simpa using List.mem_takeWhile_imp hc
  · intro hquotes
    rcases hrest : value.dropWhile (· ≠ '\'') with _ | ⟨c, rest⟩
    · rfl
    · -- What stops the text is a quote, so the run of quotes is not empty.
      have hc : c = '\'' := by
        have hhead := List.head?_dropWhile_not (fun c => decide (c ≠ '\'')) value
        rw [hrest] at hhead
        simpa using hhead
      rw [hrest, hc] at hquotes
      cases hquotes
  · intro fuel
    rw [singleQuoteFrom]
    simp only [List.cons_append, List.nil_append, List.append_assoc]

theorem requoted_singleQuoteFrom (fuel : Nat) : ∀ value : Text, value.length < fuel →
    ∃ parts, Requoted (singleQuoteFrom fuel value) parts value := by
  induction fuel with
  | zero =>
      intro value h
      omega
  | succ fuel ih =>
      intro value h
      obtain ⟨text, quotes, after, rfl, hplain, hall, hlast, hround⟩ := exists_round value
      rw [hround]
      by_cases hquotes : quotes = []
      · have hafter := hlast hquotes
        subst hquotes hafter
        exact ⟨_, by simpa using Requoted.plain hplain⟩
      · simp only [List.isEmpty_iff, if_neg hquotes]
        by_cases hafter : after = []
        · subst hafter
          exact ⟨_, by simpa using Requoted.ended hplain hquotes hall⟩
        · have hlength : after.length < fuel := by
            have := List.length_pos_iff.mpr hquotes
            simp only [List.length_append] at h
            omega
          obtain ⟨parts, hrest⟩ := ih after hlength
          exact ⟨_, by simpa [hafter] using Requoted.next hplain hquotes hall hrest⟩

theorem requoted_shellSingleQuote (value : Text) :
    ∃ parts, Requoted (shellSingleQuote value) parts value :=
  requoted_singleQuoteFrom _ value (Nat.lt_succ_self _)

/-! ## It is one word -/

namespace Requoted

variable {written tail value : Text} {parts : List WordPart}

theorem head (h : Requoted written parts value) : ∃ rest, written = '\'' :: rest := by
  cases h <;> exact ⟨_, rfl⟩

/-- A group is not merged into what stands before it, unless that is quoted too. -/
theorem appendText_quoted {before : List WordPart} (h : lastText .quoted before = none)
    (text : Text) : appendText before .quoted text = before ++ [.quoted text] := by
  unfold appendText
  by_cases htext : text = []
  · simp [htext, h]
  · simp [htext, mergeText, h, PlainKind.part]

theorem standsInDoubleQuotes_quote {quotes : Text} (h : ∀ c ∈ quotes, c = '\'') :
    ∀ c ∈ quotes, standsInDoubleQuotes c := by
  intro c hc
  rw [h c hc]
  unfold standsInDoubleQuotes
  decide

theorem run_round {lexer : Lexer} {fuel : Nat} {before : List WordPart} {text quotes rest : Text}
    (hplain : '\'' ∉ text) (hpresent : quotes ≠ []) (hall : ∀ c ∈ quotes, c = '\'')
    (hbefore : lastText .quoted before = none)
    (hrest : lexer.rest = '\'' :: (text ++ ['\'']) ++ ('"' :: (quotes ++ ['"']) ++ rest))
    (hfuel : text.length + quotes.length < fuel) :
    (readWordCharacters (fuel + 2) before).run lexer =
      (readWordCharacters fuel (before ++ [.quoted text, .doubleQuoted [.quoted quotes]])).run
        (lexer.past ('\'' :: (text ++ ['\'']) ++ '"' :: (quotes ++ ['"']))) := by
  have hsingle : lexer.rest = '\'' :: (text ++ '\'' :: ('"' :: (quotes ++ '"' :: rest))) := by
    rw [hrest]
    simp
  have hdouble : (lexer.past ('\'' :: (text ++ ['\'']))).rest =
      '"' :: (quotes ++ '"' :: rest) := by
    refine Lexer.rest_past ?_
    rw [hsingle]
    simp
  rw [run_readWordCharacters_single hplain hsingle (by omega), appendText_quoted hbefore,
    run_readWordCharacters_double (standsInDoubleQuotes_quote hall) hdouble (by omega),
    foldl_appendChar_nil .quoted hpresent, Lexer.past_append]
  simp [PlainKind.part]

/-- All of the text is read, and nothing after it. -/
theorem run_readWordCharacters (h : Requoted written parts value) : ∀ {lexer : Lexer} {fuel : Nat}
    {before : List WordPart}, lastText .quoted before = none → lexer.rest = written ++ tail →
    (∀ c ∈ tail.head?, endsWord c = true) → written.length < fuel →
    (readWordCharacters fuel before).run lexer = .ok (before ++ parts, lexer.past written) := by
  induction h with
  | @plain text plain =>
      intro lexer fuel before hbefore hrest htail hfuel
      simp only [List.length_cons, List.length_append] at hfuel
      obtain ⟨fuel, rfl⟩ : ∃ n, fuel = n + 2 := ⟨fuel - 2, by omega⟩
      have hsingle : lexer.rest = '\'' :: (text ++ '\'' :: tail) := by
        rw [hrest]
        simp
      rw [run_readWordCharacters_single plain hsingle (by omega), appendText_quoted hbefore]
      refine run_readWordCharacters_end ?_
      rwa [Lexer.rest_past hrest]
  | @ended text quotes plain present all =>
      intro lexer fuel before hbefore hrest htail hfuel
      simp only [List.length_cons, List.length_append] at hfuel
      obtain ⟨fuel, rfl⟩ : ∃ n, fuel = n + 3 := ⟨fuel - 3, by omega⟩
      have hround : lexer.rest =
          '\'' :: (text ++ ['\'']) ++ ('"' :: (quotes ++ ['"']) ++ tail) := by
        rw [hrest]
        simp
      rw [run_round plain present all hbefore hround (by omega)]
      refine run_readWordCharacters_end ?_
      rwa [Lexer.rest_past hrest]
  | @next text quotes written value parts plain present all rest ih =>
      intro lexer fuel before hbefore hrest htail hfuel
      simp only [List.length_cons, List.length_append] at hfuel
      obtain ⟨fuel, rfl⟩ : ∃ n, fuel = n + 2 := ⟨fuel - 2, by omega⟩
      have hround : lexer.rest =
          '\'' :: (text ++ ['\'']) ++ ('"' :: (quotes ++ ['"']) ++ (written ++ tail)) := by
        rw [hrest]
        simp
      have hpast : (lexer.past ('\'' :: (text ++ ['\'']) ++ '"' :: (quotes ++ ['"']))).rest =
          written ++ tail := by
        refine Lexer.rest_past ?_
        rw [hround]
        simp
      rw [run_round plain present all hbefore hround (by omega)]
      have hlast : lastText .quoted (before ++ [.quoted text, .doubleQuoted [.quoted quotes]]) =
          none := by
        simp [lastText, PlainKind.textOf, List.getLast?_append]
      rw [ih hlast hpast htail (by omega), ← Lexer.past_append]
      simp

/-! ## It expands to the value -/

variable (host : Host ω)

theorem exec_walkPart_quoted (kind : ExpansionKind) (inDoubleQuotes tilde last : Bool)
    (text : Text) (out : PendingFields) (world : World ω) :
    exec (walkPart host kind inDoubleQuotes false tilde last (.quoted text) out) world =
      (.ok (out.emitElements (valueElements text)), world) := by
  rw [← emitValue_true]
  rfl

theorem exec_walkPart_doubleQuoted (kind : ExpansionKind) (tilde last : Bool)
    (text : Text) (out : PendingFields) (world : World ω) :
    exec (walkPart host kind false false tilde last (.doubleQuoted [.quoted text]) out) world =
      (.ok (out.emitElements (.quoteMark :: valueElements text)), world) := by
  have hmark : out.emitQuoteMark.emitElements (valueElements text) =
      out.emitElements (.quoteMark :: valueElements text) :=
    out.emitElements_emitElements [.quoteMark] _
  rw [walkPart, walkWordInto, exec_bind_ok (exec_walkPart_quoted host kind true false _ text _ _),
    walkWordInto, ← hmark]
  rfl

theorem exec_walkWordInto (h : Requoted written parts value) (kind : ExpansionKind) :
    ∀ (tilde : Bool) (out : PendingFields) (world : World ω), ∃ elements,
      elements ≠ [] ∧ elements.all Element.isQuoted = true ∧ textOf elements = value ∧
        exec (walkWordInto host kind false false tilde parts out) world =
          (.ok (out.emitElements elements), world) := by
  have hquoted : ∀ text, (valueElements text).all Element.isQuoted = true := by
    simp [valueElements, Element.isQuoted]
  have htext : ∀ text, textOf (valueElements text) = text := fun text => textOf_chars text true false
  have hmark : ∀ elements, textOf (.quoteMark :: elements) = textOf elements := fun _ => rfl
  induction h with
  | @plain text plain =>
      intro tilde out world
      refine ⟨valueElements text, List.cons_ne_nil _ _, hquoted text, htext text, ?_⟩
      rw [walkWordInto, exec_bind_ok (exec_walkPart_quoted host kind false tilde _ text out world),
        walkWordInto]
      rfl
  | @ended text quotes plain present all =>
      intro tilde out world
      refine ⟨valueElements text ++ .quoteMark :: valueElements quotes, by simp [valueElements],
        by simp [hquoted, Element.isQuoted], ?_, ?_⟩
      · rw [textOf_append, hmark, htext, htext]
      · rw [walkWordInto,
          exec_bind_ok (exec_walkPart_quoted host kind false tilde _ text out world), walkWordInto,
          exec_bind_ok (exec_walkPart_doubleQuoted host kind false _ quotes _ world), walkWordInto,
          PendingFields.emitElements_emitElements]
        rfl
  | @next text quotes written value parts plain present all rest ih =>
      intro tilde out world
      obtain ⟨elements, -, hall, hvalue, hwalk⟩ := ih false
        (out.emitElements (valueElements text ++ .quoteMark :: valueElements quotes)) world
      refine ⟨valueElements text ++ .quoteMark :: valueElements quotes ++ elements,
        by simp [valueElements], by simp [hquoted, hall, Element.isQuoted], ?_, ?_⟩
      · rw [textOf_append, textOf_append, hmark, htext, htext, hvalue, List.append_assoc]
      · rw [walkWordInto,
          exec_bind_ok (exec_walkPart_quoted host kind false tilde _ text out world), walkWordInto,
          exec_bind_ok (exec_walkPart_doubleQuoted host kind false _ quotes _ world),
          PendingFields.emitElements_emitElements, hwalk,
          PendingFields.emitElements_emitElements]

/-- After a literal text in the same word, both are one field. -/
theorem exec_expandWord (h : Requoted written parts value) {before : Text}
    (htilde : before.head? ≠ some '~') (hpattern : NoPattern before) {word : Word}
    (hword : word.parts = literalParts before ++ parts) (world : World ω) :
    exec (expandWord host word) world = (.ok [before ++ value], world) := by
  obtain ⟨elements, hne, hall, hvalue, hwalk⟩ := h.exec_walkWordInto host .fields
    (tildeAllowed .fields false && before.isEmpty)
    (PendingFields.emitElements {} (literalElements before)) world
  rw [← walk_literalParts host (fun _ => htilde), ← hword,
    PendingFields.emitElements_emitElements] at hwalk
  have hplain : Plain (literalElements before ++ elements) :=
    (plain_literalElements hpattern).append (plain_quoted hall)
  have hfields : finishFields world.state (host.pathnames world.outside)
      (PendingFields.emitElements {} (literalElements before ++ elements)) =
        [before ++ value] := by
    have hall : ∀ field ∈ [literalElements before ++ elements], Plain field ∧ field ≠ [] := by
      simpa using ⟨hplain, fun _ => hne⟩
    have hfinish := flatMap_finish_plain hall (ifsOf world.state) world.state
      (host.pathnames world.outside)
    rw [List.map_singleton, textOf_append, hvalue] at hfinish
    rw [finishFields]
    refine Eq.trans ?_ (hfinish.trans ?_)
    · rfl
    · exact congrArg (fun text => [text ++ value]) (textOf_chars before false false)
  rw [expandWord, walkWord, exec_bind_ok hwalk, ← hfields]
  rfl

theorem exec_expandAssignmentValue (h : Requoted written parts value) {word : Word}
    (hword : word.parts = parts) (world : World ω) :
    exec (expandAssignmentValue host word) world = (.ok value, world) := by
  obtain ⟨elements, -, -, hvalue, hwalk⟩ := h.exec_walkWordInto host .assignment
    (tildeAllowed .assignment false) {} world
  rw [expandAssignmentValue, expandToKind, walkWord, hword, exec_bind_ok hwalk]
  have hfinish : finishString world.state (PendingFields.emitElements {} elements) = value := by
    simp [finishString, PendingFields.fields, PendingFields.emitElements, joinWith, hvalue]
  rw [← hfinish]
  rfl

end Requoted

/-! ## Words of a line -/

/-- The token is a word that expands to the one field, in every shell. -/
def IsWordOf (token : Token) (field : Text) : Prop :=
  token.kind = .word ∧ ∀ {ω : Type} (host : Host ω) (world : World ω),
    exec (expandWord host token.word) world = (.ok [field], world)

/-- The token is an assignment of a value, in every shell. -/
def IsAssignmentOf (token : Token) (name value : Text) : Prop :=
  token.kind = .word ∧ ∃ assignment, takeAssignment token.word = some assignment ∧
    assignment.name = name ∧ ∀ {ω : Type} (host : Host ω) (world : World ω),
      exec (expandAssignmentValue host assignment.value) world = (.ok value, world)

variable {before written tail value : Text} {parts : List WordPart}

theorem lastText_literalParts (text : Text) : lastText .quoted (literalParts text) = none := by
  unfold literalParts
  split_ifs <;> rfl

theorem run_literal {lexer : Lexer} {fuel : Nat} (hbefore : ∀ c ∈ before, standsInWord c)
    (hrest : lexer.rest = before ++ tail) :
    (readWordCharacters (before.length + fuel) []).run lexer =
      (readWordCharacters fuel (literalParts before)).run (lexer.past before) := by
  rw [run_readWordCharacters_literal hbefore [] hrest]
  by_cases hne : before = []
  · subst hne
    rfl
  · rw [foldl_appendChar_nil .literal hne, literalParts, if_neg hne]
    rfl

theorem Requoted.run_prefixed (h : Requoted written parts value) {lexer : Lexer} {fuel : Nat}
    (hbefore : ∀ c ∈ before, standsInWord c) (hrest : lexer.rest = before ++ written ++ tail)
    (htail : ∀ c ∈ tail.head?, endsWord c = true) (hfuel : before.length + written.length < fuel) :
    (readWordCharacters fuel []).run lexer =
      .ok (literalParts before ++ parts, lexer.past (before ++ written)) := by
  obtain ⟨fuel, rfl⟩ : ∃ n, fuel = before.length + n := ⟨fuel - before.length, by omega⟩
  rw [List.append_assoc] at hrest
  rw [run_literal hbefore hrest, h.run_readWordCharacters (lastText_literalParts before)
    (Lexer.rest_past hrest) htail (by omega), Lexer.past_append]

theorem Requoted.run_nextToken (h : Requoted written parts value) {blanks : Text}
    (hblanks : ∀ b ∈ blanks, isBlank b = true) {lexer : Lexer} {fuel : Nat}
    (hbefore : ∀ c ∈ before, standsInWord c) (hfirst : ∀ c ∈ before.head?, startsWord c)
    (hrest : lexer.rest = blanks ++ (before ++ written ++ tail))
    (htail : ∀ c ∈ tail.head?, endsWord c = true)
    (hfuel : blanks.length + (before ++ written).length + 4 ≤ fuel) :
    ∃ token lexer', (nextToken fuel).run lexer = .ok (token, lexer') ∧ token.kind = .word ∧
      token.word = { parts := literalParts before ++ parts, source := before ++ written,
                     line := (lexer.past blanks).line } ∧
      lexer'.rest = tail ∧
      (lexer.Settled → lexer' = lexer.past (blanks ++ (before ++ written))) := by
  obtain ⟨rest, hwritten⟩ := h.head
  obtain ⟨c, text, htext, hc⟩ : ∃ c text, before ++ written = c :: text ∧ startsWord c := by
    rcases before with _ | ⟨c, before⟩
    · exact ⟨'\'', rest, hwritten, by unfold startsWord; decide⟩
    · exact ⟨c, before ++ written, rfl, hfirst c rfl⟩
  obtain ⟨fuel, rfl⟩ : ∃ n, fuel = n + 3 := ⟨fuel - 3, by omega⟩
  have hexpecting : (lexer.expecting.past blanks).rest = before ++ written ++ tail :=
    Lexer.rest_past (show lexer.expecting.rest = blanks ++ _ from hrest)
  have hlength : before.length + written.length < fuel := by
    rw [List.length_append] at hfuel
    omega
  have hread := h.run_prefixed hbefore hexpecting htail hlength
  rw [htext] at hread hrest ⊢
  exact Hsh.run_nextToken hblanks hc hrest (by omega) hread

theorem run_nextToken_literal {blanks : Text} (hblanks : ∀ b ∈ blanks, isBlank b = true)
    {lexer : Lexer} {fuel : Nat} (hne : before ≠ []) (hbefore : ∀ c ∈ before, standsInWord c)
    (hfirst : ∀ c ∈ before.head?, startsWord c) (hrest : lexer.rest = blanks ++ (before ++ tail))
    (htail : ∀ c ∈ tail.head?, endsWord c = true)
    (hfuel : blanks.length + before.length + 4 ≤ fuel) :
    ∃ token lexer', (nextToken fuel).run lexer = .ok (token, lexer') ∧ token.kind = .word ∧
      token.word.parts = literalParts before ∧ lexer'.rest = tail ∧
      (lexer.Settled → lexer' = lexer.past (blanks ++ before)) := by
  obtain ⟨c, text, rfl⟩ := List.exists_cons_of_ne_nil hne
  obtain ⟨fuel, rfl⟩ : ∃ n, fuel = (c :: text).length + (n + 1) + 3 :=
    ⟨fuel - (c :: text).length - 4, by omega⟩
  have hexpecting : (lexer.expecting.past blanks).rest = c :: text ++ tail :=
    Lexer.rest_past (show lexer.expecting.rest = blanks ++ _ from hrest)
  have hread : (readWordCharacters ((c :: text).length + (fuel + 1)) []).run
      (lexer.expecting.past blanks) =
        .ok (literalParts (c :: text), (lexer.expecting.past blanks).past (c :: text)) := by
    rw [run_literal hbefore hexpecting]
    refine run_readWordCharacters_end ?_
    rwa [Lexer.rest_past hexpecting]
  obtain ⟨token, lexer', hrun, hkind, hword, hrest', hsettled⟩ :=
    run_nextToken hblanks (hfirst c rfl) hrest (by omega) hread
  exact ⟨token, lexer', hrun, hkind, by rw [hword], hrest', hsettled⟩

theorem exec_expandWord_literal {ω : Type} (host : Host ω) (hne : before ≠ [])
    (htilde : before.head? ≠ some '~') (hpattern : NoPattern before) {word : Word}
    (hword : word.parts = literalParts before) (world : World ω) :
    exec (expandWord host word) world = (.ok [before], world) := by
  have hstart : tildeAllowed .fields false = true → before.head? ≠ some '~' := fun _ => htilde
  have hwalk := walk_literalParts host hstart [] {} world
  rw [List.append_nil, ← hword] at hwalk
  have hfields : finishFields world.state (host.pathnames world.outside)
      (PendingFields.emitElements {} (literalElements before)) = [before] := by
    have hall : ∀ field ∈ [literalElements before], Plain field ∧ field ≠ [] := by
      simpa [literalElements] using ⟨plain_literalElements hpattern, hne⟩
    have hfinish := flatMap_finish_plain hall (ifsOf world.state) world.state
      (host.pathnames world.outside)
    refine hfinish.trans ?_
    exact congrArg (fun text => [text]) (textOf_chars before false false)
  rw [expandWord, walkWord, exec_bind_ok (hwalk.trans rfl), ← hfields]
  rfl

/-! ## Names -/

theorem standsInWord_of_isNameChar {c : Char} (h : isNameChar c = true) : standsInWord c := by
  have hne : ∀ d, isNameChar d = false → c ≠ d := by
    rintro d hd rfl
    rw [h] at hd
    cases hd
  refine ⟨?_, hne _ (by decide), hne _ (by decide), hne _ (by decide), hne _ (by decide),
    hne _ (by decide)⟩
  simp [endsWord, isBlank, isOperatorChar, hne ' ' (by decide), hne '\t' (by decide),
    hne '\n' (by decide), hne ';' (by decide), hne '&' (by decide), hne '|' (by decide),
    hne '(' (by decide), hne ')' (by decide), hne '<' (by decide), hne '>' (by decide)]

/-- A name followed by more characters that a word takes begins a word. -/
theorem name_stands {name : Text} (h : isValidShellName name = true) :
    ∃ c rest, name = c :: rest ∧ isNameStart c = true ∧ ∀ d ∈ name, isNameChar d = true := by
  rcases name with _ | ⟨c, rest⟩
  · cases h
  · simp only [isValidShellName, Bool.and_eq_true, List.all_eq_true] at h
    refine ⟨c, rest, rfl, h.1, ?_⟩
    intro d hd
    rcases List.mem_cons.mp hd with rfl | hd
    · simp [isNameChar, h.1]
    · exact h.2 d hd

theorem startsWord_of_isNameStart {c : Char} (h : isNameStart c = true) : startsWord c := by
  have hchar : isNameChar c = true := by simp [isNameChar, h]
  have hstands := standsInWord_of_isNameChar hchar
  have hcomment : c ≠ '#' := by
    rintro rfl
    revert h
    decide
  exact ⟨hstands.1, hcomment, hstands.2.2.2.1, Arithmetic.isDigit_of_isNameStart h⟩

theorem noPattern_of_isNameChar {text : Text} (h : ∀ c ∈ text, isNameChar c = true ∨ c = '=') :
    NoPattern text := by
  intro c hc
  refine ⟨?_, ?_, ?_⟩ <;>
    · rintro rfl
      rcases h _ hc with h | h <;> revert h <;> decide

theorem takeAssignment_eq {name : Text} (hname : isValidShellName name = true) {word : Word}
    (hword : word.parts = literalParts (name ++ ['=']) ++ parts) :
    ∃ assignment, takeAssignment word = some assignment ∧ assignment.name = name ∧
      assignment.value.parts = parts := by
  obtain ⟨c, rest, hcons, -, hall⟩ := name_stands hname
  have htake : (name ++ ['=']).takeWhile isNameChar = name := by
    rw [List.takeWhile_append_of_pos hall]
    simp [show isNameChar '=' = false by decide]
  have hliteral : word.parts = .literal (name ++ ['=']) :: parts := by
    rw [hword, literalParts, if_neg (by simp)]
    rfl
  have hlength : assignmentNameLength word = name.length := by
    rw [assignmentNameLength, hliteral]
    simp only [htake]
    exact if_pos ⟨hname, by simp⟩
  have hpresent : name.length ≠ 0 := by
    rw [hcons]
    simp
  have htaken : takeAssignment word = some
      { name := (name ++ ['=']).take name.length
        value :=
          { parts := literalParts ((name ++ ['=']).drop (name.length + 1)) ++ parts
            source := (word.source.dropWhile (· ≠ '=')).drop 1
            line := word.line } } := by
    rw [takeAssignment, hliteral]
    simp only [hlength]
    exact if_neg hpresent
  refine ⟨_, htaken, List.take_left, ?_⟩
  change literalParts ((name ++ ['=']).drop (name.length + 1)) ++ parts = parts
  rw [List.drop_of_length_le (by simp)]
  rfl

/-! ## Lines -/

/-- All tokens of a source, with the one that stands for its end. -/
def readTokens : Nat → Lex (List Token)
  | 0 => throw .outOfFuel
  | fuel + 1 => do
      let token ← nextToken fuel
      if token.kind = .endOfInput then pure [token]
      else do pure (token :: (← readTokens fuel))

/-- The tokens are the words of the lines, each line's followed by its newline, and the end. -/
inductive ReadsLines {α : Type} (reads : α → List Token → Prop) : List α → List Token → Prop where
  | none {last : Token} (ends : last.kind = .endOfInput) : ReadsLines reads [] [last]
  | line {a : α} {lines : List α} {words tokens : List Token} {newline : Token}
      (words_read : reads a words) (newline_read : newline.kind = .newline)
      (rest : ReadsLines reads lines tokens) :
      ReadsLines reads (a :: lines) (words ++ newline :: tokens)

theorem run_readTokens_cons {lexer lexer' lexer'' : Lexer} {fuel : Nat} {token : Token}
    {tokens : List Token} (h : (nextToken fuel).run lexer = .ok (token, lexer'))
    (hkind : token.kind ≠ .endOfInput)
    (hrest : (readTokens fuel).run lexer' = .ok (tokens, lexer'')) :
    (readTokens (fuel + 1)).run lexer = .ok (token :: tokens, lexer'') := by
  rw [readTokens, run_bind_ok h]
  simp only [if_neg hkind]
  rw [run_bind_ok hrest]
  rfl

/-- The line's words are read in front of whatever is read after them. -/
def LineReads (line : Text) (reads : List Token → Prop) : Prop :=
  ∀ (lexer : Lexer) (tail : Text) (fuel : Nat), lexer.Settled → lexer.rest = line ++ '\n' :: tail →
    line.length + 6 ≤ fuel → ∃ words fuel', reads words ∧ words.length ≤ line.length ∧
      fuel = fuel' + words.length ∧ ∀ tokens lexer',
        (readTokens fuel').run (lexer.past line) = .ok (tokens, lexer') →
        (readTokens fuel).run lexer = .ok (words ++ tokens, lexer')

theorem run_readTokens_lines {α : Type} {reads : α → List Token → Prop} {line : α → Text}
    {lines : List α} (hlines : ∀ a ∈ lines, LineReads (line a) (reads a)) :
    ∀ {lexer : Lexer} {fuel : Nat}, lexer.Settled →
      lexer.rest = lines.flatMap (fun a => line a ++ ['\n']) → lexer.rest.length + 6 ≤ fuel →
      ∃ tokens lexer', (readTokens fuel).run lexer = .ok (tokens, lexer') ∧
        ReadsLines reads lines tokens := by
  induction lines with
  | nil =>
      intro lexer fuel hsettled hrest hfuel
      obtain ⟨fuel, rfl⟩ : ∃ n, fuel = n + 4 + 1 := ⟨fuel - 5, by omega⟩
      have hrun : (readTokens (fuel + 4 + 1)).run lexer =
          .ok ([{ kind := .endOfInput, line := lexer.line, beginsAt := lexer.source.length,
                  endsAt := lexer.source.length }], lexer) := by
        rw [readTokens, run_bind_ok (run_nextToken_end hsettled hrest)]
        rfl
      exact ⟨_, _, hrun, .none rfl⟩
  | cons a lines ih =>
      intro lexer fuel hsettled hrest hfuel
      have hrest : lexer.rest =
          line a ++ '\n' :: lines.flatMap (fun a => line a ++ ['\n']) := by
        rw [hrest, List.flatMap_cons, List.append_assoc]
        rfl
      rw [hrest, List.length_append, List.length_cons] at hfuel
      obtain ⟨words, fuel', hwords, hlength, rfl, hread⟩ :=
        hlines a (by simp) lexer _ fuel hsettled hrest (by omega)
      obtain ⟨fuel, rfl⟩ : ∃ n, fuel' = n + 4 + 1 := ⟨fuel' - 5, by omega⟩
      have hend := Lexer.rest_past hrest
      have hnewline := run_nextToken_newline fuel (hsettled.past (line a)) hend
      have hrest' : (((lexer.past (line a)).past ['\n']).rest) =
          lines.flatMap (fun a => line a ++ ['\n']) := Lexer.rest_past hend
      have hfuel' : ((lexer.past (line a)).past ['\n']).rest.length + 6 ≤ fuel + 4 := by
        rw [hrest']
        omega
      obtain ⟨tokens, lexer', htokens, hlines'⟩ :=
        ih (fun b hb => hlines b (by simp [hb])) ((hsettled.past _).past _) hrest' hfuel'
      exact ⟨_, lexer', hread _ _ (run_readTokens_cons hnewline (by simp) htokens),
        .line hwords rfl hlines'⟩

/-! ## The lines that are printed -/

/-- A line of `set`. -/
def assignmentLine (name value : Text) : Text := name ++ ['='] ++ shellSingleQuote value

/-- A line of `export -p` or `readonly -p`: a name that is not set has the flag only. -/
def listingLine (command name : Text) (value : Option Text) : Text :=
  command ++ [' '] ++ name ++
    match value with
    | some value => ['='] ++ shellSingleQuote value
    | none => []

/-- The operand by which the command is given the name, and the value when there is one. -/
def listingOperand (name : Text) : Option Text → Text
  | some value => name ++ ['='] ++ value
  | none => name

section

variable {name : Text} (hname : isValidShellName name = true)
include hname

theorem name_standsInWord : ∀ c ∈ name ++ ['='], standsInWord c := by
  obtain ⟨-, -, -, -, hall⟩ := name_stands hname
  intro c hc
  rcases List.mem_append.mp hc with hc | hc
  · exact standsInWord_of_isNameChar (hall c hc)
  · rw [List.mem_singleton.mp hc]
    unfold standsInWord
    decide

theorem name_startsWord (rest : Text) : ∀ c ∈ (name ++ rest).head?, startsWord c := by
  obtain ⟨c, tail, rfl, hstart, -⟩ := name_stands hname
  intro d hd
  obtain rfl : c = d := by simpa using hd
  exact startsWord_of_isNameStart hstart

theorem name_noTilde (rest : Text) : (name ++ rest).head? ≠ some '~' := by
  obtain ⟨c, tail, rfl, hstart, -⟩ := name_stands hname
  intro hd
  obtain rfl : c = '~' := by simpa using hd
  revert hstart
  decide

theorem name_noPattern : NoPattern (name ++ ['=']) := by
  obtain ⟨-, -, -, -, hall⟩ := name_stands hname
  refine noPattern_of_isNameChar fun c hc => ?_
  rcases List.mem_append.mp hc with hc | hc
  · exact .inl (hall c hc)
  · exact .inr (List.mem_singleton.mp hc)

theorem run_nextToken_assignment (value : Text) {blanks : Text}
    (hblanks : ∀ b ∈ blanks, isBlank b = true) {lexer : Lexer} {fuel : Nat} {tail : Text}
    (hrest : lexer.rest = blanks ++ (assignmentLine name value ++ tail))
    (htail : ∀ c ∈ tail.head?, endsWord c = true)
    (hfuel : blanks.length + (assignmentLine name value).length + 4 ≤ fuel) :
    ∃ token lexer', (nextToken fuel).run lexer = .ok (token, lexer') ∧
      token.word.source = assignmentLine name value ∧ lexer'.rest = tail ∧
      IsAssignmentOf token name value ∧ IsWordOf token (name ++ ['='] ++ value) ∧
      (lexer.Settled → lexer' = lexer.past (blanks ++ assignmentLine name value)) := by
  obtain ⟨parts, h⟩ := requoted_shellSingleQuote value
  obtain ⟨token, lexer', hrun, hkind, hword, hrest', hsettled⟩ :=
    h.run_nextToken hblanks (name_standsInWord hname) (name_startsWord hname _) hrest htail hfuel
  have hparts : token.word.parts = literalParts (name ++ ['=']) ++ parts := by rw [hword]
  obtain ⟨assignment, htaken, hassigned, hvalue⟩ := takeAssignment_eq hname hparts
  refine ⟨token, lexer', hrun, by rw [hword, assignmentLine], hrest', ?_, ?_, hsettled⟩
  · exact ⟨hkind, assignment, htaken, hassigned,
      fun host world => h.exec_expandAssignmentValue host hvalue world⟩
  · exact ⟨hkind, fun host world => h.exec_expandWord host (name_noTilde hname _)
      (name_noPattern hname) hparts world⟩

theorem run_nextToken_name {blanks : Text} (hblanks : ∀ b ∈ blanks, isBlank b = true)
    {lexer : Lexer} {fuel : Nat} {tail : Text} (hrest : lexer.rest = blanks ++ (name ++ tail))
    (htail : ∀ c ∈ tail.head?, endsWord c = true)
    (hfuel : blanks.length + name.length + 4 ≤ fuel) :
    ∃ token lexer', (nextToken fuel).run lexer = .ok (token, lexer') ∧ IsWordOf token name ∧
      (lexer.Settled → lexer' = lexer.past (blanks ++ name)) := by
  obtain ⟨c, rest, hcons, -, -⟩ := name_stands hname
  have hne : name ≠ [] := by simp [hcons]
  have hfirst := name_startsWord hname []
  have htilde := name_noTilde hname []
  rw [List.append_nil] at hfirst htilde
  obtain ⟨token, lexer', hrun, hkind, hparts, -, hsettled⟩ :=
    run_nextToken_literal hblanks hne
      (fun d hd => name_standsInWord hname d (List.mem_append_left _ hd)) hfirst hrest htail hfuel
  refine ⟨token, lexer', hrun, ⟨hkind, fun host world => ?_⟩, hsettled⟩
  exact exec_expandWord_literal host hne htilde
    (fun d hd => name_noPattern hname d (List.mem_append_left _ hd)) hparts world

theorem lineReads_assignmentLine (value : Text) :
    LineReads (assignmentLine name value) fun words =>
      ∃ token, words = [token] ∧ IsAssignmentOf token name value := by
  intro lexer tail fuel hsettled hrest hfuel
  obtain ⟨fuel, rfl⟩ : ∃ n, fuel = n + 1 := ⟨fuel - 1, by omega⟩
  have hnone : ∀ b ∈ ([] : Text), isBlank b = true := by simp
  have hlength : ([] : Text).length + (assignmentLine name value).length + 4 ≤ fuel := by
    rw [List.length_nil]
    omega
  obtain ⟨token, lexer', hrun, -, -, hassignment, -, hpast⟩ :=
    run_nextToken_assignment hname value hnone hrest (by simp [endsWord]) hlength
  rw [hpast hsettled] at hrun
  have hkind : token.kind ≠ .endOfInput := by simp [hassignment.1]
  refine ⟨[token], fuel, ⟨token, rfl, hassignment⟩, ?_, rfl, fun tokens lexer' htokens => ?_⟩
  · simp only [assignmentLine, List.length_append, List.length_cons]
    omega
  · exact run_readTokens_cons hrun hkind htokens

theorem lineReads_command {word operand : Text} (hpresent : word ≠ [])
    (hword : ∀ (lexer : Lexer) (tail : Text) (fuel : Nat), lexer.Settled →
      lexer.rest = [' '] ++ (word ++ '\n' :: tail) → word.length + 5 ≤ fuel →
        ∃ token, (nextToken fuel).run lexer = .ok (token, lexer.past ([' '] ++ word)) ∧
          IsWordOf token operand) :
    LineReads (name ++ ([' '] ++ word)) fun words =>
      ∃ token token', words = [token, token'] ∧ IsWordOf token name ∧
        IsWordOf token' operand := by
  intro lexer tail fuel hsettled hrest hfuel
  have hpresent := List.length_pos_iff.mpr hpresent
  simp only [List.length_append, List.length_cons, List.length_nil] at hfuel
  obtain ⟨fuel, rfl⟩ : ∃ n, fuel = n + 2 := ⟨fuel - 2, by omega⟩
  have hnone : ∀ b ∈ ([] : Text), isBlank b = true := by simp
  have hrest : lexer.rest = [] ++ (name ++ ([' '] ++ (word ++ '\n' :: tail))) := by
    rw [hrest]
    simp
  obtain ⟨token, lexer', hrun, hname', hpast⟩ :=
    run_nextToken_name hname hnone hrest (by simp [endsWord, isBlank])
      (show ([] : Text).length + name.length + 4 ≤ fuel + 1 by rw [List.length_nil]; omega)
  rw [hpast hsettled] at hrun
  obtain ⟨token', hrun', hoperand⟩ := hword (lexer.past name) tail fuel (hsettled.past name)
    (Lexer.rest_past hrest) (by omega)
  have hkind : token.kind ≠ .endOfInput := by simp [hname'.1]
  have hkind' : token'.kind ≠ .endOfInput := by simp [hoperand.1]
  refine ⟨[token, token'], fuel, ⟨token, token', rfl, hname', hoperand⟩, ?_, rfl,
    fun tokens lexer' htokens => ?_⟩
  · simp only [List.length_append, List.length_cons, List.length_nil]
    omega
  · rw [Lexer.past_append] at htokens
    exact run_readTokens_cons hrun hkind (run_readTokens_cons hrun' hkind' htokens)

theorem lineReads_listingLine {command : Text} (hcommand : isValidShellName command = true)
    (value : Option Text) :
    LineReads (listingLine command name value) fun words =>
      ∃ token token', words = [token, token'] ∧ IsWordOf token command ∧
        IsWordOf token' (listingOperand name value) := by
  have hblank : ∀ b ∈ ([' '] : Text), isBlank b = true := by simp [isBlank]
  have hends : ∀ tail : Text, ∀ c ∈ ('\n' :: tail).head?, endsWord c = true := by
    intro tail c hc
    obtain rfl : '\n' = c := by simpa using hc
    decide
  cases value with
  | none =>
      have hline : listingLine command name none = command ++ ([' '] ++ name) := by
        simp [listingLine]
      obtain ⟨c, rest, hcons, -, -⟩ := name_stands hname
      rw [hline]
      refine lineReads_command hcommand (by simp [hcons]) fun lexer tail fuel hsettled hrest hfuel => ?_
      obtain ⟨token, lexer', hrun, hword, hpast⟩ :=
        run_nextToken_name hname hblank hrest (hends tail)
          (show ([' '] : Text).length + name.length + 4 ≤ fuel by simp; omega)
      rw [hpast hsettled] at hrun
      exact ⟨token, hrun, hword⟩
  | some value =>
      have hline : listingLine command name (some value) =
          command ++ ([' '] ++ assignmentLine name value) := by
        simp [listingLine, assignmentLine]
      rw [hline]
      refine lineReads_command hcommand (by simp [assignmentLine])
        fun lexer tail fuel hsettled hrest hfuel => ?_
      obtain ⟨token, lexer', hrun, -, -, -, hword, hpast⟩ :=
        run_nextToken_assignment hname value hblank hrest (hends tail)
          (show ([' '] : Text).length + (assignmentLine name value).length + 4 ≤ fuel by
            simp; omega)
      rw [hpast hsettled] at hrun
      exact ⟨token, hrun, hword⟩

end

/-! ## The law -/

theorem builtinSet_prints {D P : Type} (machine : Shell.Machine ω D P)
    (knowledge : Shell.Knowledge ω D) :
    Shell.builtinSet machine knowledge [] =
      (do
        let vars := (← getState).vars
        Shell.writeEach machine (((knowledge.names vars).filterMap fun name =>
          (vars.get name).map (name, ·)).map fun entry =>
            assignmentLine entry.1 entry.2 ++ ['\n'])
        pure 0) := by
  have hlines : ∀ vars : ShellVariables, ∀ names : List Text,
      (names.filterMap fun name => (vars.get name).map (name, ·)).map
          (fun entry =>
          assignmentLine entry.1 entry.2 ++ ['\n']) =
        names.filterMap fun name => (vars.get name).map fun value =>
          name ++ ['='] ++ shellSingleQuote value ++ ['\n'] := by
    intro vars names
    rw [List.map_filterMap]
    simp [assignmentLine, Option.map_map, Function.comp_def]
  simp only [hlines]
  rfl

theorem builtinExportReadonly_prints {ω D P : Type} (machine : Shell.Machine ω D P)
    (knowledge : Shell.Knowledge ω D) (setReadonly : Bool) {arguments : List Text}
    (h : arguments = [] ∨ arguments = [text "-p"]) :
    Shell.builtinExportReadonly machine knowledge setReadonly arguments =
      (do
        let vars := (← getState).vars
        let listed := (knowledge.names vars).filter fun name =>
          if setReadonly then (vars.entry name).readonly else (vars.entry name).exported
        let command := if setReadonly then text "readonly" else text "export"
        Shell.writeEach machine ((listed.map fun name => (name, vars.get name)).map fun entry =>
          listingLine command entry.1 entry.2 ++ ['\n'])
        pure 0) := by
  have hoptions : ∀ command : Text,
      Shell.listingOptions (ω := ω) (D := D) (P := P) command arguments.isEmpty arguments =
        pure (true, []) := by
    intro command
    rcases h with rfl | rfl
    · rfl
    · rfl
  rw [Shell.builtinExportReadonly]
  simp only [hoptions, pure_bind, if_true, List.map_map]
  rfl

/--
`ShellSingleQuote` is read as one word that expands to the value alone, behind
a name and `=` as one assignment of it, and the lines of several variables as
those assignments or those operands, and as nothing else.
-/
theorem shellSingleQuote_readBack :
    (∀ (value tail : Text) (lexer : Lexer) (fuel : Nat),
      lexer.rest = shellSingleQuote value ++ tail → (∀ c ∈ tail.head?, endsWord c = true) →
      (shellSingleQuote value).length + 4 ≤ fuel →
      ∃ token lexer', (nextToken fuel).run lexer = .ok (token, lexer') ∧
        token.word.source = shellSingleQuote value ∧ lexer'.rest = tail ∧
        IsWordOf token value) ∧
    (∀ (name value tail : Text) (lexer : Lexer) (fuel : Nat), isValidShellName name = true →
      lexer.rest = assignmentLine name value ++ tail → (∀ c ∈ tail.head?, endsWord c = true) →
      (assignmentLine name value).length + 4 ≤ fuel →
      ∃ token lexer', (nextToken fuel).run lexer = .ok (token, lexer') ∧
        token.word.source = assignmentLine name value ∧ lexer'.rest = tail ∧
        IsAssignmentOf token name value) ∧
    (∀ (entries : List (Text × Text)) (printed : Text) (line : Nat) (interactive : Bool)
      (fuel : Nat), (∀ entry ∈ entries, isValidShellName entry.1 = true) →
      printed = entries.flatMap (fun entry => assignmentLine entry.1 entry.2 ++ ['\n']) →
      printed.length + 6 ≤ fuel →
      ∃ tokens lexer',
        (readTokens fuel).run { source := printed, line, interactive } = .ok (tokens, lexer') ∧
        ReadsLines (fun (entry : Text × Text) words =>
          ∃ token, words = [token] ∧ IsAssignmentOf token entry.1 entry.2) entries tokens) ∧
    (∀ (command : Text) (entries : List (Text × Option Text)) (printed : Text) (line : Nat)
      (interactive : Bool) (fuel : Nat), command = text "export" ∨ command = text "readonly" →
      (∀ entry ∈ entries, isValidShellName entry.1 = true) →
      printed = entries.flatMap (fun entry => listingLine command entry.1 entry.2 ++ ['\n']) →
      printed.length + 6 ≤ fuel →
      ∃ tokens lexer',
        (readTokens fuel).run { source := printed, line, interactive } = .ok (tokens, lexer') ∧
        ReadsLines (fun (entry : Text × Option Text) words =>
          ∃ token token', words = [token, token'] ∧ IsWordOf token command ∧
            IsWordOf token' (listingOperand entry.1 entry.2)) entries tokens) := by
  have hnone : ∀ b ∈ ([] : Text), isBlank b = true := by simp
  have hsettled : ∀ (printed : Text) (line : Nat) (interactive : Bool),
      ({ source := printed, line, interactive } : Lexer).Settled := fun _ _ _ => ⟨rfl, rfl, rfl, rfl⟩
  refine ⟨?_, ?_, ?_, ?_⟩
  · intro value tail lexer fuel hrest htail hfuel
    obtain ⟨parts, h⟩ := requoted_shellSingleQuote value
    have hlength : ([] : Text).length + ([] ++ shellSingleQuote value).length + 4 ≤ fuel := by
      simpa using hfuel
    obtain ⟨token, lexer', hrun, hkind, hword, hrest', -⟩ :=
      h.run_nextToken hnone (by simp) (by simp) hrest htail hlength
    have htilde : ([] : Text).head? ≠ some '~' := by simp
    have hpattern : NoPattern ([] : Text) := by simp [NoPattern]
    refine ⟨token, lexer', hrun, by rw [hword]; rfl, hrest', hkind, fun host world => ?_⟩
    exact h.exec_expandWord host htilde hpattern (by rw [hword]) world
  · intro name value tail lexer fuel hname hrest htail hfuel
    have hlength : ([] : Text).length + (assignmentLine name value).length + 4 ≤ fuel := by
      simpa using hfuel
    obtain ⟨token, lexer', hrun, hsource, hrest', hassignment, -, -⟩ :=
      run_nextToken_assignment hname value hnone hrest htail hlength
    exact ⟨token, lexer', hrun, hsource, hrest', hassignment⟩
  · intro entries printed line interactive fuel hnames hprinted hfuel
    exact run_readTokens_lines
      (fun entry hentry => lineReads_assignmentLine (hnames entry hentry) entry.2)
      (hsettled printed line interactive) hprinted hfuel
  · intro command entries printed line interactive fuel hcommand hnames hprinted hfuel
    have hvalid : isValidShellName command = true := by
      rcases hcommand with rfl | rfl <;> decide
    exact run_readTokens_lines
      (fun entry hentry => lineReads_listingLine (hnames entry hentry) hvalid entry.2)
      (hsettled printed line interactive) hprinted hfuel

end Haisos.Hsh
