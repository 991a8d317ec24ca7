import Haisos.Hsh.Expansion.PlainFields

/-!
# Double quotes

What stands in double quotes is emitted quoted, into the field it is found in; only `@`
begins fields of its own.
-/

namespace Haisos.Hsh

open StateExcept

/-! ## Words read in double quotes -/

def ParameterOp.removes : ParameterOp → Bool
  | .removeSmallestSuffix | .removeLargestSuffix | .removeSmallestPrefix
  | .removeLargestPrefix => true
  | _ => false

mutual

/--
What the lexer reads inside double quotes: no unquoted text but in a pattern
operand or in arithmetic, which have their own quoting.
-/
def WordPart.readInQuotes : WordPart → Bool
  | .literal _ => false
  | .quoted _ => true
  | .doubleQuoted parts => allReadInQuotes parts
  | .parameter _ op operand => op.removes || allReadInQuotes operand
  | .commandSubstitution _ _ _ => true
  | .arithmetic _ => true

def allReadInQuotes : List WordPart → Bool
  | [] => true
  | part :: parts => part.readInQuotes && allReadInQuotes parts

end

mutual

/-- The parameter `@` occurs, at some depth. -/
def WordPart.mentionsAt : WordPart → Bool
  | .literal _ => false
  | .quoted _ => false
  | .doubleQuoted parts => anyMentionsAt parts
  | .parameter name _ operand => name == ['@'] || anyMentionsAt operand
  | .commandSubstitution _ _ _ => false
  | .arithmetic parts => anyMentionsAt parts

def anyMentionsAt : List WordPart → Bool
  | [] => false
  | part :: parts => part.mentionsAt || anyMentionsAt parts

end

section

variable {ω : Type} (host : Host ω)

/-! ## The kinds of a command word and of a string -/

theorem emitLiteral_fields_eq_string (state : ShellState) (inOperand lastPart tilde : Bool)
    (text : Text) (out : PendingFields) :
    emitLiteral state .fields inOperand lastPart tilde text out =
      emitLiteral state .string inOperand lastPart tilde text out := by
  induction text generalizing tilde out with
  | nil => rfl
  | cons c rest ih =>
      simp only [emitLiteral]
      have hend : tildePrefixEnd .fields lastPart (c :: rest) =
          tildePrefixEnd .string lastPart (c :: rest) := rfl
      have hkind : (ExpansionKind.fields == .assignment) = (ExpansionKind.string == .assignment) :=
        rfl
      rw [hend, hkind]
      split <;> exact ih _ _

mutual

theorem walkPart_fields_eq_string (part : WordPart) :
    ∀ inDoubleQuotes inOperand atStart lastPart out,
      walkPart host .fields inDoubleQuotes inOperand atStart lastPart part out =
        walkPart host .string inDoubleQuotes inOperand atStart lastPart part out := by
  intro inDoubleQuotes inOperand atStart lastPart out
  cases part with
  | literal text => simp only [walkPart, emitLiteral_fields_eq_string]
  | quoted text => rfl
  | doubleQuoted parts => exact walkWordInto_fields_eq_string parts _ _ _ _
  | commandSubstitution source backquoted line => rfl
  | arithmetic parts => simp only [walkPart, walkWordInto_fields_eq_string parts]
  | parameter name op operand =>
      have htilde : ∀ quotes, tildeAllowed .fields quotes = tildeAllowed .string quotes :=
        fun _ => rfl
      simp only [walkPart, walkWordInto_fields_eq_string operand, htilde]

theorem walkWordInto_fields_eq_string (parts : List WordPart) :
    ∀ inDoubleQuotes inOperand tilde out,
      walkWordInto host .fields inDoubleQuotes inOperand tilde parts out =
        walkWordInto host .string inDoubleQuotes inOperand tilde parts out := by
  intro inDoubleQuotes inOperand tilde out
  cases parts with
  | nil => rfl
  | cons part parts =>
      simp only [walkWordInto, walkPart_fields_eq_string part, walkWordInto_fields_eq_string parts]

end

/-! ## What is emitted in double quotes -/

/-- The current field has grown by quoted elements, and nothing else has changed. -/
def GrowsQuoted (out out' : PendingFields) : Prop :=
  ∃ elements, out' = out.emitElements elements ∧ elements.all Element.isQuoted = true

theorem GrowsQuoted.refl (out : PendingFields) : GrowsQuoted out out :=
  ⟨[], by simp [PendingFields.emitElements], rfl⟩

theorem GrowsQuoted.trans {out out' out'' : PendingFields} (h : GrowsQuoted out out')
    (h' : GrowsQuoted out' out'') : GrowsQuoted out out'' := by
  obtain ⟨elements, rfl, hall⟩ := h
  obtain ⟨elements', rfl, hall'⟩ := h'
  exact ⟨elements ++ elements', out.emitElements_emitElements _ _, by simp [hall, hall']⟩

theorem growsQuoted_emitQuoteMark (out : PendingFields) : GrowsQuoted out out.emitQuoteMark :=
  ⟨[.quoteMark], rfl, rfl⟩

theorem growsQuoted_emitChars (out : PendingFields) (text : Text) :
    GrowsQuoted out (out.emitChars text true false) :=
  ⟨_, rfl, by simp [Element.isQuoted]⟩

theorem growsQuoted_emitValue (out : PendingFields) (value : Text) :
    GrowsQuoted out (out.emitValue true value) :=
  (growsQuoted_emitQuoteMark out).trans (growsQuoted_emitChars _ value)

theorem growsQuoted_emitPositionalStyle (state : ShellState) {name : Text} (hname : name ≠ ['@'])
    (values : List Text) (out : PendingFields) :
    GrowsQuoted out (emitPositionalStyle state true name values out) := by
  unfold emitPositionalStyle
  split_ifs with h h'
  · exact growsQuoted_emitValue out _
  · exact growsQuoted_emitValue out _
  · simp [hname] at h h'
    exact absurd h h'

/-- A walk that only adds quoted elements to the current field. -/
abbrev EmitsQuoted (out : PendingFields) (walk : Walk ω PendingFields) : Prop :=
  Ensures (fun _ => True) walk fun out' _ => GrowsQuoted out out'

theorem emitsQuoted_pure {out out' : PendingFields} (h : GrowsQuoted out out') :
    EmitsQuoted (ω := ω) out (pure out') :=
  .pure_intro fun _ _ => h

/-- What runs before the emission does not matter. -/
theorem emitsQuoted_bind {α : Type} {out : PendingFields} {m : Walk ω α}
    {walk : α → Walk ω PendingFields} (h : ∀ a, EmitsQuoted out (walk a)) :
    EmitsQuoted out (m >>= walk) :=
  .bind_intro .trivial fun a => (h a).consequence (fun _ _ => True.intro) fun _ _ h => h

mutual

theorem walkPart_emitsQuoted (part : WordPart) (hread : part.readInQuotes = true)
    (hat : part.mentionsAt = false) :
    ∀ kind inOperand atStart lastPart out,
      EmitsQuoted out (walkPart host kind true inOperand atStart lastPart part out) := by
  intro kind inOperand atStart lastPart out
  cases part with
  | literal text => cases hread
  | quoted text => exact emitsQuoted_pure (growsQuoted_emitValue out text)
  | doubleQuoted parts =>
      have hinner := walkWordInto_emitsQuoted parts hread hat kind inOperand false
      rw [walkPart]
      split_ifs
      · exact hinner out
      · exact fun s hs a s' hrun =>
          (growsQuoted_emitQuoteMark out).trans (hinner _ s hs a s' hrun)
  | commandSubstitution source backquoted line =>
      exact emitsQuoted_bind fun output => emitsQuoted_pure (growsQuoted_emitValue out output)
  | arithmetic parts =>
      exact emitsQuoted_bind fun expression => emitsQuoted_bind fun state =>
        emitsQuoted_bind fun value => emitsQuoted_pure (growsQuoted_emitValue out value)
  | parameter name op operand =>
      simp only [WordPart.mentionsAt, Bool.or_eq_false_iff, beq_eq_false_iff_ne] at hat
      have hpositional : ∀ values, EmitsQuoted (ω := ω) out (do
          pure (emitPositionalStyle (← getState) true name values out)) := fun values =>
        emitsQuoted_bind fun state =>
          emitsQuoted_pure (growsQuoted_emitPositionalStyle state hat.1 values out)
      have hoperand : op.removes = false → ∀ tilde, EmitsQuoted out
          (walkWordInto host kind true (inOperand || !true) tilde operand out) := by
        intro hop tilde
        simp only [WordPart.readInQuotes, hop, Bool.false_or] at hread
        exact walkWordInto_emitsQuoted operand hread hat.2 kind _ tilde out
      rw [walkPart]
      refine emitsQuoted_bind fun state => ?_
      cases op with
      | bad => exact .throw_intro
      | none => exact emitsQuoted_bind fun _ => hpositional _
      | length =>
          exact emitsQuoted_bind fun _ => emitsQuoted_pure (growsQuoted_emitValue out _)
      | removeSmallestSuffix | removeLargestSuffix | removeSmallestPrefix | removeLargestPrefix =>
          exact emitsQuoted_bind fun _ => emitsQuoted_bind fun _ => emitsQuoted_bind fun _ =>
            hpositional _
      | useDefault | useDefaultIfUnset | useAlternative | useAlternativeIfSet =>
          simp only
          split_ifs
          · exact hoperand rfl _
          · first | exact hpositional _ | exact emitsQuoted_pure (.refl out)
      | assignDefault | assignDefaultIfUnset =>
          simp only
          have hassign : ∀ m : Walk ω PendingFields, EmitsQuoted out (do
              let sub ← m
              let state ← getState
              assignDefault name (finishString state sub)
              pure (out.emitValue true (finishString state sub))) := fun m =>
            emitsQuoted_bind fun _ => emitsQuoted_bind fun _ => emitsQuoted_bind fun _ =>
              emitsQuoted_pure (growsQuoted_emitValue out _)
          split
          · split
            · exact emitsQuoted_bind fun _ => hassign _
            · exact hassign _
          · exact hpositional _
      | errorIfNull | errorIfUnset =>
          simp only
          split
          · split
            · exact .throw_intro
            · exact emitsQuoted_bind fun _ => emitsQuoted_bind fun _ => .throw_intro
          · exact hpositional _

theorem walkWordInto_emitsQuoted (parts : List WordPart) (hread : allReadInQuotes parts = true)
    (hat : anyMentionsAt parts = false) :
    ∀ kind inOperand tilde out,
      EmitsQuoted out (walkWordInto host kind true inOperand tilde parts out) := by
  intro kind inOperand tilde out
  cases parts with
  | nil => exact emitsQuoted_pure (.refl out)
  | cons part parts =>
      simp only [allReadInQuotes, Bool.and_eq_true] at hread
      simp only [anyMentionsAt, Bool.or_eq_false_iff] at hat
      refine .bind_intro (walkPart_emitsQuoted part hread.1 hat.1 kind inOperand tilde _ out)
        fun out' => ?_
      intro s hout a s' hrun
      exact hout.trans (walkWordInto_emitsQuoted parts hread.2 hat.2 kind inOperand false out' s
        True.intro a s' hrun)

end

/-! ## A word in double quotes -/

theorem finishFields_quoted {elements : List Element} (h : elements.all Element.isQuoted = true)
    (state : ShellState) (source : PathnameSource) :
    finishFields state source (PendingFields.emitElements {} (.quoteMark :: elements)) =
      [finishString state (PendingFields.emitElements {} (.quoteMark :: elements))] := by
  have hmarked : (Element.quoteMark :: elements).all Element.isQuoted = true := h
  have hplain := plain_quoted hmarked
  have hfinish := finish_plain_field hplain.1 hplain.2 (ifsOf state) state source
  simpa [finishFields, finishString, PendingFields.fields, PendingFields.emitElements, joinWith]
    using hfinish

theorem not_onlyPlainAt {parts : List WordPart} (hat : anyMentionsAt parts = false) :
    onlyPlainAt parts = false := by
  unfold onlyPlainAt
  split
  · cases hat
  · rfl

/--
A word that is one double-quoted part without `@` expands to exactly one field,
the string it expands to.
-/
theorem expandWord_doubleQuoted {word : Word} {parts : List WordPart}
    (hword : word.parts = [.doubleQuoted parts]) (hread : allReadInQuotes parts = true)
    (hat : anyMentionsAt parts = false) (world : World ω) :
    exec (expandWord host word) world =
      ((exec (expandToString host word) world).1.map fun value => [value],
        (exec (expandToString host word) world).2) := by
  have hwalk : ∀ kind, walkWord host kind word.parts =
      walkWordInto host kind true false false parts (PendingFields.emitQuoteMark {}) := by
    intro kind
    rw [walkWord, hword, walkWordInto, walkPart, not_onlyPlainAt hat]
    simp [walkWordInto]
  simp only [expandWord, expandToString, expandToKind, hwalk, walkWordInto_fields_eq_string]
  rw [exec_bind, exec_bind]
  rcases hrun : exec (walkWordInto host .string true false false parts
    (PendingFields.emitQuoteMark {})) world with ⟨e | out, world'⟩
  · rfl
  · obtain ⟨elements, rfl, hall⟩ := walkWordInto_emitsQuoted host parts hread hat .string false
      false _ world True.intro out world' hrun
    have hfinish := finishFields_quoted hall world'.state (host.pathnames world'.outside)
    exact congrArg (fun fields => (Except.ok fields, world')) hfinish

/-! ## `$@` in double quotes -/

def quotedParts (text : Text) : List WordPart := if text = [] then [] else [.quoted text]

/-- The word `before"opening$@closing"after`. -/
def atWord (before opening closing after : Text) : List WordPart :=
  literalParts before ++
    .doubleQuoted (quotedParts opening ++ .parameter ['@'] .none [] :: quotedParts closing) ::
      literalParts after

/-- `after` at the end of the last field. -/
def appendLast {β : Type} (after : List β) : List (List β) → List (List β)
  | [] => []
  | [field] => [field ++ after]
  | field :: fields => field :: appendLast after fields

/-- The fields with `before` in front of the first and `after` behind the last. -/
def surround {β : Type} (before after : List β) : List (List β) → List (List β)
  | [] => []
  | field :: fields => appendLast after ((before ++ field) :: fields)

/-- What `before"opening$@closing"after` expands to. -/
def atFields (before opening closing after : Text) (positional : List Text) : List Text :=
  if positional = [] then
    if before = [] ∧ opening = [] ∧ closing = [] ∧ after = [] then []
    else [before ++ opening ++ closing ++ after]
  else surround (before ++ opening) (closing ++ after) positional

theorem appendLast_cons {β : Type} (after field field' : List β) (fields : List (List β)) :
    appendLast after (field :: field' :: fields) = field :: appendLast after (field' :: fields) :=
  rfl

theorem map_textOf_appendLast (after : List Element) (fields : List (List Element)) :
    (appendLast after fields).map textOf = appendLast (textOf after) (fields.map textOf) := by
  induction fields with
  | nil => rfl
  | cons field fields ih =>
      rcases fields with _ | ⟨field', fields⟩
      · simp [appendLast, textOf_append]
      · rw [appendLast_cons, List.map_cons, ih]
        rfl

theorem mem_appendLast {β : Type} {after field : List β} {fields : List (List β)}
    (h : field ∈ appendLast after fields) : ∃ f ∈ fields, field = f ∨ field = f ++ after := by
  induction fields with
  | nil => cases h
  | cons f fields ih =>
      rcases fields with _ | ⟨f', fields⟩
      · exact ⟨f, by simp, .inr (List.mem_singleton.mp h)⟩
      · rcases List.mem_cons.mp h with rfl | h
        · exact ⟨field, by simp, .inl rfl⟩
        · obtain ⟨g, hg, heq⟩ := ih h
          exact ⟨g, List.mem_cons_of_mem _ hg, heq⟩

theorem fields_foldl_hardBreak (out : PendingFields) (after : List Element) (values : List Text) :
    ((values.foldl (fun out value => out.hardBreak.emitValue true value) out).emitElements
      after).fields = out.ended ++ appendLast after (out.current :: values.map valueElements) := by
  induction values generalizing out with
  | nil => rfl
  | cons value values ih =>
      rw [List.foldl_cons, ih, emitValue_true]
      simp [PendingFields.hardBreak, PendingFields.emitElements, appendLast_cons]

theorem fields_emitSeparately (before after : List Element) (values : List Text)
    (hvalues : values ≠ []) :
    ((emitSeparately true (PendingFields.emitElements {} before) values).emitElements
      after).fields = surround before after (values.map valueElements) := by
  obtain ⟨value, values, rfl⟩ := List.exists_cons_of_ne_nil hvalues
  rw [emitSeparately, fields_foldl_hardBreak, emitValue_true]
  simp [PendingFields.emitElements, surround]

/-! ## The walk over such a word -/

def quotedElements (text : Text) : List Element := if text = [] then [] else valueElements text

/-- The elements before the parameters; a lone `"$@"` keeps no quote mark. -/
def openingElements (before opening closing : Text) : List Element :=
  literalElements before ++ (if opening = [] ∧ closing = [] then [] else [.quoteMark]) ++
    quotedElements opening

def closingElements (closing after : Text) : List Element :=
  quotedElements closing ++ literalElements after

theorem walk_quotedParts (kind : ExpansionKind) (inDoubleQuotes inOperand tilde : Bool)
    (text : Text) (parts : List WordPart) (out : PendingFields) (world : World ω) :
    exec (walkWordInto host kind inDoubleQuotes inOperand tilde (quotedParts text ++ parts) out)
        world =
      exec (walkWordInto host kind inDoubleQuotes inOperand (tilde && text.isEmpty) parts
        (out.emitElements (quotedElements text))) world := by
  rcases text with _ | ⟨c, text⟩
  · simp [quotedParts, quotedElements, PendingFields.emitElements]
  · have hwalk : exec (walkPart host kind inDoubleQuotes inOperand tilde parts.isEmpty
        (.quoted (c :: text)) out) world =
          (.ok (out.emitElements (quotedElements (c :: text))), world) := by
      have hvalue := emitValue_true out (c :: text)
      rw [quotedElements, if_neg (List.cons_ne_nil _ _), ← hvalue]
      rfl
    simp only [quotedParts, List.cons_ne_nil, if_false, List.singleton_append, walkWordInto]
    rw [exec_bind_ok hwalk]
    simp

theorem walk_at (kind : ExpansionKind) (inOperand tilde : Bool) (parts : List WordPart)
    (out : PendingFields) (world : World ω) :
    exec (walkWordInto host kind true inOperand tilde (.parameter ['@'] .none [] :: parts) out)
        world =
      exec (walkWordInto host kind true inOperand false parts
        (emitSeparately true out world.state.positional)) world := by
  have hwalk : exec (walkPart host kind true inOperand tilde parts.isEmpty
      (.parameter ['@'] .none []) out) world =
        (.ok (emitSeparately true out world.state.positional), world) := by
    rfl
  rw [walkWordInto, exec_bind_ok hwalk]

theorem onlyPlainAt_atParts (opening closing : Text) :
    onlyPlainAt (quotedParts opening ++ .parameter ['@'] .none [] :: quotedParts closing) =
      (opening.isEmpty && closing.isEmpty) := by
  cases opening <;> cases closing <;> rfl

theorem walk_atParts (opening closing : Text) (out : PendingFields) (world : World ω) :
    exec (walkWordInto host .fields true false false
      (quotedParts opening ++ .parameter ['@'] .none [] :: quotedParts closing) out) world =
        (.ok ((emitSeparately true (out.emitElements (quotedElements opening))
          world.state.positional).emitElements (quotedElements closing)), world) := by
  have hclosing := walk_quotedParts host .fields true false false closing []
  rw [List.append_nil] at hclosing
  rw [walk_quotedParts, walk_at, hclosing]
  rfl

theorem walkWord_atWord {before : Text} (hbefore : before.head? ≠ some '~')
    (opening closing after : Text) (world : World ω) :
    exec (walkWord host .fields (atWord before opening closing after)) world =
      (.ok ((emitSeparately true
        (PendingFields.emitElements {} (openingElements before opening closing))
        world.state.positional).emitElements (closingElements closing after)), world) := by
  have hnoTilde : false = true → after.head? ≠ some '~' := by simp
  have hafter := walk_literalParts host hnoTilde []
  rw [List.append_nil] at hafter
  rw [walkWord, atWord, walk_literalParts host fun _ => hbefore, walkWordInto, walkPart,
    exec_bind_ok (walk_atParts host opening closing _ world), hafter, onlyPlainAt_atParts]
  have hopening : (if (opening.isEmpty && closing.isEmpty) = true then
        PendingFields.emitElements {} (literalElements before)
      else (PendingFields.emitElements {} (literalElements before)).emitQuoteMark).emitElements
        (quotedElements opening) =
      PendingFields.emitElements {} (openingElements before opening closing) := by
    unfold openingElements
    cases opening <;> cases closing <;>
      simp [PendingFields.emitQuoteMark, PendingFields.emitElements]
  rw [hopening, PendingFields.emitElements_emitElements]
  rfl

/-! ## Finishing the fields of such a word -/

theorem plain_valueElements (value : Text) : Plain (valueElements value) :=
  plain_quoted (by simp [valueElements, Element.isQuoted])

theorem plain_quotedElements (text : Text) : Plain (quotedElements text) := by
  unfold quotedElements
  split_ifs
  · exact ⟨rfl, rfl⟩
  · exact plain_valueElements text

theorem plain_openingElements {before : Text} (h : NoPattern before) (opening closing : Text) :
    Plain (openingElements before opening closing) := by
  unfold openingElements
  refine ((plain_literalElements h).append ?_).append (plain_quotedElements opening)
  split_ifs
  · exact ⟨rfl, rfl⟩
  · exact plain_quoted rfl

theorem plain_closingElements {after : Text} (h : NoPattern after) (closing : Text) :
    Plain (closingElements closing after) :=
  (plain_quotedElements closing).append (plain_literalElements h)

theorem textOf_quotedElements (text : Text) : textOf (quotedElements text) = text := by
  unfold quotedElements
  split_ifs with h
  · rw [h]
    rfl
  · exact textOf_chars text true false

theorem textOf_openingElements (before opening closing : Text) :
    textOf (openingElements before opening closing) = before ++ opening := by
  have hmark : textOf (if opening = [] ∧ closing = [] then [] else [Element.quoteMark]) = [] := by
    split_ifs <;> rfl
  rw [openingElements, textOf_append, textOf_append, hmark, textOf_quotedElements, List.append_nil]
  exact congrArg (· ++ opening) (textOf_chars before false false)

theorem textOf_closingElements (closing after : Text) :
    textOf (closingElements closing after) = closing ++ after := by
  rw [closingElements, textOf_append, textOf_quotedElements]
  exact congrArg (closing ++ ·) (textOf_chars after false false)

theorem surround_eq {β : Type} (before after field : List β) (fields : List (List β)) :
    surround before after (field :: fields) = appendLast after ((before ++ field) :: fields) := rfl

theorem plain_surround {before after : List Element} (hbefore : Plain before)
    (hafter : Plain after) (values : List Text) :
    ∀ field ∈ surround before after (values.map valueElements), Plain field ∧ field ≠ [] := by
  intro field hfield
  rcases values with _ | ⟨value, values⟩
  · cases hfield
  · obtain ⟨f, hf, heq⟩ := mem_appendLast hfield
    have hf' : Plain f ∧ f ≠ [] := by
      rcases List.mem_cons.mp hf with rfl | hf
      · exact ⟨hbefore.append (plain_valueElements value), by simp [valueElements]⟩
      · obtain ⟨v, -, rfl⟩ := List.mem_map.mp hf
        exact ⟨plain_valueElements v, by simp [valueElements]⟩
    rcases heq with rfl | rfl
    · exact hf'
    · exact ⟨hf'.1.append hafter, by simp [hf'.2]⟩

theorem map_textOf_surround (before after : List Element) (values : List Text) :
    (surround before after (values.map valueElements)).map textOf =
      surround (textOf before) (textOf after) values := by
  have hvalue : ∀ value, textOf (valueElements value) = value := fun value =>
    textOf_chars value true false
  have hvalues : (values.map valueElements).map textOf = values := by
    rw [List.map_map]
    exact List.map_id'' hvalue values
  rcases values with _ | ⟨value, values⟩
  · rfl
  · rw [List.map_cons, surround_eq, map_textOf_appendLast, List.map_cons, textOf_append]
    rw [List.map_cons, List.map_cons, hvalue] at hvalues
    rw [hvalue, (List.cons.inj hvalues).2, surround_eq]

theorem emitted_ne_nil {before opening closing after : Text}
    (h : ¬(before = [] ∧ opening = [] ∧ closing = [] ∧ after = [])) :
    openingElements before opening closing ++ closingElements closing after ≠ [] := by
  intro hnil
  simp only [openingElements, closingElements, List.append_eq_nil_iff, literalElements,
    List.map_eq_nil_iff] at hnil
  obtain ⟨⟨⟨hbefore, hmark⟩, -⟩, -, hafter⟩ := hnil
  split_ifs at hmark with hquotes
  exact h ⟨hbefore, hquotes.1, hquotes.2, hafter⟩

theorem expandWord_atWord {before after : Text} (htilde : before.head? ≠ some '~')
    (hbefore : NoPattern before) (hafter : NoPattern after) (opening closing : Text)
    (source : Text) (line : Nat) (world : World ω) :
    exec (expandWord host ⟨atWord before opening closing after, source, line⟩) world =
      (.ok (atFields before opening closing after world.state.positional), world) := by
  rw [expandWord, exec_bind_ok (walkWord_atWord host htilde opening closing after world)]
  change (Except.ok _, world) = _
  congr 2
  have hopening := plain_openingElements hbefore opening closing
  have hclosing := plain_closingElements hafter closing
  unfold atFields finishFields
  split_ifs with hnone hempty
  · obtain ⟨rfl, rfl, rfl, rfl⟩ := hempty
    have hfields : ((emitSeparately true
        (PendingFields.emitElements {} (openingElements [] [] []))
        world.state.positional).emitElements (closingElements [] [])).fields = [[]] := by
      rw [hnone]
      rfl
    rw [hfields, List.flatMap_singleton, splitField_unsplittable rfl, if_pos rfl]
    rfl
  · have hfields : ((emitSeparately true
        (PendingFields.emitElements {} (openingElements before opening closing))
        world.state.positional).emitElements (closingElements closing after)).fields =
          [openingElements before opening closing ++ closingElements closing after] := by
      rw [hnone]
      rfl
    rw [hfields, flatMap_finish_plain]
    · simp [textOf_append, textOf_openingElements, textOf_closingElements]
    · intro field hfield
      obtain rfl := List.mem_singleton.mp hfield
      exact ⟨hopening.append hclosing, emitted_ne_nil hempty⟩
  · rw [fields_emitSeparately _ _ _ hnone,
      flatMap_finish_plain (plain_surround hopening hclosing world.state.positional),
      map_textOf_surround, textOf_openingElements, textOf_closingElements]

end

end Haisos.Hsh
