import Haisos.Hsh.Lexer.Readers

/-!
# Every token

The readers of substitutions, of here-documents and of tokens, and all of the readers
together.
-/

namespace Haisos.Hsh

open Lexer

/-- Only a `)` closes a command substitution. -/
theorem kind_of_step_none {scan : Scan} {token : Token} (h : scan.step token = none) :
    token.kind = .rightParen := by
  obtain ⟨stack, commandPosition, redirectTargetNext⟩ := scan
  cases hkind : token.kind with
  | rightParen => rfl
  | leftParen =>
      simp only [Scan.step, hkind] at h
      split at h <;> cases h
  | doubleSemicolon =>
      simp only [Scan.step, hkind] at h
      split at h <;> cases h
  | word =>
      simp only [Scan.step, hkind] at h
      split at h <;> cases h
  | _ => simp [Scan.step, hkind] at h

theorem not_readsBodies_of_isOperator {kind : TokenKind} (h : kind.isOperator) :
    ¬ kind.readsBodies := by
  cases kind <;> simp_all [TokenKind.isOperator, TokenKind.readsBodies]

theorem cut_length {source : Text} {low high : Nat} (hhigh : high ≤ source.length) :
    (cut source low high).length = high - low := by
  rw [cut, List.length_drop, List.length_take]
  omega

theorem Ends.run {α β : Type} {m : Lex α} {f : α × Lexer → Lex β} {sub lexer : Lexer}
    {middle : α → Lexer → Prop} {post : β → Lexer → Prop} (h : Ends m sub middle)
    (hf : ∀ a after, middle a after → Ends (f (a, after)) lexer post) :
    Ends (liftM (m.run sub) >>= f) lexer post := by
  rcases h with ⟨a, after, hrun, hmiddle⟩ | ⟨error, hrun⟩
  · rw [hrun]
    exact hf a after hmiddle
  · rw [hrun]
    exact .inr ⟨error, rfl⟩

namespace Readers

variable {fuel : Nat} (readers : Readers fuel) {lexer : Lexer} (h : lexer.Sound)

include readers

theorem body_succ (lexer : Lexer) (hd : HereDocument) (rawBody : Text) (line : Nat)
    (terminated : Bool) (hfuel : 9 * rawBody.length + 3 ≤ fuel + 1) :
    Ends (lexHereDocBody (fuel + 1) hd rawBody line terminated) lexer
      fun _ after => after = lexer := by
  have hsound : Lexer.Sound { source := rawBody, line } := ⟨Nat.zero_le _, Nat.le_refl _⟩
  have hleft : Lexer.left { source := rawBody, line } = rawBody.length := rfl
  have hparts := readers.bodyParts hsound (by rw [hleft]; omega) []
  rw [lexHereDocBody]
  apply Ends.ite
  · intro _
    exact .pure rfl
  · intro _
    rcases hparts with ⟨parts, after, hrun, _⟩ | ⟨error, hrun⟩
    · rw [hrun]
      exact .pure rfl
    · rw [hrun]
      exact .inr ⟨_, rfl⟩

include h

theorem substitution_succ (hfuel : 9 * lexer.left + 8 ≤ fuel + 1) :
    Stops (readCommandSubstitution (fuel + 1)) lexer := by
  have hsub : lexer.sub.Sound := ⟨h.pos_le, Nat.le_refl _⟩
  have hleft : lexer.sub.left = lexer.left := rfl
  have hpending : lexer.sub.pendingHereDocs.length = 0 := rfl
  have hscan := readers.scan hsub (by omega) {}
  rw [readCommandSubstitution]
  apply Ends.get
  apply Ends.run hscan
  rintro closed after ⟨hmoves, htrailing⟩
  apply Ends.set
  apply Ends.pure
  have hend := h.lastCharEnd_le
  have hsource : after.source = lexer.source := hmoves.source
  constructor
  · constructor
    · rfl
    · exact hmoves.pos_le
    · exact hend.trans hmoves.lastCharEnd_le
    · exact ⟨hsource ▸ hmoves.sound.pos_le, hmoves.sound.lastCharEnd_le⟩
  · rfl
  · rfl
  · intro _
    simp only [Trailing] at htrailing ⊢
    rw [← hsource]
    exact htrailing

theorem scan_succ (hfuel : 9 * lexer.left + lexer.pendingHereDocs.length + 7 ≤ fuel + 1)
    (scan : Scan) : Ends (scanSubstitution (fuel + 1) scan) lexer fun _ after =>
      Moves lexer after ∧ after.Trailing := by
  rw [scanSubstitution]
  apply (readers.next h (by omega)).bind
  intro token after hread
  have hcount := hread.count
  apply Ends.ite
  · intro _
    exact .lexError _ _
  · intro hinside
    cases hstep : scan.step token with
    | none =>
        have hkind := kind_of_step_none hstep
        have hannounces := hread.announces (by rw [hkind]; decide)
        exact .pure ⟨hread.toMoves, hannounces.2.1⟩
    | some scan =>
        have hless : after.left < lexer.left := by
          have hbegins := hread.begins
          have hnonempty := hread.nonempty hinside
          have hends := hread.ends
          have hpos := hread.sound.pos_le
          rw [hread.source] at hpos
          rw [left, left, hread.source]
          omega
        apply (readers.scan hread.sound (by omega) scan).mono
        rintro _ last ⟨hmoves, htrailing⟩
        exact ⟨hread.toMoves.trans hmoves, htrailing⟩

theorem bodies_succ (numbers : List Nat)
    (hfuel : 9 * lexer.left + numbers.length + 3 ≤ fuel + 1) :
    Ends (readHereDocBodies (fuel + 1) numbers) lexer fun _ after =>
      Moves lexer after ∧ after.pendingHereDocs = lexer.pendingHereDocs ∧
        BodiesRead lexer.source numbers lexer.pos after.pos lexer.hereDocs after.hereDocs := by
  cases numbers with
  | nil =>
      rw [readHereDocBodies]
      exact .pure ⟨.refl h, rfl, .nil _ _⟩
  | cons number numbers =>
      rw [List.length_cons] at hfuel
      rw [readHereDocBodies]
      apply Ends.get
      apply (ends_readRawBody h (show lexer.left < fuel by omega) _ []).bind
      rintro ⟨rawBody, terminated⟩ first ⟨hfirst, hended, body, hbody, hregion⟩
      rw [List.nil_append] at hbody
      simp only at hbody hended hregion
      subst hbody
      have hlength : rawBody.length ≤ lexer.left := by
        have hpos := hfirst.sound.pos_le
        rw [hfirst.source] at hpos
        have := hregion.length_le
        rw [cut_length hpos] at this
        rw [left]
        omega
      apply Ends.get
      apply (readers.body first _ rawBody lexer.line terminated (by omega)).bind
      rintro word second rfl
      apply Ends.modify
      have hle := hfirst.left_le
      have hrest : ∀ third : Lexer, third.source = second.source → third.pos = second.pos →
          third.lastCharEnd = second.lastCharEnd →
          Ends (readHereDocBodies fuel numbers) third fun _ last => Moves third last ∧
            last.pendingHereDocs = third.pendingHereDocs ∧
            BodiesRead third.source numbers third.pos last.pos third.hereDocs last.hereDocs := by
        intro third hsource hpos hend
        apply readers.bodies numbers
        · constructor
          · rw [hpos, hsource]
            exact hfirst.sound.pos_le
          · rw [hpos, hend]
            exact hfirst.sound.lastCharEnd_le
        · rw [left, hpos, hsource, ← left]
          omega
      refine Ends.mono (hrest _ ?_ ?_ ?_) ?_
      · rfl
      · rfl
      · rfl
      rintro _ last ⟨hmoves, hpending, hbodies⟩
      refine ⟨⟨?_, ?_, ?_, hmoves.sound⟩, ?_, ?_⟩
      · exact hmoves.source.trans hfirst.source
      · exact hfirst.pos_le.trans hmoves.pos_le
      · exact hfirst.lastCharEnd_le.trans hmoves.lastCharEnd_le
      · exact hpending.trans hfirst.pending
      · apply BodiesRead.cons hfirst.pos_le hended hregion
        simp only at hbodies
        rw [hfirst.source, hfirst.hereDocs] at hbodies
        exact hbodies

theorem pendingDocs_succ
    (hfuel : 9 * lexer.left + lexer.pendingHereDocs.length + 4 ≤ fuel + 1) :
    Ends (readPendingHereDocs (fuel + 1)) lexer fun _ after =>
      Moves lexer after ∧ after.pendingHereDocs = [] ∧
        BodiesRead lexer.source lexer.pendingHereDocs lexer.pos after.pos lexer.hereDocs
          after.hereDocs := by
  rw [readPendingHereDocs]
  apply Ends.get
  apply Ends.modify
  apply (@Readers.bodies fuel readers { lexer with pendingHereDocs := [] }
    lexer.pendingHereDocs ⟨h.pos_le, h.lastCharEnd_le⟩ ?_).mono
  · rintro _ last ⟨hmoves, hpending, hbodies⟩
    exact ⟨⟨hmoves.source, hmoves.pos_le, hmoves.lastCharEnd_le, hmoves.sound⟩, hpending,
      hbodies⟩
  · change 9 * lexer.left + lexer.pendingHereDocs.length + 3 ≤ fuel
    omega

theorem wordRest_succ (hfuel : 9 * lexer.left + 3 ≤ fuel + 1) (token : Token)
    (hereDoc : Option Bool) (first : List WordPart) (hnone : token.hereDoc = none) :
    Ends (readWordRest (fuel + 1) token hereDoc first) lexer fun read after =>
      ∃ middle, Reads lexer middle ∧ AnnouncedHere middle read.hereDoc after ∧
        (∀ c, lexer.rest.head? = some c → ¬ endsWord c → lexer.AtCharacter →
          ReadsMore lexer middle) ∧
        read.kind = .word ∧ read.beginsAt = token.beginsAt ∧ read.endsAt = middle.lastCharEnd ∧
        read.word.source = cut middle.source token.beginsAt middle.lastCharEnd := by
  rw [readWordRest]
  apply (readers.characters h (by omega) first).bind
  rintro parts middle ⟨hreads, hmore⟩
  apply Ends.get
  cases hereDoc with
  | none =>
      refine .pure ⟨middle, hreads, ⟨rfl, rfl, rfl, ?_⟩, hmore, rfl, rfl, rfl, rfl⟩
      exact .inl ⟨hnone, rfl, rfl⟩
  | some stripTabs =>
      apply Ends.set
      apply Ends.pure
      refine ⟨middle, hreads, ⟨rfl, rfl, rfl, ?_⟩, hmore, rfl, rfl, rfl, rfl⟩
      refine .inr ⟨rfl, _, ?_, rfl, rfl⟩
      rfl

omit readers h in
theorem tokenRead_word {middle after : Lexer} {read : Token} (hmore : ReadsMore lexer middle)
    (hannounces : AnnouncedHere middle read.hereDoc after) (hkind : read.kind = .word)
    (hbegins : read.beginsAt = lexer.pos) (hends : read.endsAt = middle.lastCharEnd)
    (hsource : read.word.source = cut middle.source lexer.pos middle.lastCharEnd) :
    TokenRead lexer read after := by
  have hpos := hmore.pos_lt
  have hend := hmore.sound.lastCharEnd_le
  have hin := hmore.sound.pos_le
  have hafter : after.source = lexer.source := hannounces.source.trans hmore.source
  have hsame := hmore.source
  constructor
  · constructor
    · exact hafter
    · rw [hannounces.pos]
      omega
    · rw [hannounces.lastCharEnd]
      exact hmore.lastCharEnd_le
    · constructor
      · rw [hannounces.pos, hannounces.source]
        exact hin
      · rw [hannounces.pos, hannounces.lastCharEnd]
        exact hend
  · have hleft : after.left + 1 ≤ lexer.left := by
      rw [left, left, hafter, hannounces.pos]
      rw [hsame] at hin
      omega
    have hpending : after.pendingHereDocs.length ≤ lexer.pendingHereDocs.length + 1 := by
      rw [← hmore.pending]
      rcases hannounces.announced with ⟨_, _, heq⟩ | ⟨_, hd, _, _, heq⟩
      · rw [heq]
        omega
      · rw [heq, List.length_append]
        simp
    omega
  · omega
  · rw [hbegins, cut_self]
    exact .blanks .nil
  · rw [hends, hannounces.pos]
    exact hend
  · intro hatEnd
    rw [hkind] at hatEnd
    cases hatEnd
  · intro _
    omega
  · intro _
    rw [hsource, hbegins, hends, hsame]
  · intro hreads
    rw [hkind] at hreads
    cases hreads
  · intro _
    refine ⟨by rw [hends, hannounces.lastCharEnd], ?_, ?_⟩
    · have htrailing := hmore.ends
      rw [Trailing] at htrailing ⊢
      rw [hannounces.source, hannounces.pos, hannounces.lastCharEnd]
      exact htrailing
    · rw [Announced, ← hmore.pending, ← hmore.hereDocs]
      exact hannounces.announced

omit readers h in
theorem tokenRead_plain {after : Lexer} {read : Token} (hmore : ReadsMore lexer after)
    (hkind : ¬ read.kind.readsBodies) (hword : read.kind ≠ .word)
    (hnone : read.hereDoc = none) (hbegins : read.beginsAt = lexer.pos)
    (hends : read.endsAt = after.lastCharEnd) : TokenRead lexer read after := by
  have hpos := hmore.pos_lt
  have hend := hmore.sound.lastCharEnd_le
  have hleft := hmore.left_lt
  constructor
  · exact hmore.toMoves
  · rw [hmore.pending]
    omega
  · omega
  · rw [hbegins, cut_self]
    exact .blanks .nil
  · omega
  · intro hatEnd
    rw [hatEnd] at hkind
    exact absurd rfl hkind
  · intro _
    omega
  · intro hisWord
    exact absurd hisWord hword
  · intro hreads
    exact absurd hreads hkind
  · intro _
    exact ⟨by omega, hmore.ends, .inl ⟨hnone, hmore.hereDocs, hmore.pending⟩⟩

omit readers h in
/-- The end of the input, or a newline: the bodies announced before are read. -/
theorem tokenRead_bodies {first after : Lexer} {read : Token} (hfirst : Reads lexer first)
    (hmoves : Moves first after) (hnone : after.pendingHereDocs = [])
    (hbodies : BodiesRead first.source first.pendingHereDocs first.pos after.pos first.hereDocs
      after.hereDocs)
    (hkind : read.kind.readsBodies) (hhereDoc : read.hereDoc = none)
    (hbegins : read.beginsAt = lexer.pos) (hends : read.endsAt = first.pos)
    (hnonempty : read.kind ≠ .endOfInput → lexer.pos < first.pos)
    (hatEnd : read.kind = .endOfInput → lexer.pos = lexer.source.length) :
    TokenRead lexer read after := by
  have hall := hfirst.toMoves.trans hmoves
  have hleft := hall.left_le
  have hpos := hfirst.pos_le
  have hpos' := hmoves.pos_le
  have hin := hall.sound.pos_le
  rw [hall.source] at hin
  constructor
  · exact hall
  · rw [hnone]
    simp only [List.length_nil]
    omega
  · omega
  · rw [hbegins, cut_self]
    exact .blanks .nil
  · omega
  · intro hkind'
    have := hatEnd hkind'
    omega
  · intro hkind'
    have := hnonempty hkind'
    omega
  · intro hword
    rw [hword] at hkind
    cases hkind
  · intro _
    refine ⟨hhereDoc, hnone, ?_⟩
    rw [hends, ← hfirst.source, ← hfirst.pending, ← hfirst.hereDocs]
    exact hbodies
  · intro hother
    exact absurd hkind hother

theorem token_succ (hat : lexer.AtCharacter)
    (hblank : ∀ c, lexer.rest.head? = some c → ¬ isBlank c)
    (hfuel : 9 * lexer.left + lexer.pendingHereDocs.length + 5 ≤ fuel + 1)
    (hereDoc : Option Bool) (token : Token) (hbegins : token.beginsAt = lexer.pos)
    (hannounces : token.hereDoc = none) :
    Ends (readToken (fuel + 1) hereDoc token lexer.rest.head?) lexer fun read after =>
      read.beginsAt = lexer.pos ∧ TokenRead lexer read after := by
  cases hhead : lexer.rest.head? with
  | none =>
      have hend : lexer.pos = lexer.source.length := by
        have hpos := h.pos_le
        rw [List.head?_eq_none_iff, rest, List.drop_eq_nil_iff] at hhead
        omega
      rw [readToken]
      apply (readers.pendingDocs h (by omega)).bind
      rintro _ after ⟨hmoves, hnone, hbodies⟩
      apply Ends.get
      apply Ends.ite
      · intro _
        exact .lexError _ _
      · intro _
        have hsource : after.source.length = lexer.pos := by rw [hmoves.source, hend]
        apply Ends.pure
        refine ⟨hsource, ?_⟩
        exact tokenRead_bodies (.refl h) hmoves hnone hbodies rfl rfl hsource hsource
          (fun hne => absurd rfl hne) fun _ => hend
  | some c =>
      rw [readToken]
      apply Ends.ite
      · intro _
        apply (ends_rawGet_one h hhead).bind
        rintro _ first ⟨hmore, hone, _⟩
        have hleft := hmore.left_lt
        have hpending := hmore.pending
        apply Ends.get
        apply (readers.pendingDocs hmore.sound (by rw [hpending]; omega)).bind
        rintro _ after ⟨hmoves, hnone, hbodies⟩
        apply Ends.pure
        refine ⟨hbegins, ?_⟩
        exact tokenRead_bodies hmore.toReads hmoves hnone hbodies rfl hannounces hbegins rfl
          (fun _ => by omega) fun hkind => by cases hkind
      · intro _
        apply Ends.ite
        · intro _
          apply (ends_rawGet h hhead).bind
          intro _ first hmore
          have hleft := hmore.left_lt
          apply (ends_peek hmore.sound).bind
          rintro d second ⟨hreads, _⟩
          have hle := hreads.left_le
          apply Ends.ite
          · intro _
            apply Ends.get
            apply Ends.pure
            refine ⟨hbegins, ?_⟩
            refine tokenRead_plain (hmore.then hreads) ?_ ?_ hannounces hbegins rfl
            · simp [TokenKind.readsBodies]
            · simp
          · intro _
            apply (readers.wordRest hreads.sound (by omega) token hereDoc _ hannounces).mono
            rintro read after ⟨middle, hrest, hannounces, _, hkind, hbegin, hends, hsource⟩
            rw [hbegins] at hbegin hsource
            refine ⟨hbegin, ?_⟩
            exact tokenRead_word (hmore.then (hreads.trans hrest)) hannounces hkind hbegin hends
              hsource
        · intro _
          apply Ends.ite
          · intro _
            apply (ends_readOperator h hhead).bind
            rintro kind first ⟨hmore, hkind⟩
            apply (ends_expectDelimiterAfter hmore.sound kind).bind
            rintro _ second ⟨hreads, _⟩
            apply Ends.get
            apply Ends.pure
            refine ⟨hbegins, ?_⟩
            refine tokenRead_plain (hmore.then hreads) ?_ ?_ hannounces hbegins rfl
            · exact not_readsBodies_of_isOperator hkind
            · rintro rfl
              cases hkind
          · intro hoperator
            apply (readers.wordRest h (by omega) token hereDoc _ hannounces).mono
            rintro read after ⟨middle, hrest, hannounces, hmore, hkind, hbegin, hends, hsource⟩
            rw [hbegins] at hbegin hsource
            refine ⟨hbegin, ?_⟩
            have hword : ¬ endsWord c := by
              have hnotBlank := hblank c hhead
              simp_all [endsWord]
            exact tokenRead_word (hmore c hhead hword hat) hannounces hkind hbegin hends hsource

theorem next_succ (hfuel : 9 * lexer.left + lexer.pendingHereDocs.length + 6 ≤ fuel + 1) :
    Ends (nextToken (fuel + 1)) lexer fun token after => TokenRead lexer token after := by
  rw [nextToken]
  apply (ends_takeDelimiterFlags h).bind
  rintro hereDoc first ⟨hfirst, hpos⟩
  have hle := hfirst.left_le
  apply (ends_skipToToken hfirst.sound (by omega)).bind
  rintro next second ⟨hsecond, rfl, hat, hblank, hgap⟩
  have hle' := hsecond.left_le
  have hboth := hfirst.trans hsecond
  have hpending := hboth.pending
  apply Ends.get
  apply (readers.token hsecond.sound hat hblank (by rw [hpending]; omega) hereDoc _ rfl
    rfl).mono
  rintro token after ⟨hbegins, hread⟩
  rw [hfirst.source, hpos] at hgap
  exact hread.after hboth hgap hbegins

end Readers

/-- With fuel for what is left every reader ends. -/
theorem readers_all (fuel : Nat) : Readers fuel := by
  induction fuel with
  | zero => constructor <;> intros <;> omega
  | succ fuel ih =>
      exact
        { doubleQuoted := ih.doubleQuoted_succ
          dollar := fun h hc hfuel => ih.dollar_succ h hc hfuel
          finishBad := ih.finishBad_succ
          braced := ih.braced_succ
          operand := ih.operand_succ
          arithmetic := ih.arithmetic_succ
          substitution := ih.substitution_succ
          scan := ih.scan_succ
          bodyParts := ih.bodyParts_succ
          body := ih.body_succ
          bodies := fun numbers h => ih.bodies_succ h numbers
          pendingDocs := ih.pendingDocs_succ
          characters := ih.characters_succ
          wordRest := ih.wordRest_succ
          token := ih.token_succ
          next := ih.next_succ }

end Haisos.Hsh
