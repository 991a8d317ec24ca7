import Haisos.Hsh.Lexer.Bodies

/-!
# Every reader ends

The mutually recursive readers, together: with fuel for what is left of the source each of
them ends, with a syntax error or further on.
-/

namespace Haisos.Hsh

open Lexer

variable {α β : Type}

/-! ## Before a token -/

/-- Blanks and backslash-newlines. -/
inductive Blanks : Text → Prop
  | nil : Blanks []
  | blank {c : Char} {text : Text} : isBlank c → Blanks text → Blanks (c :: text)
  | pair {text : Text} : Blanks text → Blanks ('\\' :: '\n' :: text)

/-- What may stand before a token: blanks, backslash-newlines and a comment. -/
inductive Gap : Text → Prop
  | blanks {text : Text} : Blanks text → Gap text
  | comment {text comment : Text} : Blanks text → '\n' ∉ comment →
      Gap (text ++ '#' :: comment)

theorem Continued.blanks {text text' : Text} (h : Continued text) (h' : Blanks text') :
    Blanks (text ++ text') := by
  induction h with
  | nil => exact h'
  | pair _ ih => exact .pair ih

theorem Blanks.append {text text' : Text} (h : Blanks text) (h' : Blanks text') :
    Blanks (text ++ text') := by
  induction h with
  | nil => exact h'
  | blank hc _ ih => exact .blank hc ih
  | pair _ ih => exact .pair ih

theorem continuations_drop (text : Text) :
    continuations (text.drop (2 * continuations text)) = 0 := by
  fun_induction continuations text with
  | case1 rest ih =>
      rw [Nat.mul_add, Nat.mul_one]
      exact ih
  | case2 text hnone =>
      rw [Nat.mul_zero, List.drop_zero, continuations.eq_def]
      split
      · exact absurd rfl (hnone _)
      · rfl

def Lexer.AtCharacter (lexer : Lexer) : Prop := continuations lexer.rest = 0

theorem skipContinuations_atCharacter {lexer : Lexer} (h : lexer.AtCharacter) :
    lexer.skipContinuations = lexer := by
  rw [AtCharacter] at h
  rw [skipContinuations, h]
  rfl

theorem atCharacter_skipContinuations (lexer : Lexer) : lexer.skipContinuations.AtCharacter := by
  rw [skipContinuations]
  cases hcount : continuations lexer.rest with
  | zero => exact hcount
  | succ n =>
      have hdrop := continuations_drop lexer.rest
      rw [hcount, rest, List.drop_drop] at hdrop
      exact hdrop

theorem ends_peek_continued {lexer : Lexer} (h : lexer.Sound) :
    Ends peek lexer fun c after => Reads lexer after ∧ c = after.rest.head? ∧ after.AtCharacter ∧
      Continued (cut lexer.source lexer.pos after.pos) := by
  refine .inl ⟨_, lexer.skipContinuations, rfl, reads_skipContinuations h, rfl,
    atCharacter_skipContinuations lexer, ?_⟩
  obtain ⟨hpairs, _⟩ := take_continuations lexer.rest
  rw [skipContinuations]
  cases hcount : continuations lexer.rest with
  | zero =>
      simp only
      rw [cut_self]
      exact .nil
  | succ n =>
      rw [hcount] at hpairs
      simp only
      rw [cut_drop]
      exact hpairs

theorem ends_peek_at {lexer : Lexer} (h : lexer.Sound) :
    Ends peek lexer fun c after => Reads lexer after ∧ c = after.rest.head? ∧
      (lexer.AtCharacter → after = lexer) :=
  .inl ⟨_, lexer.skipContinuations, rfl, reads_skipContinuations h, rfl,
    skipContinuations_atCharacter⟩

theorem ends_rawGet_one {lexer : Lexer} {c : Char} (h : lexer.Sound)
    (hc : lexer.rest.head? = some c) : Ends rawGet lexer fun _ after => ReadsMore lexer after ∧
      after.pos = lexer.pos + 1 ∧ cut lexer.source lexer.pos after.pos = [c] := by
  obtain ⟨rest, hrest⟩ := List.head?_eq_some_iff.mp hc
  refine .inl ⟨⟨⟩, lexer.advance c, run_rawGet hrest, readsMore_advance h hc, rfl, ?_⟩
  change cut lexer.source lexer.pos (lexer.pos + 1) = [c]
  rw [cut_drop, ← Lexer.rest, hrest]
  rfl

theorem Lexer.Moves.cut {first second third : Lexer} (h : Moves first second)
    (h' : Moves second third) :
    cut first.source first.pos third.pos =
      Hsh.cut first.source first.pos second.pos ++ Hsh.cut second.source second.pos third.pos := by
  rw [h.source]
  exact cut_append h.pos_le h'.pos_le

theorem ends_skipBlanks {fuel : Nat} {lexer : Lexer} (h : lexer.Sound)
    (hfuel : lexer.left < fuel) : Ends (skipBlanks fuel) lexer fun _ after =>
      Reads lexer after ∧ Blanks (cut lexer.source lexer.pos after.pos) ∧ after.AtCharacter ∧
        ∀ c, after.rest.head? = some c → ¬ isBlank c := by
  induction fuel generalizing lexer with
  | zero => omega
  | succ fuel ih =>
      rw [skipBlanks]
      apply (ends_peek_continued h).bind
      rintro next after ⟨hreads, rfl, hat, hgap⟩
      have hle := hreads.left_le
      have hblanks := hgap.blanks .nil
      rw [List.append_nil] at hblanks
      cases hhead : after.rest.head? with
      | none => exact .pure ⟨hreads, hblanks, hat, by simp [hhead]⟩
      | some c =>
          apply Ends.ite
          · intro hblank
            apply (ends_rawGet_one hreads.sound hhead).bind
            rintro _ second ⟨hmore, _, hone⟩
            have hleft := hmore.left_lt
            apply (ih hmore.sound (by omega)).mono
            rintro _ last ⟨hlast, hfollowing, hend⟩
            refine ⟨hreads.trans (hmore.toReads.trans hlast), ?_, hend⟩
            rw [hreads.toMoves.cut (hmore.toMoves.trans hlast.toMoves),
              hmore.toMoves.cut hlast.toMoves, hone]
            exact hblanks.append (.blank hblank hfollowing)
          · intro hother
            refine .pure ⟨hreads, hblanks, hat, ?_⟩
            intro d hd
            rw [hhead] at hd
            simp only [Option.some.injEq] at hd
            exact hd ▸ hother

theorem ends_skipComment {fuel : Nat} {lexer : Lexer} (h : lexer.Sound)
    (hfuel : lexer.left < fuel) : Ends (skipComment fuel) lexer fun _ after =>
      Reads lexer after ∧ '\n' ∉ cut lexer.source lexer.pos after.pos ∧
        (∀ c, after.rest.head? = some c → c = '\n') ∧
        ∀ c, lexer.rest.head? = some c → c ≠ '\n' →
          ∃ comment, cut lexer.source lexer.pos after.pos = c :: comment := by
  induction fuel generalizing lexer with
  | zero => omega
  | succ fuel ih =>
      rw [skipComment]
      apply ends_rawPeek
      cases hhead : lexer.rest.head? with
      | none => exact .pure ⟨.refl h, by simp [cut_self], by simp [hhead], by simp⟩
      | some c =>
          apply Ends.ite
          · intro hnewline
            refine .pure ⟨.refl h, by simp [cut_self], by simp [hhead, hnewline], ?_⟩
            simp [hnewline]
          · intro hother
            apply (ends_rawGet_one h hhead).bind
            rintro _ after ⟨hmore, _, hone⟩
            have hleft := hmore.left_lt
            apply (ih hmore.sound (by omega)).mono
            rintro _ last ⟨hlast, hcomment, hend, _⟩
            have hcut : cut lexer.source lexer.pos last.pos =
                c :: cut after.source after.pos last.pos := by
              rw [hmore.toMoves.cut hlast.toMoves, hone]
              rfl
            rw [hcut]
            refine ⟨hmore.toReads.trans hlast, ?_, hend, ?_⟩
            · simp only [List.mem_cons, not_or]
              exact ⟨fun heq => hother heq.symm, hcomment⟩
            · intro d hd _
              simp only [Option.some.injEq] at hd
              exact ⟨_, by rw [hd]⟩

theorem ends_skipToToken {fuel : Nat} {lexer : Lexer} (h : lexer.Sound)
    (hfuel : lexer.left < fuel) : Ends (skipToToken fuel) lexer fun next after =>
      Reads lexer after ∧ next = after.rest.head? ∧ after.AtCharacter ∧
        (∀ c, after.rest.head? = some c → ¬ isBlank c) ∧
        Gap (cut lexer.source lexer.pos after.pos) := by
  apply (ends_skipBlanks h hfuel).bind
  rintro _ first ⟨hfirst, hblanks, hat, hblank⟩
  have hle := hfirst.left_le
  have hsame : Ends peek first fun c after => c = first.rest.head? ∧ after = first :=
    .inl ⟨_, _, rfl, congrArg (fun lexer => lexer.rest.head?)
      (skipContinuations_atCharacter hat), skipContinuations_atCharacter hat⟩
  apply hsame.bind
  rintro next second ⟨hnext, hsecond⟩
  subst hsecond
  apply Ends.ite
  · intro hhash
    rw [hnext] at hhash
    apply (ends_skipComment hfirst.sound (show second.left < fuel by omega)).bind
    rintro _ third ⟨hthird, hnewline, hend, hstart⟩
    have hbackslash : third.rest.head? ≠ some '\\' := by
      intro hhead
      have := hend '\\' hhead
      revert this
      decide
    have hskip := skipContinuations_eq hbackslash
    have hat' : third.AtCharacter := hskip ▸ atCharacter_skipContinuations third
    refine .inl ⟨_, third, run_peek hbackslash, hfirst.trans hthird, rfl, hat', ?_, ?_⟩
    · intro c hc
      rw [hend c hc]
      decide
    · obtain ⟨comment, hcut⟩ := hstart '#' hhash (by decide)
      rw [hcut] at hnewline
      rw [hfirst.toMoves.cut hthird.toMoves, hcut]
      exact .comment hblanks fun hmem => hnewline (List.mem_cons_of_mem _ hmem)
  · intro _
    apply hsame.mono
    rintro next third ⟨hnext', hthird⟩
    subst hthird
    exact ⟨hfirst, hnext', hat, hblank, .blanks hblanks⟩

/-! ## Tokens -/

/-- What a token has announced: nothing, or the next document, which is to be read. -/
def Announced (before : Lexer) (hereDoc : Option Nat) (after : Lexer) : Prop :=
  (hereDoc = none ∧ after.hereDocs = before.hereDocs ∧
    after.pendingHereDocs = before.pendingHereDocs) ∨
  (hereDoc = some before.hereDocs.length ∧ ∃ hd : HereDocument, hd.complete = false ∧
    after.hereDocs = before.hereDocs ++ [hd] ∧
    after.pendingHereDocs = before.pendingHereDocs ++ [before.hereDocs.length])

structure AnnouncedHere (before : Lexer) (hereDoc : Option Nat) (after : Lexer) : Prop where
  source : after.source = before.source
  pos : after.pos = before.pos
  lastCharEnd : after.lastCharEnd = before.lastCharEnd
  announced : Announced before hereDoc after

def TokenKind.readsBodies : TokenKind → Bool
  | .newline | .endOfInput => true
  | _ => false

structure TokenRead (before : Lexer) (token : Token) (after : Lexer) : Prop extends
    Moves before after where
  count : after.pendingHereDocs.length + after.left ≤
    before.pendingHereDocs.length + before.left
  begins : before.pos ≤ token.beginsAt
  gap : Gap (cut before.source before.pos token.beginsAt)
  ends : token.endsAt ≤ after.pos
  atEnd : token.kind = .endOfInput →
    token.beginsAt = before.source.length ∧ token.endsAt = before.source.length
  nonempty : token.kind ≠ .endOfInput → token.beginsAt < token.endsAt
  word : token.kind = .word →
    token.word.source = cut before.source token.beginsAt token.endsAt
  bodies : token.kind.readsBodies →
    token.hereDoc = none ∧ after.pendingHereDocs = [] ∧
      BodiesRead before.source before.pendingHereDocs token.endsAt after.pos before.hereDocs
        after.hereDocs
  announces : ¬ token.kind.readsBodies →
    token.endsAt = after.lastCharEnd ∧ after.Trailing ∧ Announced before token.hereDoc after

theorem TokenRead.after {before lexer after : Lexer} {token : Token} (hreads : Reads before lexer)
    (hgap : Gap (cut before.source before.pos lexer.pos)) (hbegins : token.beginsAt = lexer.pos)
    (h : TokenRead lexer token after) : TokenRead before token after where
  toMoves := hreads.toMoves.trans h.toMoves
  count := by
    have hleft := hreads.left_le
    have hcount := h.count
    rw [hreads.pending] at hcount
    omega
  begins := hreads.pos_le.trans h.begins
  gap := hbegins ▸ hgap
  ends := h.ends
  atEnd := hreads.source ▸ h.atEnd
  nonempty := h.nonempty
  word := hreads.source ▸ h.word
  bodies := by
    rw [← hreads.source, ← hreads.pending, ← hreads.hereDocs]
    exact h.bodies
  announces := by
    rw [Announced, ← hreads.pending, ← hreads.hereDocs]
    exact h.announces

/-! ## Readers with fuel -/

structure Readers (fuel : Nat) : Prop where
  doubleQuoted : ∀ {lexer : Lexer}, lexer.Sound → 9 * lexer.left + 2 ≤ fuel →
    ∀ parts, StopsPast (doubleQuotedParts fuel parts) lexer
  dollar : ∀ {lexer : Lexer} {c : Char}, lexer.Sound → lexer.rest.head? = some c →
    9 * lexer.left + 1 ≤ fuel →
    ∀ parts plain dquote, StopsPast (readDollar fuel parts plain dquote) lexer
  finishBad : ∀ {lexer : Lexer}, lexer.Sound → 9 * lexer.left + 3 ≤ fuel →
    ∀ dquote, Stops (finishBadParameter fuel dquote) lexer
  braced : ∀ {lexer : Lexer}, lexer.Sound → 9 * lexer.left + 4 ≤ fuel →
    ∀ dquote, Stops (readBracedParameter fuel dquote) lexer
  operand : ∀ {lexer : Lexer}, lexer.Sound → 9 * lexer.left + 2 ≤ fuel →
    ∀ dquote parts, Stops (readOperand fuel dquote parts) lexer
  arithmetic : ∀ {lexer : Lexer}, lexer.Sound → 9 * lexer.left + 2 ≤ fuel →
    ∀ depth parts, Stops (arithmeticParts fuel depth parts) lexer
  substitution : ∀ {lexer : Lexer}, lexer.Sound → 9 * lexer.left + 8 ≤ fuel →
    Stops (readCommandSubstitution fuel) lexer
  scan : ∀ {lexer : Lexer}, lexer.Sound →
    9 * lexer.left + lexer.pendingHereDocs.length + 7 ≤ fuel →
    ∀ scan, Ends (scanSubstitution fuel scan) lexer fun _ after =>
      Moves lexer after ∧ after.Trailing
  bodyParts : ∀ {lexer : Lexer}, lexer.Sound → 9 * lexer.left + 2 ≤ fuel →
    ∀ parts, Stops (hereDocBodyParts fuel parts) lexer
  body : ∀ (lexer : Lexer) (hd : HereDocument) (rawBody : Text) (line : Nat)
    (terminated : Bool), 9 * rawBody.length + 3 ≤ fuel →
    Ends (lexHereDocBody fuel hd rawBody line terminated) lexer fun _ after => after = lexer
  bodies : ∀ {lexer : Lexer} (numbers : List Nat), lexer.Sound →
    9 * lexer.left + numbers.length + 3 ≤ fuel →
    Ends (readHereDocBodies fuel numbers) lexer fun _ after =>
      Moves lexer after ∧ after.pendingHereDocs = lexer.pendingHereDocs ∧
        BodiesRead lexer.source numbers lexer.pos after.pos lexer.hereDocs after.hereDocs
  pendingDocs : ∀ {lexer : Lexer}, lexer.Sound →
    9 * lexer.left + lexer.pendingHereDocs.length + 4 ≤ fuel →
    Ends (readPendingHereDocs fuel) lexer fun _ after =>
      Moves lexer after ∧ after.pendingHereDocs = [] ∧
        BodiesRead lexer.source lexer.pendingHereDocs lexer.pos after.pos lexer.hereDocs
          after.hereDocs
  characters : ∀ {lexer : Lexer}, lexer.Sound → 9 * lexer.left + 2 ≤ fuel →
    ∀ parts, Ends (readWordCharacters fuel parts) lexer fun _ after => Reads lexer after ∧
      ∀ c, lexer.rest.head? = some c → ¬ endsWord c → lexer.AtCharacter →
        ReadsMore lexer after
  wordRest : ∀ {lexer : Lexer}, lexer.Sound → 9 * lexer.left + 3 ≤ fuel →
    ∀ token hereDoc first, token.hereDoc = none →
    Ends (readWordRest fuel token hereDoc first) lexer fun read after =>
      ∃ middle, Reads lexer middle ∧ AnnouncedHere middle read.hereDoc after ∧
        (∀ c, lexer.rest.head? = some c → ¬ endsWord c → lexer.AtCharacter →
          ReadsMore lexer middle) ∧
        read.kind = .word ∧ read.beginsAt = token.beginsAt ∧ read.endsAt = middle.lastCharEnd ∧
        read.word.source = cut middle.source token.beginsAt middle.lastCharEnd
  token : ∀ {lexer : Lexer}, lexer.Sound → lexer.AtCharacter →
    (∀ c, lexer.rest.head? = some c → ¬ isBlank c) →
    9 * lexer.left + lexer.pendingHereDocs.length + 5 ≤ fuel →
    ∀ hereDoc token, token.beginsAt = lexer.pos → token.hereDoc = none →
      Ends (readToken fuel hereDoc token lexer.rest.head?) lexer fun read after =>
        read.beginsAt = lexer.pos ∧ TokenRead lexer read after
  next : ∀ {lexer : Lexer}, lexer.Sound →
    9 * lexer.left + lexer.pendingHereDocs.length + 6 ≤ fuel →
    Ends (nextToken fuel) lexer fun token after => TokenRead lexer token after

/-! ## One step of each reader -/

theorem Ends.stops {m : Lex α} {before lexer : Lexer}
    (h : Ends m lexer fun _ last => ReadsMore before last) :
    Ends m lexer fun _ last => Reads before last :=
  h.mono fun _ _ hmore => hmore.toReads

theorem Ends.goOn {m : Lex α} {f : α → Lex β} {before lexer : Lexer} (hreads : Reads before lexer)
    (h : StopsPast m lexer)
    (hf : ∀ a after, after.Sound → after.left < lexer.left → Stops (f a) after) :
    Ends (m >>= f) lexer fun _ last => ReadsMore before last := by
  apply h.bind
  intro a after hmore
  apply (hf a after hmore.sound hmore.left_lt).mono
  intro _ last hlast
  exact .after hreads (hmore.then hlast)

namespace Readers

variable {fuel : Nat} (readers : Readers fuel) {lexer : Lexer} (h : lexer.Sound)

include readers h

theorem doubleQuoted_succ (hfuel : 9 * lexer.left + 2 ≤ fuel + 1) (parts : List WordPart) :
    StopsPast (doubleQuotedParts (fuel + 1) parts) lexer := by
  rw [doubleQuotedParts]
  apply (ends_peek h).bind
  rintro next after ⟨hreads, rfl⟩
  have hle := hreads.left_le
  cases hhead : after.rest.head? with
  | none => exact .lexError _ _
  | some c =>
      have hget := ends_rawGet hreads.sound hhead
      have hon : ∀ parts last, Sound last → last.left < after.left →
          Stops (doubleQuotedParts fuel parts) last := by
        intro parts last hsound hleft
        exact (readers.doubleQuoted hsound (by omega) parts).stops
      apply Ends.ite
      · intro _
        exact .goOn hreads hget fun _ _ hsound _ => .pure (.refl hsound)
      · intro _
        apply Ends.ite
        · intro _
          exact .goOn hreads (stopsPast_readEscaped hreads.sound hhead _ _ _) hon
        · intro _
          apply Ends.ite
          · intro _
            exact .goOn hreads (readers.dollar hreads.sound hhead (by omega) _ _ _) hon
          · intro _
            apply Ends.ite
            · intro _
              exact .goOn hreads (stopsPast_readBackquote hreads.sound hhead (by omega) _)
                fun _ => hon _
            · intro _
              exact .goOn hreads hget fun _ => hon _

theorem dollar_succ {c : Char} (hc : lexer.rest.head? = some c)
    (hfuel : 9 * lexer.left + 1 ≤ fuel + 1) (parts : List WordPart) (plain : PlainKind)
    (dquote : Bool) : StopsPast (readDollar (fuel + 1) parts plain dquote) lexer := by
  rw [readDollar]
  apply Ends.goOn (.refl h) (ends_rawGet h hc)
  intro _ first hfirst hleft
  apply (ends_peek hfirst).bind
  rintro next after ⟨hreads, rfl⟩
  have hle := hreads.left_le
  cases hhead : after.rest.head? with
  | none => exact .pure hreads
  | some c =>
      have hget := ends_rawGet hreads.sound hhead
      apply Ends.ite
      · intro _
        apply (stops_readWhile hreads.sound (by omega) _ _).bind
        intro _ last hlast
        exact .pure (hreads.trans hlast)
      · intro _
        apply Ends.ite
        · intro _
          exact (Ends.goOn hreads hget fun _ _ hsound _ => .pure (.refl hsound)).stops
        · intro _
          apply Ends.ite
          · intro _
            refine (Ends.goOn hreads hget ?_).stops
            intro _ second hsound hless
            apply (readers.braced hsound (by omega) dquote).bind
            intro _ last hlast
            exact .pure hlast
          · intro _
            apply Ends.ite
            · intro _
              refine (Ends.goOn hreads hget ?_).stops
              intro _ second hsound hless
              apply (stops_readIf hsound '(').bind
              intro found third hthird
              have hle' := hthird.left_le
              apply Ends.ite
              · intro _
                apply (readers.arithmetic hthird.sound (by omega) _ _).bind
                intro _ last hlast
                exact .pure (hthird.trans hlast)
              · intro _
                apply (readers.substitution hthird.sound (by omega)).bind
                intro _ last hlast
                exact .pure (hthird.trans hlast)
            · intro _
              exact .pure hreads

theorem finishBad_succ (hfuel : 9 * lexer.left + 3 ≤ fuel + 1) (dquote : Bool) :
    Stops (finishBadParameter (fuel + 1) dquote) lexer := by
  rw [finishBadParameter]
  apply (readers.operand h (by omega) dquote []).bind
  intro _ last hlast
  exact .pure hlast

theorem braced_succ (hfuel : 9 * lexer.left + 4 ≤ fuel + 1) (dquote : Bool) :
    Stops (readBracedParameter (fuel + 1) dquote) lexer := by
  rw [readBracedParameter]
  apply (stops_readBracedStart h (by omega)).bind
  intro start first hfirst
  have hle := hfirst.left_le
  have hbad : ∀ last, Reads lexer last → last.left ≤ lexer.left →
      Ends (finishBadParameter fuel dquote) last fun _ after => Reads lexer after := by
    intro last hlast hless
    apply (readers.finishBad hlast.sound (by omega) dquote).mono
    intro _ after hafter
    exact hlast.trans hafter
  cases start with
  | done part => exact .pure hfirst
  | bad => exact hbad first hfirst hle
  | named name =>
      apply (ends_peek hfirst.sound).bind
      rintro next second ⟨hsecond, rfl⟩
      have hle' := hsecond.left_le
      have hboth := hfirst.trans hsecond
      have hoperand : ∀ third, Sound third → third.left < second.left → ∀ dquote,
          Stops (readOperand fuel dquote []) third := by
        intro third hsound hless dquote
        exact readers.operand hsound (by omega) dquote []
      cases hhead : second.rest.head? with
      | none => exact hbad second hboth (by omega)
      | some d =>
          have hget := ends_rawGet hsecond.sound hhead
          apply Ends.ite
          · intro _
            exact (Ends.goOn hboth hget fun _ _ hsound _ => .pure (.refl hsound)).stops
          · intro _
            apply Ends.ite
            · intro _
              refine (Ends.goOn hboth hget ?_).stops
              intro _ third hsound hless
              apply (stops_readIf hsound d).bind
              intro doubled fourth hfourth
              have hle₁ := hfourth.left_le
              apply (hoperand fourth hfourth.sound (by omega) false).bind
              intro _ last hlast
              exact .pure (hfourth.trans hlast)
            · intro _
              apply (stops_readIf hsecond.sound ':').bind
              intro colon third hthird
              have hle₁ := hthird.left_le
              apply (ends_peek hthird.sound).bind
              rintro next fourth ⟨hfourth, rfl⟩
              have hle₂ := hfourth.left_le
              have hall := hboth.trans (hthird.trans hfourth)
              cases hop : fourth.rest.head?.bind (bracedOp colon) with
              | none => exact hbad fourth hall (by omega)
              | some op =>
                  obtain ⟨e, he, _⟩ := Option.bind_eq_some_iff.mp hop
                  refine (Ends.goOn hall (ends_rawGet hfourth.sound he) ?_).stops
                  intro _ fifth hsound hless
                  apply (hoperand fifth hsound (by omega) dquote).bind
                  intro _ last hlast
                  exact .pure hlast

theorem operand_succ (hfuel : 9 * lexer.left + 2 ≤ fuel + 1) (dquote : Bool)
    (parts : List WordPart) : Stops (readOperand (fuel + 1) dquote parts) lexer := by
  rw [readOperand]
  apply (ends_peek h).bind
  rintro next after ⟨hreads, rfl⟩
  have hle := hreads.left_le
  cases hhead : after.rest.head? with
  | none => exact .lexError _ _
  | some c =>
      have hget := ends_rawGet hreads.sound hhead
      have hon : ∀ parts last, Sound last → last.left < after.left →
          Stops (readOperand fuel dquote parts) last := by
        intro parts last hsound hleft
        exact readers.operand hsound (by omega) dquote parts
      apply Ends.ite
      · intro _
        exact (Ends.goOn hreads hget fun _ _ hsound _ => .pure (.refl hsound)).stops
      · intro _
        apply Ends.ite
        · intro _
          exact (Ends.goOn hreads (stopsPast_readEscaped hreads.sound hhead _ _ _) hon).stops
        · intro _
          apply Ends.ite
          · intro _
            apply Ends.ite
            · intro _
              exact (Ends.goOn hreads hget fun _ => hon _).stops
            · intro _
              exact (Ends.goOn hreads
                (stopsPast_readSingleQuoted hreads.sound hhead (by omega) _) hon).stops
          · intro _
            apply Ends.ite
            · intro _
              refine (Ends.goOn hreads hget ?_).stops
              intro _ second hsound hless
              apply (readers.doubleQuoted hsound (by omega) []).bind
              intro _ third hthird
              have hless' := hthird.left_lt
              apply (hon _ third hthird.sound (by omega)).mono
              intro _ last hlast
              exact hthird.toReads.trans hlast
            · intro _
              apply Ends.ite
              · intro _
                exact (Ends.goOn hreads
                  (readers.dollar hreads.sound hhead (by omega) _ _ _) hon).stops
              · intro _
                apply Ends.ite
                · intro _
                  exact (Ends.goOn hreads
                    (stopsPast_readBackquote hreads.sound hhead (by omega) _) fun _ => hon _).stops
                · intro _
                  exact (Ends.goOn hreads hget fun _ => hon _).stops

theorem arithmetic_succ (hfuel : 9 * lexer.left + 2 ≤ fuel + 1) (depth : Nat)
    (parts : List WordPart) : Stops (arithmeticParts (fuel + 1) depth parts) lexer := by
  rw [arithmeticParts]
  apply (ends_peek h).bind
  rintro next after ⟨hreads, rfl⟩
  have hle := hreads.left_le
  cases hhead : after.rest.head? with
  | none => exact .lexError _ _
  | some c =>
      have hget := ends_rawGet hreads.sound hhead
      have hon : ∀ depth parts last, Sound last → last.left < after.left →
          Stops (arithmeticParts fuel depth parts) last := by
        intro depth parts last hsound hleft
        exact readers.arithmetic hsound (by omega) depth parts
      apply Ends.ite
      · intro _
        exact (Ends.goOn hreads hget fun _ => hon _ _).stops
      · intro _
        apply Ends.ite
        · intro _
          refine (Ends.goOn hreads hget ?_).stops
          intro _ second hsound hless
          apply Ends.ite
          · intro _
            exact hon _ _ second hsound hless
          · intro _
            apply (stops_readIf hsound ')').bind
            intro closed last hlast
            apply Ends.ite
            · intro _
              exact .pure hlast
            · intro _
              exact .lexError _ _
        · intro _
          apply Ends.ite
          · intro _
            exact (Ends.goOn hreads
              (stopsPast_readEscaped hreads.sound hhead _ _ _) (hon _)).stops
          · intro _
            apply Ends.ite
            · intro _
              exact (Ends.goOn hreads
                (readers.dollar hreads.sound hhead (by omega) _ _ _) (hon _)).stops
            · intro _
              apply Ends.ite
              · intro _
                exact (Ends.goOn hreads
                  (stopsPast_readBackquote hreads.sound hhead (by omega) _) fun _ => hon _ _).stops
              · intro _
                exact (Ends.goOn hreads hget fun _ => hon _ _).stops

theorem bodyParts_succ (hfuel : 9 * lexer.left + 2 ≤ fuel + 1) (parts : List WordPart) :
    Stops (hereDocBodyParts (fuel + 1) parts) lexer := by
  rw [hereDocBodyParts]
  apply (ends_peek h).bind
  rintro next after ⟨hreads, rfl⟩
  have hle := hreads.left_le
  cases hhead : after.rest.head? with
  | none => exact .pure hreads
  | some c =>
      have hget := ends_rawGet hreads.sound hhead
      have hon : ∀ parts last, Sound last → last.left < after.left →
          Stops (hereDocBodyParts fuel parts) last := by
        intro parts last hsound hleft
        exact readers.bodyParts hsound (by omega) parts
      apply Ends.ite
      · intro _
        exact (Ends.goOn hreads (stopsPast_readEscaped hreads.sound hhead _ _ _) hon).stops
      · intro _
        apply Ends.ite
        · intro _
          exact (Ends.goOn hreads
            (readers.dollar hreads.sound hhead (by omega) _ _ _) hon).stops
        · intro _
          apply Ends.ite
          · intro _
            exact (Ends.goOn hreads
              (stopsPast_readBackquote hreads.sound hhead (by omega) _) fun _ => hon _).stops
          · intro _
            exact (Ends.goOn hreads hget fun _ => hon _).stops

theorem characters_succ (hfuel : 9 * lexer.left + 2 ≤ fuel + 1) (parts : List WordPart) :
    Ends (readWordCharacters (fuel + 1) parts) lexer fun _ after => Reads lexer after ∧
      ∀ c, lexer.rest.head? = some c → ¬ endsWord c → lexer.AtCharacter →
        ReadsMore lexer after := by
  rw [readWordCharacters]
  apply (ends_peek_at h).bind
  rintro next after ⟨hreads, rfl, hat⟩
  have hle := hreads.left_le
  cases hhead : after.rest.head? with
  | none =>
      refine .pure ⟨hreads, ?_⟩
      intro c hc _ hcharacter
      rw [hat hcharacter, hc] at hhead
      cases hhead
  | some c =>
      have hget := ends_rawGet hreads.sound hhead
      have hon : ∀ parts last, Sound last → last.left < after.left →
          Stops (readWordCharacters fuel parts) last := by
        intro parts last hsound hleft
        apply (readers.characters hsound (by omega) parts).mono
        rintro _ _ ⟨hlast, _⟩
        exact hlast
      have hpast : ∀ {m : Lex (List WordPart)},
          Ends m after (fun _ last => ReadsMore lexer last) →
          Ends m after fun _ last => Reads lexer last ∧
            ∀ c, lexer.rest.head? = some c → ¬ endsWord c → lexer.AtCharacter →
              ReadsMore lexer last := by
        intro m hm
        apply hm.mono
        intro _ last hmore
        exact ⟨hmore.toReads, fun _ _ _ _ => hmore⟩
      apply Ends.ite
      · intro hends
        refine .pure ⟨hreads, ?_⟩
        intro d hd hother hcharacter
        rw [hat hcharacter, hd] at hhead
        simp only [Option.some.injEq] at hhead
        exact absurd (hhead ▸ hends) hother
      · intro _
        apply Ends.ite
        · intro _
          exact hpast (.goOn hreads
            (stopsPast_readSingleQuoted hreads.sound hhead (by omega) _) hon)
        · intro _
          apply Ends.ite
          · intro _
            apply hpast
            apply Ends.goOn hreads hget
            intro _ second hsound hless
            apply (readers.doubleQuoted hsound (by omega) []).bind
            intro _ third hthird
            have hless' := hthird.left_lt
            apply (hon _ third hthird.sound (by omega)).mono
            intro _ last hlast
            exact hthird.toReads.trans hlast
          · intro _
            apply Ends.ite
            · intro _
              exact hpast (.goOn hreads (stopsPast_readEscaped hreads.sound hhead _ _ _) hon)
            · intro _
              apply Ends.ite
              · intro _
                exact hpast (.goOn hreads
                  (readers.dollar hreads.sound hhead (by omega) _ _ _) hon)
              · intro _
                apply Ends.ite
                · intro _
                  exact hpast (.goOn hreads
                    (stopsPast_readBackquote hreads.sound hhead (by omega) _) fun _ => hon _)
                · intro _
                  exact hpast (.goOn hreads hget fun _ => hon _)

end Readers

end Haisos.Hsh
