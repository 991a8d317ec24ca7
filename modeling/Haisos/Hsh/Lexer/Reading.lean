import Haisos.Hsh.Lexer.Characters

/-!
# How far a reader reads

What a computation of the lexer ends in, and how the lexer has moved when it does: the
character layer, and the groups without expansions.
-/

namespace Haisos.Hsh

variable {α β : Type}

/-! ## Ends -/

/-- A computation ends: with a syntax error, or so that `post` holds. -/
def Ends (m : Lex α) (lexer : Lexer) (post : α → Lexer → Prop) : Prop :=
  (∃ a after, m.run lexer = .ok (a, after) ∧ post a after) ∨
    ∃ error, m.run lexer = .error (.shellError error)

namespace Ends

theorem pure {lexer : Lexer} {post : α → Lexer → Prop} {a : α} (h : post a lexer) :
    Ends (Pure.pure a) lexer post :=
  .inl ⟨a, lexer, rfl, h⟩

theorem bind {m : Lex α} {f : α → Lex β} {lexer : Lexer} {middle : α → Lexer → Prop}
    {post : β → Lexer → Prop} (h : Ends m lexer middle)
    (hf : ∀ a after, middle a after → Ends (f a) after post) : Ends (m >>= f) lexer post := by
  rcases h with ⟨a, after, hrun, hmiddle⟩ | ⟨error, hrun⟩
  · rcases hf a after hmiddle with ⟨b, last, hlast, hpost⟩ | ⟨error, hlast⟩
    · refine .inl ⟨b, last, ?_, hpost⟩
      rw [StateT.run_bind, hrun]
      exact hlast
    · refine .inr ⟨error, ?_⟩
      rw [StateT.run_bind, hrun]
      exact hlast
  · refine .inr ⟨error, ?_⟩
    rw [StateT.run_bind, hrun]
    rfl

theorem mono {m : Lex α} {lexer : Lexer} {post post' : α → Lexer → Prop} (h : Ends m lexer post)
    (hpost : ∀ a after, post a after → post' a after) : Ends m lexer post' := by
  rcases h with ⟨a, after, hrun, hpost'⟩ | hrun
  · exact .inl ⟨a, after, hrun, hpost a after hpost'⟩
  · exact .inr hrun

theorem lexError {lexer : Lexer} {post : α → Lexer → Prop} (message : Text)
    (incomplete : Bool) : Ends (Hsh.lexError message incomplete) lexer post :=
  .inr ⟨_, rfl⟩

theorem get {f : Lexer → Lex β} {lexer : Lexer} {post : β → Lexer → Prop}
    (h : Ends (f lexer) lexer post) : Ends (MonadState.get >>= f) lexer post := by
  rcases h with ⟨b, after, hrun, hpost⟩ | ⟨error, hrun⟩
  · exact .inl ⟨b, after, hrun, hpost⟩
  · exact .inr ⟨error, hrun⟩

theorem set {f : PUnit → Lex β} {lexer next : Lexer} {post : β → Lexer → Prop}
    (h : Ends (f ⟨⟩) next post) : Ends (MonadStateOf.set next >>= f) lexer post := by
  rcases h with ⟨b, after, hrun, hpost⟩ | ⟨error, hrun⟩
  · exact .inl ⟨b, after, hrun, hpost⟩
  · exact .inr ⟨error, hrun⟩

theorem modify {f : PUnit → Lex β} {change : Lexer → Lexer} {lexer : Lexer}
    {post : β → Lexer → Prop} (h : Ends (f ⟨⟩) (change lexer) post) :
    Ends (MonadState.modifyGet (fun lexer => (⟨⟩, change lexer)) >>= f) lexer post := by
  rcases h with ⟨b, after, hrun, hpost⟩ | ⟨error, hrun⟩
  · exact .inl ⟨b, after, hrun, hpost⟩
  · exact .inr ⟨error, hrun⟩

theorem ite {m m' : Lex α} {lexer : Lexer} {post : α → Lexer → Prop} {c : Prop} [Decidable c]
    (h : c → Ends m lexer post) (h' : ¬ c → Ends m' lexer post) :
    Ends (if c then m else m') lexer post := by
  split
  · exact h ‹_›
  · exact h' ‹_›

end Ends

/-! ## Movements -/

inductive Continued : Text → Prop
  | nil : Continued []
  | pair {text : Text} : Continued text → Continued ('\\' :: '\n' :: text)

theorem Continued.append {text text' : Text} (h : Continued text) (h' : Continued text') :
    Continued (text ++ text') := by
  induction h with
  | nil => exact h'
  | pair _ ih => exact .pair ih

/-- The source from one offset to another. -/
def cut (source : Text) (low high : Nat) : Text := (source.take high).drop low

namespace Lexer

/-- The position is in the source, and no character has been read past it. -/
structure Sound (lexer : Lexer) : Prop where
  pos_le : lexer.pos ≤ lexer.source.length
  lastCharEnd_le : lexer.lastCharEnd ≤ lexer.pos

def Trailing (lexer : Lexer) : Prop :=
  Continued (cut lexer.source lexer.lastCharEnd lexer.pos)

/-- How many characters are left. -/
def left (lexer : Lexer) : Nat := lexer.source.length - lexer.pos

structure Moves (before after : Lexer) : Prop where
  source : after.source = before.source
  pos_le : before.pos ≤ after.pos
  lastCharEnd_le : before.lastCharEnd ≤ after.lastCharEnd
  sound : after.Sound

/-- The lexer is further on in a token. -/
structure Reads (before after : Lexer) : Prop extends Moves before after where
  pending : after.pendingHereDocs = before.pendingHereDocs
  hereDocs : after.hereDocs = before.hereDocs
  trailing : before.Trailing → after.Trailing

structure ReadsMore (before after : Lexer) : Prop extends Reads before after where
  pos_lt : before.pos < after.lastCharEnd
  ends : after.Trailing

theorem Moves.refl {lexer : Lexer} (h : lexer.Sound) : Moves lexer lexer where
  source := rfl
  pos_le := Nat.le_refl _
  lastCharEnd_le := Nat.le_refl _
  sound := h

theorem Moves.trans {first second third : Lexer} (h : Moves first second)
    (h' : Moves second third) : Moves first third where
  source := h'.source.trans h.source
  pos_le := h.pos_le.trans h'.pos_le
  lastCharEnd_le := h.lastCharEnd_le.trans h'.lastCharEnd_le
  sound := h'.sound

theorem Reads.refl {lexer : Lexer} (h : lexer.Sound) : Reads lexer lexer where
  toMoves := .refl h
  pending := rfl
  hereDocs := rfl
  trailing := id

theorem Reads.trans {first second third : Lexer} (h : Reads first second)
    (h' : Reads second third) : Reads first third where
  toMoves := h.toMoves.trans h'.toMoves
  pending := h'.pending.trans h.pending
  hereDocs := h'.hereDocs.trans h.hereDocs
  trailing := fun hfirst => h'.trailing (h.trailing hfirst)

theorem ReadsMore.after {first second third : Lexer} (h : Reads first second)
    (h' : ReadsMore second third) : ReadsMore first third where
  toReads := h.trans h'.toReads
  pos_lt := Nat.lt_of_le_of_lt h.pos_le h'.pos_lt
  ends := h'.ends

theorem ReadsMore.then {first second third : Lexer} (h : ReadsMore first second)
    (h' : Reads second third) : ReadsMore first third where
  toReads := h.toReads.trans h'
  pos_lt := Nat.lt_of_lt_of_le h.pos_lt h'.lastCharEnd_le
  ends := h'.trailing h.ends

theorem Moves.left_le {before after : Lexer} (h : Moves before after) :
    after.left ≤ before.left := by
  have hpos := h.pos_le
  rw [left, left, h.source]
  omega

theorem ReadsMore.left_lt {before after : Lexer} (h : ReadsMore before after) :
    after.left < before.left := by
  have hpos := h.pos_lt
  have hend := h.sound.lastCharEnd_le
  have hsource := h.sound.pos_le
  rw [h.source] at hsource
  rw [left, left, h.source]
  omega

end Lexer

open Lexer

/-! ## The character layer -/

theorem cut_self (source : Text) (low : Nat) : cut source low low = [] := by
  rw [cut, List.drop_eq_nil_iff, List.length_take]
  omega

theorem cut_append {source : Text} {low middle high : Nat} (hlow : low ≤ middle)
    (hhigh : middle ≤ high) :
    cut source low high = cut source low middle ++ cut source middle high := by
  simp only [cut, List.drop_take]
  have hsplit : high - low = (middle - low) + (high - middle) := by omega
  rw [hsplit, List.take_add, List.drop_drop]
  congr 3
  omega

theorem cut_drop (source : Text) (low n : Nat) :
    cut source low (low + n) = (source.drop low).take n := by
  rw [cut, List.drop_take]
  congr 1
  omega

theorem take_continuations (text : Text) :
    Continued (text.take (2 * continuations text)) ∧ 2 * continuations text ≤ text.length := by
  fun_induction continuations text with
  | case1 rest ih =>
      rw [Nat.mul_add]
      exact ⟨.pair ih.1, by simp only [List.length_cons]; omega⟩
  | case2 text _ => exact ⟨.nil, by omega⟩

theorem reads_skipContinuations {lexer : Lexer} (h : lexer.Sound) :
    Reads lexer lexer.skipContinuations := by
  obtain ⟨hpairs, hlength⟩ := take_continuations lexer.rest
  have hpos := h.pos_le
  have hend := h.lastCharEnd_le
  rw [skipContinuations]
  cases hcount : continuations lexer.rest with
  | zero => exact Reads.refl h
  | succ n =>
      rw [hcount] at hpairs hlength
      rw [rest, List.length_drop] at hlength
      constructor
      · constructor
        · rfl
        · exact Nat.le_add_right _ _
        · exact Nat.le_refl _
        · exact ⟨by simp only; omega, by simp only; omega⟩
      · rfl
      · rfl
      · intro htrailing
        simp only [Trailing] at htrailing ⊢
        rw [cut_append hend (Nat.le_add_right _ _), cut_drop]
        exact htrailing.append hpairs

theorem ends_rawPeek {lexer : Lexer} {f : Option Char → Lex β} {post : β → Lexer → Prop}
    (h : Ends (f lexer.rest.head?) lexer post) : Ends (rawPeek >>= f) lexer post := by
  rcases h with ⟨b, after, hrun, hpost⟩ | ⟨error, hrun⟩
  · exact .inl ⟨b, after, hrun, hpost⟩
  · exact .inr ⟨error, hrun⟩

theorem ends_peek {lexer : Lexer} (h : lexer.Sound) :
    Ends peek lexer fun c after => Reads lexer after ∧ c = after.rest.head? :=
  .inl ⟨lexer.skipContinuations.rest.head?, lexer.skipContinuations, rfl,
    reads_skipContinuations h, rfl⟩

theorem readsMore_advance {lexer : Lexer} {c : Char} (h : lexer.Sound)
    (hc : lexer.rest.head? = some c) : ReadsMore lexer (lexer.advance c) := by
  have hend := h.lastCharEnd_le
  have hlt : lexer.pos < lexer.source.length := by
    rw [rest, List.head?_drop] at hc
    exact (List.getElem?_eq_some_iff.mp hc).1
  have htrailing : (lexer.advance c).Trailing := by
    simp only [Trailing, advance]
    rw [cut_self]
    exact .nil
  constructor
  · constructor
    · constructor
      · rfl
      · exact Nat.le_add_right _ _
      · simp only [advance]
        omega
      · exact ⟨by simp only [advance]; omega, by simp only [advance]; omega⟩
    · rfl
    · rfl
    · exact fun _ => htrailing
  · simp only [advance]
    omega
  · exact htrailing

theorem ends_rawGet {lexer : Lexer} {c : Char} (h : lexer.Sound)
    (hc : lexer.rest.head? = some c) : Ends rawGet lexer fun _ after => ReadsMore lexer after := by
  obtain ⟨rest, hrest⟩ := List.head?_eq_some_iff.mp hc
  exact .inl ⟨⟨⟩, lexer.advance c, run_rawGet hrest, readsMore_advance h hc⟩

/-! ## Groups without expansions -/

abbrev Stops (m : Lex α) (lexer : Lexer) : Prop := Ends m lexer fun _ after => Reads lexer after

/-- A reader stops, at a syntax error or at least a character further on. -/
abbrev StopsPast (m : Lex α) (lexer : Lexer) : Prop :=
  Ends m lexer fun _ after => ReadsMore lexer after

theorem stopsPast_singleQuotedText {fuel : Nat} {lexer : Lexer} (h : lexer.Sound)
    (hfuel : lexer.left < fuel) (text : Text) : StopsPast (singleQuotedText fuel text) lexer := by
  induction fuel generalizing lexer text with
  | zero => omega
  | succ fuel ih =>
      rw [singleQuotedText]
      apply ends_rawPeek
      cases hhead : lexer.rest.head? with
      | none => exact .lexError _ _
      | some c =>
          apply (ends_rawGet h hhead).bind
          intro _ after hmore
          apply Ends.ite
          · intro _
            exact .pure hmore
          · intro _
            have hleft := hmore.left_lt
            apply (ih hmore.sound (by omega) _).mono
            intro _ last hlast
            exact hmore.then hlast.toReads

theorem stopsPast_readSingleQuoted {fuel : Nat} {lexer : Lexer} {c : Char} (h : lexer.Sound)
    (hc : lexer.rest.head? = some c) (hfuel : lexer.left < fuel) (parts : List WordPart) :
    StopsPast (readSingleQuoted fuel parts) lexer := by
  apply (ends_rawGet h hc).bind
  intro _ after hmore
  have hleft := hmore.left_lt
  apply (stopsPast_singleQuotedText hmore.sound (by omega) _).bind
  intro _ last hlast
  exact .pure (hmore.then hlast.toReads)

theorem stopsPast_readEscaped {lexer : Lexer} {c : Char} (h : lexer.Sound)
    (hc : lexer.rest.head? = some c) (escaped : Char → Bool) (add : Char → α → α) (a : α) :
    StopsPast (readEscaped escaped add a) lexer := by
  apply (ends_rawGet h hc).bind
  intro _ after hmore
  apply ends_rawPeek
  cases hhead : after.rest.head? with
  | none => exact .pure hmore
  | some d =>
      apply (ends_rawGet hmore.sound hhead).bind
      intro _ last hlast
      exact .pure (hmore.then hlast.toReads)

theorem stopsPast_backquoteText {fuel : Nat} {lexer : Lexer} (h : lexer.Sound)
    (hfuel : lexer.left < fuel) (dquote : Bool) (text : Text) :
    StopsPast (backquoteText dquote fuel text) lexer := by
  induction fuel generalizing lexer text with
  | zero => omega
  | succ fuel ih =>
      rw [backquoteText]
      apply (ends_peek h).bind
      rintro next after ⟨hreads, rfl⟩
      have hle := hreads.left_le
      cases hhead : after.rest.head? with
      | none => exact .lexError _ _
      | some c =>
          apply Ends.ite
          · intro _
            apply (ends_rawGet hreads.sound hhead).bind
            intro _ last hmore
            exact .pure (.after hreads hmore)
          · intro _
            apply Ends.ite
            · intro _
              apply (stopsPast_readEscaped hreads.sound hhead _ _ _).bind
              intro _ last hmore
              have hleft := hmore.left_lt
              apply (ih hmore.sound (by omega) _).mono
              intro _ end' hend
              exact .after hreads (hmore.then hend.toReads)
            · intro _
              apply (ends_rawGet hreads.sound hhead).bind
              intro _ last hmore
              have hleft := hmore.left_lt
              apply (ih hmore.sound (by omega) _).mono
              intro _ end' hend
              exact .after hreads (hmore.then hend.toReads)

theorem stopsPast_readBackquote {fuel : Nat} {lexer : Lexer} {c : Char} (h : lexer.Sound)
    (hc : lexer.rest.head? = some c) (hfuel : lexer.left < fuel) (dquote : Bool) :
    StopsPast (readBackquote fuel dquote) lexer := by
  apply Ends.get
  apply (ends_rawGet h hc).bind
  intro _ after hmore
  have hleft := hmore.left_lt
  apply (stopsPast_backquoteText hmore.sound (by omega) _ _).bind
  intro _ last hlast
  exact .pure (hmore.then hlast.toReads)

theorem stops_readWhile {fuel : Nat} {lexer : Lexer} (h : lexer.Sound) (hfuel : lexer.left < fuel)
    (p : Char → Bool) (text : Text) : Stops (readWhile p fuel text) lexer := by
  induction fuel generalizing lexer text with
  | zero => omega
  | succ fuel ih =>
      rw [readWhile]
      apply (ends_peek h).bind
      rintro next after ⟨hreads, rfl⟩
      have hle := hreads.left_le
      cases hhead : after.rest.head? with
      | none => exact .pure hreads
      | some c =>
          apply Ends.ite
          · intro _
            apply (ends_rawGet hreads.sound hhead).bind
            intro _ last hmore
            have hleft := hmore.left_lt
            apply (ih hmore.sound (by omega) _).mono
            intro _ end' hend
            exact hreads.trans (hmore.toReads.trans hend)
          · intro _
            exact .pure hreads

theorem stops_readBracedName {fuel : Nat} {lexer : Lexer} (h : lexer.Sound)
    (hfuel : lexer.left < fuel) : Stops (readBracedName fuel) lexer := by
  apply (ends_peek h).bind
  rintro next after ⟨hreads, rfl⟩
  have hle := hreads.left_le
  cases hhead : after.rest.head? with
  | none => exact .pure hreads
  | some c =>
      have hwhile : ∀ p, Ends (do Pure.pure (some (← readWhile p fuel []))) after
          fun _ last => Reads lexer last := by
        intro p
        apply (stops_readWhile hreads.sound (by omega) p _).bind
        intro _ last hlast
        exact .pure (hreads.trans hlast)
      apply Ends.ite
      · intro _
        exact hwhile _
      · intro _
        apply Ends.ite
        · intro _
          exact hwhile _
        · intro _
          apply Ends.ite
          · intro _
            apply (ends_rawGet hreads.sound hhead).bind
            intro _ last hmore
            exact .pure (hreads.trans hmore.toReads)
          · intro _
            exact .pure hreads

theorem stops_readIf {lexer : Lexer} (h : lexer.Sound) (c : Char) : Stops (readIf c) lexer := by
  apply (ends_peek h).bind
  rintro next after ⟨hreads, rfl⟩
  apply Ends.ite
  · intro hnext
    apply (ends_rawGet hreads.sound hnext).bind
    intro _ last hmore
    exact .pure (hreads.trans hmore.toReads)
  · intro _
    exact .pure hreads

theorem stops_readBracedStart {fuel : Nat} {lexer : Lexer} (h : lexer.Sound)
    (hfuel : lexer.left < fuel) : Stops (readBracedStart fuel) lexer := by
  apply (stops_readIf h '#').bind
  intro found after hreads
  have hle := hreads.left_le
  have hname := stops_readBracedName hreads.sound (show after.left < fuel by omega)
  apply Ends.ite
  · intro _
    apply (stops_readIf hreads.sound '\x7d').bind
    intro closed second hsecond
    have hle' := hsecond.left_le
    apply Ends.ite
    · intro _
      exact .pure (hreads.trans hsecond)
    · intro _
      apply (stops_readBracedName hsecond.sound (by omega)).bind
      intro name third hthird
      have hall := hreads.trans (hsecond.trans hthird)
      cases name with
      | none => exact .pure hall
      | some name =>
          apply (stops_readIf hthird.sound '\x7d').bind
          intro ended last hlast
          apply Ends.ite
          · intro _
            exact .pure (hall.trans hlast)
          · intro _
            exact .pure (hall.trans hlast)
  · intro _
    apply hname.bind
    intro name second hsecond
    cases name with
    | none => exact .pure (hreads.trans hsecond)
    | some name => exact .pure (hreads.trans hsecond)

def TokenKind.isOperator : TokenKind → Bool
  | .word | .ioNumber | .newline | .endOfInput => false
  | _ => true

theorem ends_longestMatch {lexer : Lexer} (h : lexer.Sound) {short : TokenKind}
    {longer : List (Char × TokenKind)} (hshort : short.isOperator)
    (hlonger : ∀ entry ∈ longer, entry.2.isOperator) :
    Ends (longestMatch short longer) lexer fun kind after =>
      Reads lexer after ∧ kind.isOperator := by
  apply (ends_peek h).bind
  rintro next after ⟨hreads, rfl⟩
  cases hfound : after.rest.head?.bind (longer.lookup ·) with
  | none => exact .pure ⟨hreads, hshort⟩
  | some kind =>
      obtain ⟨c, hc, hkind⟩ := Option.bind_eq_some_iff.mp hfound
      apply (ends_rawGet hreads.sound hc).bind
      intro _ last hmore
      obtain ⟨before, following, hlist, _⟩ := List.lookup_eq_some_iff.mp hkind
      exact .pure ⟨hreads.trans hmore.toReads, hlonger (c, kind) (by simp [hlist])⟩

theorem ends_readOperator {lexer : Lexer} {c : Char} (h : lexer.Sound)
    (hc : lexer.rest.head? = some c) : Ends (readOperator c) lexer fun kind after =>
      ReadsMore lexer after ∧ kind.isOperator := by
  apply (ends_rawGet h hc).bind
  intro _ after hmore
  have hmatch : ∀ {lexer' : Lexer}, ReadsMore lexer lexer' → ∀ {short longer},
      short.isOperator → (∀ entry ∈ longer, entry.2.isOperator) →
      Ends (longestMatch short longer) lexer' fun kind last =>
        ReadsMore lexer last ∧ kind.isOperator := by
    intro lexer' hmore' short longer hshort hlonger
    apply (ends_longestMatch hmore'.sound hshort hlonger).mono
    rintro kind last ⟨hlast, hkind⟩
    exact ⟨hmore'.then hlast, hkind⟩
  apply Ends.ite
  · intro _
    exact hmatch hmore rfl (by simp [TokenKind.isOperator])
  · intro _
    apply Ends.ite
    · intro _
      exact hmatch hmore rfl (by simp [TokenKind.isOperator])
    · intro _
      apply Ends.ite
      · intro _
        exact hmatch hmore rfl (by simp [TokenKind.isOperator])
      · intro _
        apply Ends.ite
        · intro _
          exact .pure ⟨hmore, rfl⟩
        · intro _
          apply Ends.ite
          · intro _
            exact .pure ⟨hmore, rfl⟩
          · intro _
            apply Ends.ite
            · intro _
              apply (hmatch hmore rfl (by simp [TokenKind.isOperator])).bind
              rintro kind second ⟨hsecond, hkind⟩
              cases kind with
              | doubleLess => exact hmatch hsecond rfl (by simp [TokenKind.isOperator])
              | _ => exact .pure ⟨hsecond, hkind⟩
            · intro _
              exact hmatch hmore rfl (by simp [TokenKind.isOperator])

theorem ends_expectDelimiterAfter {lexer : Lexer} (h : lexer.Sound) (kind : TokenKind) :
    Ends (expectDelimiterAfter kind) lexer fun _ after =>
      Reads lexer after ∧ after.lastCharEnd = lexer.lastCharEnd := by
  refine .inl ⟨_, _, rfl, ?_⟩
  split
  · exact ⟨⟨⟨rfl, Nat.le_refl _, Nat.le_refl _, ⟨h.pos_le, h.lastCharEnd_le⟩⟩, rfl, rfl, id⟩, rfl⟩
  · exact ⟨.refl h, rfl⟩

theorem ends_takeDelimiterFlags {lexer : Lexer} (h : lexer.Sound) :
    Ends takeDelimiterFlags lexer fun _ after =>
      Reads lexer after ∧ after.pos = lexer.pos := by
  refine .inl ⟨_, _, rfl, ?_⟩
  exact ⟨⟨⟨rfl, Nat.le_refl _, Nat.le_refl _, ⟨h.pos_le, h.lastCharEnd_le⟩⟩, rfl, rfl, id⟩, rfl⟩

end Haisos.Hsh
