import Haisos.Hsh.Lexer.Reading

/-!
# The bodies of here-documents

What the lines of a body are in the source, and what is read of them.
-/

namespace Haisos.Hsh

open Lexer

/-! ## Lines -/

/-- A line of the source with its newline; at the end of the source there may be none. -/
def IsRawLine (line : Text) : Prop :=
  ∃ content, '\n' ∉ content ∧ (line = content ++ ['\n'] ∨ line = content)

/-- What a continued line comes to with the lines that it goes on with. -/
inductive Joins : Text → Text → Text → Prop
  | done (raw : Text) : Joins raw [] raw
  | more {raw next following result : Text} : isContinued raw → IsRawLine next →
      Joins (raw.dropLast.dropLast ++ next) following result → Joins raw (next ++ following) result

/-- What a line of a body, as it stands in the source, is compared as. -/
inductive BodyLine (hd : HereDocument) : Text → Text → Prop
  | mk {first following raw : Text} : IsRawLine first →
      (hd.quoted → following = []) →
      Joins (if hd.stripTabs then first.dropWhile (· == '\t') else first) following raw →
      BodyLine hd (first ++ following) raw

/--
A body as it stands in the source, with its delimiter's line; the text of it, and whether
the delimiter's line came.
-/
inductive BodyText (hd : HereDocument) : Text → Text → Bool → Prop
  | ended : BodyText hd [] [] false
  | delimiter {line raw : Text} : BodyLine hd line raw → isDelimiterLine hd raw →
      BodyText hd line [] true
  | line {line raw following body : Text} {terminated : Bool} : BodyLine hd line raw →
      ¬ isDelimiterLine hd raw → BodyText hd following body terminated →
      BodyText hd (line ++ following) (raw ++ body) terminated

theorem Joins.length_le {raw following result : Text} (h : Joins raw following result) :
    result.length ≤ raw.length + following.length := by
  induction h with
  | done => simp
  | more _ _ _ ih =>
      simp only [List.length_append, List.length_dropLast] at ih ⊢
      omega

theorem BodyLine.length_le {hd : HereDocument} {line raw : Text} (h : BodyLine hd line raw) :
    raw.length ≤ line.length := by
  cases h with
  | @mk first following _ hfirst hquoted hjoins =>
      have hjoined := hjoins.length_le
      have hstrip : (if hd.stripTabs then first.dropWhile (· == '\t') else first).length ≤
          first.length := by
        split
        · exact (List.dropWhile_suffix _).length_le
        · exact Nat.le_refl _
      rw [List.length_append]
      omega

theorem BodyText.length_le {hd : HereDocument} {region body : Text} {terminated : Bool}
    (h : BodyText hd region body terminated) : body.length ≤ region.length := by
  induction h with
  | ended => simp
  | delimiter => simp
  | line hline _ _ ih =>
      have := hline.length_le
      simp only [List.length_append]
      omega

/-! ## Reading lines -/

/-- A line has been read, or what is left of a body's line. -/
structure Passes (before after : Lexer) : Prop extends Moves before after where
  pending : after.pendingHereDocs = before.pendingHereDocs
  hereDocs : after.hereDocs = before.hereDocs

theorem Passes.refl {lexer : Lexer} (h : lexer.Sound) : Passes lexer lexer where
  toMoves := .refl h
  pending := rfl
  hereDocs := rfl

theorem Passes.trans {first second third : Lexer} (h : Passes first second)
    (h' : Passes second third) : Passes first third where
  toMoves := h.toMoves.trans h'.toMoves
  pending := h'.pending.trans h.pending
  hereDocs := h'.hereDocs.trans h.hereDocs

theorem Passes.cut {first second third : Lexer} (h : Passes first second)
    (h' : Passes second third) :
    cut first.source first.pos third.pos =
      Hsh.cut first.source first.pos second.pos ++ Hsh.cut second.source second.pos third.pos := by
  rw [h.source]
  exact cut_append h.pos_le h'.pos_le

theorem line_of_text (text : Text) :
    '\n' ∉ text.takeWhile (· ≠ '\n') ∧
      (text = text.takeWhile (· ≠ '\n') ∨
        ∃ following, text = text.takeWhile (· ≠ '\n') ++ '\n' :: following) := by
  induction text with
  | nil => simp
  | cons c text ih =>
      by_cases hc : c = '\n'
      · subst hc
        exact ⟨by simp, .inr ⟨text, by simp⟩⟩
      · rw [List.takeWhile_cons_of_pos (by simpa using hc)]
        refine ⟨?_, ?_⟩
        · simp only [List.mem_cons, not_or]
          exact ⟨fun heq => hc heq.symm, ih.1⟩
        · rcases ih.2 with hall | ⟨following, hfollowing⟩
          · left
            rw [← hall]
          · right
            refine ⟨following, ?_⟩
            rw [List.cons_append, ← hfollowing]

theorem ends_readRawLine {lexer : Lexer} (h : lexer.Sound)
    (hmore : lexer.pos < lexer.source.length) :
    Ends readRawLine lexer fun raw after =>
      Passes lexer after ∧ raw = cut lexer.source lexer.pos after.pos ∧ IsRawLine raw ∧
        after.left < lexer.left := by
  have hend := h.lastCharEnd_le
  obtain ⟨hnewline, hline⟩ := line_of_text lexer.rest
  have hrest : lexer.rest.length = lexer.source.length - lexer.pos := by
    rw [rest, List.length_drop]
  apply Ends.get
  apply Ends.ite
  · intro hin
    apply Ends.set
    apply Ends.pure
    have hraw : lexer.rest.takeWhile (· ≠ '\n') ++ ['\n'] = cut lexer.source lexer.pos
        (lexer.pos + (lexer.rest.takeWhile (· ≠ '\n')).length + 1) := by
      rcases hline with hall | ⟨following, hfollowing⟩
      · rw [← hall] at hin
        omega
      · rw [Nat.add_assoc, cut_drop, ← rest]
        nth_rewrite 3 [hfollowing]
        rw [List.take_append]
        simp
    refine ⟨⟨⟨rfl, ?_, ?_, ?_, ?_⟩, rfl, rfl⟩, hraw, ⟨_, hnewline, .inl rfl⟩, ?_⟩
    · simp only
      omega
    · simp only
      omega
    · simp only
      omega
    · exact Nat.le_refl _
    · simp only [left]
      omega
  · intro hout
    apply Ends.set
    apply Ends.pure
    have hall : lexer.rest = lexer.rest.takeWhile (· ≠ '\n') := by
      rcases hline with hall | ⟨following, hfollowing⟩
      · exact hall
      · have hlength := congrArg List.length hfollowing
        rw [List.length_append, List.length_cons] at hlength
        omega
    have hlength := congrArg List.length hall
    have hraw : lexer.rest.takeWhile (· ≠ '\n') = cut lexer.source lexer.pos
        (lexer.pos + (lexer.rest.takeWhile (· ≠ '\n')).length) := by
      rw [cut_drop, ← rest, ← hlength, List.take_length, ← hall]
    refine ⟨⟨⟨rfl, ?_, Nat.le_refl _, ?_, ?_⟩, rfl, rfl⟩, hraw, ⟨_, hnewline, .inr rfl⟩, ?_⟩
    · simp only
      omega
    · simp only
      omega
    · simp only
      omega
    · simp only [left]
      omega

theorem ends_joinContinued {fuel : Nat} {lexer : Lexer} (h : lexer.Sound)
    (hfuel : lexer.left < fuel) (raw : Text) :
    Ends (joinContinued fuel raw) lexer fun result after =>
      Passes lexer after ∧ Joins raw (cut lexer.source lexer.pos after.pos) result := by
  induction fuel generalizing lexer raw with
  | zero => omega
  | succ fuel ih =>
      rw [joinContinued]
      apply Ends.get
      apply Ends.ite
      · intro hcontinued
        simp only [Bool.and_eq_true, decide_eq_true_eq] at hcontinued
        apply (ends_readRawLine h hcontinued.2).bind
        rintro next after ⟨hpasses, hnext, hline, hleft⟩
        apply (ih hpasses.sound (by omega) _).mono
        rintro result last ⟨hrest, hjoins⟩
        refine ⟨hpasses.trans hrest, ?_⟩
        rw [hpasses.cut hrest, ← hnext]
        exact .more hcontinued.1 hline hjoins
      · intro _
        apply Ends.pure
        refine ⟨.refl h, ?_⟩
        rw [cut_self]
        exact .done raw

theorem ends_readBodyLine {fuel : Nat} {lexer : Lexer} (h : lexer.Sound)
    (hmore : lexer.pos < lexer.source.length) (hfuel : lexer.left ≤ fuel) (hd : HereDocument) :
    Ends (readBodyLine fuel hd) lexer fun raw after =>
      Passes lexer after ∧ BodyLine hd (cut lexer.source lexer.pos after.pos) raw ∧
        after.left < lexer.left := by
  apply (ends_readRawLine h hmore).bind
  rintro first after ⟨hpasses, hfirst, hline, hleft⟩
  apply Ends.ite
  · intro hquoted
    apply Ends.pure
    refine ⟨hpasses, ?_, hleft⟩
    rw [← hfirst, ← List.append_nil first]
    apply BodyLine.mk hline (fun _ => rfl)
    rw [List.append_nil]
    exact .done _
  · intro hquoted
    apply (ends_joinContinued hpasses.sound (by omega) _).mono
    rintro raw last ⟨hrest, hjoins⟩
    refine ⟨hpasses.trans hrest, ?_, Nat.lt_of_le_of_lt hrest.left_le hleft⟩
    rw [hpasses.cut hrest, ← hfirst]
    exact .mk hline (fun hquoted' => absurd hquoted' hquoted) hjoins

theorem ends_readRawBody {fuel : Nat} {lexer : Lexer} (h : lexer.Sound)
    (hfuel : lexer.left < fuel) (hd : HereDocument) (rawBody : Text) :
    Ends (readRawBody hd fuel rawBody) lexer fun read after =>
      Passes lexer after ∧ (read.2 = false → after.pos = lexer.source.length) ∧
        ∃ body, read.1 = rawBody ++ body ∧
          BodyText hd (cut lexer.source lexer.pos after.pos) body read.2 := by
  induction fuel generalizing lexer rawBody with
  | zero => omega
  | succ fuel ih =>
      rw [readRawBody]
      apply Ends.get
      apply Ends.ite
      · intro hmore
        apply (ends_readBodyLine h hmore (by omega) hd).bind
        rintro raw after ⟨hpasses, hline, hleft⟩
        apply Ends.ite
        · intro hdelimiter
          apply Ends.pure
          exact ⟨hpasses, by simp, [], by simp, .delimiter hline hdelimiter⟩
        · intro hother
          apply (ih hpasses.sound (by omega) _).mono
          rintro ⟨read, terminated⟩ last ⟨hrest, hended, body, rfl, hbody⟩
          refine ⟨hpasses.trans hrest, ?_, raw ++ body, by simp, ?_⟩
          · intro hfalse
            rw [hended hfalse, hpasses.source]
          · rw [hpasses.cut hrest]
            exact .line hline hother hbody
      · intro hdone
        apply Ends.pure
        have hpos := h.pos_le
        refine ⟨.refl h, fun _ => by omega, [], by simp, ?_⟩
        rw [cut_self]
        exact .ended

/-! ## The bodies of several documents -/

def HereDocument.readAs (hd : HereDocument) (rawBody : Text) (body : Word) (terminated : Bool)
    (low high : Nat) : HereDocument :=
  { hd with rawBody, body, complete := true, terminated, sourceBegin := low, sourceEnd := high }

/-- The bodies of documents one after the other in the source, each read into its document. -/
inductive BodiesRead (source : Text) :
    List Nat → Nat → Nat → List HereDocument → List HereDocument → Prop
  | nil (pos : Nat) (docs : List HereDocument) : BodiesRead source [] pos pos docs docs
  | cons {number : Nat} {numbers : List Nat} {low middle high : Nat}
      {docs docs' : List HereDocument} {rawBody : Text} {body : Word} {terminated : Bool} :
      low ≤ middle → (terminated = false → middle = source.length) →
      BodyText (docs.getD number {}) (cut source low middle) rawBody terminated →
      BodiesRead source numbers middle high
        (docs.set number ((docs.getD number {}).readAs rawBody body terminated low middle)) docs' →
      BodiesRead source (number :: numbers) low high docs docs'

end Haisos.Hsh
