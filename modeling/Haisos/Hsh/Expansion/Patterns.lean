import Haisos.Hsh.Expansion.Walk

/-!
# Expanded patterns

A case pattern or the operand of `${x#word}` is walked into fields; the string
these are finished as matches what the word's reading accepts, if the string
reads back as the pattern it was written for.
-/

namespace Haisos.Hsh

open StateExcept

/-- The two places where a pattern is expanded: a case pattern and a pattern operand. -/
inductive PatternPlace where
  | casePattern (word : Word)
  | operand (kind : ExpansionKind) (inOperand : Bool) (parts : List WordPart)

section

variable {ω : Type} (host : Host ω)

def PatternPlace.expand : PatternPlace → Walk ω Text
  | .casePattern word => expandPattern host word
  | .operand kind inOperand parts => walkOperandToPattern host kind inOperand parts

/-- Neither place is inside double quotes, and a tilde may open the word. -/
def PatternPlace.Reads (language : Reading → Text → Prop) : PatternPlace → World ω → List Mark →
    List Reading → World ω → Prop
  | .casePattern word => WordReads host language .pattern false true word.parts
  | .operand kind _ parts => WordReads host language kind false (kind != .hereDoc) parts

variable {host} {place : PatternPlace} {world world' : World ω} {marks : List Mark}
  {operands : List Reading}

theorem PatternPlace.Reads.exec_expand
    (h : place.Reads host Reading.Matches world marks operands world') :
    exec (place.expand host) world =
      (.ok (Reading.string ⟨ifsSeparator world'.state, marks⟩), world') := by
  cases place with
  | casePattern word =>
      obtain ⟨out, hrun, hseen⟩ := WordReads.walk h false {}
      refine (exec_bind_ok hrun).trans ?_
      rw [exec_bind_ok (exec_getState world'), finishPattern_eq hseen]
      rfl
  | operand kind inOperand parts =>
      have htilde : tildeAllowed kind false = (kind != .hereDoc) := Bool.and_true _
      rw [PatternPlace.Reads, ← htilde] at h
      obtain ⟨out, hrun, hseen⟩ := h.walk inOperand {}
      refine (exec_bind_ok hrun).trans ?_
      rw [exec_bind_ok (exec_getState world'), finishPattern_eq hseen]
      rfl

theorem PatternPlace.reads_of_expand {pattern : Text}
    (h : exec (place.expand host) world = (.ok pattern, world')) :
    ∃ marks operands, place.Reads host Reading.Matches world marks operands world' := by
  cases place with
  | casePattern word =>
      obtain ⟨out, _, hrun, h⟩ := exec_bind_eq_ok.mp h
      cases h
      obtain ⟨marks, operands, hreads, -⟩ := walkWordInto_reads _ _ _ _ _ hrun
      exact ⟨marks, operands, hreads⟩
  | operand kind inOperand parts =>
      obtain ⟨out, _, hrun, h⟩ := exec_bind_eq_ok.mp h
      cases h
      obtain ⟨marks, operands, hreads, -⟩ := walkWordInto_reads _ _ _ _ _ hrun
      have htilde : tildeAllowed kind false = (kind != .hereDoc) := Bool.and_true _
      rw [htilde] at hreads
      exact ⟨marks, operands, hreads⟩

theorem PatternPlace.Reads.congr {language language' : Reading → Text → Prop}
    (h : place.Reads host language world marks operands world')
    (hsame : ∀ reading ∈ operands, ∀ text, language reading text ↔ language' reading text) :
    place.Reads host language' world marks operands world' := by
  cases place with
  | casePattern word => exact WordReads.congr h hsame
  | operand kind inOperand parts => exact WordReads.congr h hsame

/--
Wherever a pattern is expanded, the matcher accepts on the result exactly what
the word's reading accepts, if this and the pattern operands in it read back;
and whatever expands has a reading, up to an operand that does not read back.
-/
theorem expandedPattern_accepts (host : Host ω) (place : PatternPlace) (world : World ω) :
    (∀ marks operands world', place.Reads host Reading.Accepts world marks operands world' →
      (∀ reading ∈ ⟨ifsSeparator world'.state, marks⟩ :: operands, reading.readsBack = true) →
      ∃ pattern, exec (place.expand host) world = (.ok pattern, world') ∧
        ∀ text, matchPattern pattern text = true ↔
          Reading.Accepts ⟨ifsSeparator world'.state, marks⟩ text) ∧
    ∀ pattern world', exec (place.expand host) world = (.ok pattern, world') →
      ∃ marks operands, place.Reads host Reading.Matches world marks operands world' ∧
        ((∀ reading ∈ operands, reading.readsBack = true) →
          place.Reads host Reading.Accepts world marks operands world') := by
  constructor
  · intro marks operands world' hreads hback
    rw [List.forall_mem_cons] at hback
    have hmatches := hreads.congr fun reading hreading text =>
      (Reading.matches_iff_accepts (hback.2 reading hreading) text).symm
    exact ⟨_, hmatches.exec_expand, Reading.matches_iff_accepts hback.1⟩
  · intro pattern world' hexpand
    obtain ⟨marks, operands, hreads⟩ := PatternPlace.reads_of_expand hexpand
    exact ⟨marks, operands, hreads, fun hback => hreads.congr fun reading hreading =>
      Reading.matches_iff_accepts (hback reading hreading)⟩

end

/-- A host that runs nothing and finds nothing. -/
def silentHost : Host Unit where
  runCommandSubstitution _ _ _ outside := (.ok {}, outside)
  pathnames _ := ⟨fun _ => [], fun _ => false⟩

def plainWorld : World Unit := ⟨{}, ()⟩

/-- `$1` is `*`. -/
def starWorld : World Unit := ⟨{ positional := [['*']] }, ()⟩

/-- `"a"[!b-d"$1"]$1` -/
def quotedMemberWord : Word where
  parts := [.doubleQuoted [.quoted ['a']], .literal (text "[!b-d"),
    .doubleQuoted [.parameter ['1'] .none []], .literal (text "]"), .parameter ['1'] .none []]

/-- In the brackets `$1` is quoted and a member, after them it is not. -/
theorem expandedPattern_quotedMember :
    ∃ pattern, exec (expandPattern silentHost quotedMemberWord) starWorld =
        (.ok pattern, starWorld) ∧
      ∀ text, matchPattern pattern text = true ↔
        Marked.Accepts [('a', true), ('[', false), ('!', false), ('b', false), ('-', false),
          ('d', false), ('*', true), (']', false), ('*', false)] text := by
  have hreads : (PatternPlace.casePattern quotedMemberWord).Reads silentHost Reading.Accepts
      starWorld _ _ starWorld :=
    .cons (.doubleQuoted (.cons .quoted .nil)) <| .cons .literal <|
      .cons (.doubleQuoted (.cons (.value (.inl rfl)) .nil)) <| .cons .literal <|
        .cons (.value (.inl rfl)) .nil
  refine (expandedPattern_accepts silentHost _ starWorld).1 _ _ _ hreads ?_
  have hlast : Marked.readsBack [('*', false)] = true := by
    rw [Marked.readsBack, if_pos rfl, Marked.readsBack_nil]
  have hbracket : Marked.readsBack [('[', false), ('!', false), ('b', false), ('-', false),
      ('d', false), ('*', true), (']', false), ('*', false)] = true :=
    Marked.readsBack_cons (by decide) rfl (by decide) rfl hlast
  have hwhole := Marked.readsBack_cons (e := ('a', true)) (by decide) rfl rfl rfl hbracket
  refine List.forall_mem_cons.mpr ⟨?_, fun _ h => absurd h List.not_mem_nil⟩
  rw [Reading.readsBack, Bool.and_eq_true]
  exact ⟨rfl, hwhole⟩

/-- `[a"-"z]` -/
def quotedRangeWord : Word where
  parts := [.literal (text "[a"), .doubleQuoted [.quoted ['-']], .literal (text "z]")]

/-- The quoted `-` is read as a range: the pattern accepts `m`, which is none of its members. -/
theorem expandPattern_quotedRange :
    ∃ marks, (PatternPlace.casePattern quotedRangeWord).Reads silentHost Reading.Accepts plainWorld
        marks [] plainWorld ∧
      ¬Reading.Accepts ⟨ifsSeparator plainWorld.state, marks⟩ ['m'] ∧
      ∃ pattern, exec (expandPattern silentHost quotedRangeWord) plainWorld =
          (.ok pattern, plainWorld) ∧ matchPattern pattern ['m'] = true := by
  refine ⟨_, .cons .literal (.cons (.doubleQuoted (.cons .quoted .nil)) (.cons .literal .nil)), ?_,
    text "[a-z]", rfl, by decide⟩
  intro haccepts
  change Wildcard.Matches (Marked.items [('[', false), ('a', false), ('-', true), ('z', false),
    (']', false)]) ['m'] at haccepts
  rw [Marked.items_element (by decide)] at haccepts
  obtain ⟨_, _, ⟨⟩, hmember, -⟩ := Wildcard.matches_one_iff.mp haccepts
  exact absurd hmember (by decide)

end Haisos.Hsh
