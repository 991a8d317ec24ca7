import Haisos.Hsh.Expansion.DoubleQuotes
import Haisos.Hsh.Expansion.Patterns
import Haisos.Hsh.Lexer

/-!
# Words in double quotes

What the lexer reads in double quotes holds no unquoted text, at any depth; so a word that is
one double-quoted part keeps its value.
-/

namespace Haisos.Hsh

open StateExcept

variable {α β : Type}

/-! ## What a reader returns -/

def Returns (m : Lex α) (post : α → Prop) : Prop :=
  ∀ lexer a lexer', m.run lexer = .ok (a, lexer') → post a

namespace Returns

theorem pure {post : α → Prop} {a : α} (h : post a) : Returns (Pure.pure a) post := by
  intro lexer a' lexer' hrun
  cases hrun
  exact h

theorem throw {post : α → Prop} (failure : Failure) : Returns (MonadExcept.throw failure) post := by
  intro lexer a lexer' hrun
  cases hrun

theorem bind {middle : α → Prop} {post : β → Prop} {m : Lex α} {f : α → Lex β}
    (hm : Returns m middle) (hf : ∀ a, middle a → Returns (f a) post) : Returns (m >>= f) post := by
  intro lexer b lexer' hrun
  rw [StateT.run_bind] at hrun
  rcases hfirst : m.run lexer with failure | ⟨a, next⟩
  · rw [hfirst] at hrun
    cases hrun
  · rw [hfirst] at hrun
    exact hf a (hm lexer a next hfirst) next b lexer' hrun

/-- What was read before does not matter. -/
theorem after {post : β → Prop} {m : Lex α} {f : α → Lex β} (hf : ∀ a, Returns (f a) post) :
    Returns (m >>= f) post := by
  have hm : Returns m fun _ => True := fun _ _ _ _ => True.intro
  exact hm.bind fun a _ => hf a

theorem lexError {post : α → Prop} (message : Text) (incomplete : Bool) :
    Returns (Hsh.lexError message incomplete) post :=
  after fun _ => throw _

theorem mono {post post' : α → Prop} {m : Lex α} (h : Returns m post)
    (hpost : ∀ a, post a → post' a) : Returns m post' :=
  fun lexer a lexer' hrun => hpost a (h lexer a lexer' hrun)

end Returns

/-! ## Parts of one kind -/

variable {P : WordPart → Prop}

def AllParts (P : WordPart → Prop) (parts : List WordPart) : Prop := ∀ part ∈ parts, P part

theorem AllParts.nil : AllParts P [] := by
  intro part hpart
  cases hpart

theorem AllParts.concat {parts : List WordPart} {part : WordPart} (h : AllParts P parts)
    (hpart : P part) : AllParts P (parts ++ [part]) := by
  intro other hother
  rcases List.mem_append.mp hother with hold | hnew
  · exact h other hold
  · rwa [List.mem_singleton.mp hnew]

theorem AllParts.mergeText {kind : PlainKind} {parts : List WordPart} (h : AllParts P parts)
    (hplain : ∀ text, P (kind.part text)) (text : Text) :
    AllParts P (Hsh.mergeText kind text parts) := by
  unfold Hsh.mergeText
  split
  · have hinit : AllParts P parts.dropLast := fun part hpart => h part (List.mem_of_mem_dropLast hpart)
    exact hinit.concat (hplain _)
  · exact h.concat (hplain _)

theorem AllParts.appendText {kind : PlainKind} {parts : List WordPart} (h : AllParts P parts)
    (hplain : ∀ text, P (kind.part text)) (text : Text) :
    AllParts P (Hsh.appendText parts kind text) := by
  unfold Hsh.appendText
  split_ifs with hempty hquoted
  · obtain ⟨rfl, -⟩ := hquoted
    exact h.concat (hplain [])
  · exact h
  · exact h.mergeText hplain text

theorem allReadInQuotes_iff {parts : List WordPart} :
    allReadInQuotes parts = true ↔ AllParts (fun part => part.readInQuotes = true) parts := by
  induction parts with
  | nil => exact iff_of_true rfl .nil
  | cons part parts ih =>
      rw [allReadInQuotes, Bool.and_eq_true, ih, AllParts, AllParts, List.forall_mem_cons]

/-! ## The readers of groups -/

theorem returns_readEscaped {post : α → Prop} {escaped : Char → Bool} {add : Char → α → α} {a : α}
    (ha : post a) (hadd : ∀ d a, post a → post (add d a)) :
    Returns (readEscaped escaped add a) post := by
  refine .after fun _ => .after fun next => ?_
  cases next with
  | none => exact .pure (hadd _ _ ha)
  | some d =>
      refine .after fun _ => .pure ?_
      split_ifs
      · exact hadd _ _ ha
      · exact hadd _ _ (hadd _ _ ha)

theorem returns_escapedChar {escaped : Char → Bool} {kind : PlainKind} {parts : List WordPart}
    (h : AllParts P parts) (hplain : ∀ text, P (kind.part text)) :
    Returns (readEscaped escaped (addChar kind) parts) (AllParts P) :=
  returns_readEscaped h fun d _ hparts => hparts.mergeText hplain [d]

theorem returns_readBackquote {fuel : Nat} {dquote : Bool}
    (hsubstitution : ∀ source backquoted line, P (.commandSubstitution source backquoted line)) :
    Returns (readBackquote fuel dquote) P :=
  .after fun _ => .after fun _ => .after fun _ => .pure (hsubstitution _ _ _)

theorem returns_readCommandSubstitution {fuel : Nat}
    (hsubstitution : ∀ source backquoted line, P (.commandSubstitution source backquoted line)) :
    Returns (readCommandSubstitution fuel) P := by
  cases fuel with
  | zero =>
      rw [readCommandSubstitution]
      exact .throw _
  | succ fuel =>
      rw [readCommandSubstitution]
      exact .after fun _ => .after fun _ => .after fun _ => .pure (hsubstitution _ _ _)

theorem returns_readBracedStart {fuel : Nat} :
    Returns (readBracedStart fuel) fun start =>
      ∀ part, start = .done part → ∃ name op, part = .parameter name op [] := by
  refine .after fun hash => ?_
  split_ifs
  · refine .after fun closed => ?_
    split_ifs
    · refine .pure ?_
      rintro part ⟨⟩
      exact ⟨_, _, rfl⟩
    · refine .after fun name => ?_
      cases name with
      | none => exact .pure (by rintro part ⟨⟩)
      | some name =>
          refine .after fun closed => ?_
          split_ifs
          · refine .pure ?_
            rintro part ⟨⟩
            exact ⟨_, _, rfl⟩
          · exact .pure (by rintro part ⟨⟩)
  · refine .after fun name => ?_
    cases name <;> exact .pure (by rintro part ⟨⟩)

theorem returns_finishBadParameter {fuel : Nat} {dquote : Bool}
    (hbad : ∀ name op, P (.parameter name op [])) : Returns (finishBadParameter fuel dquote) P := by
  cases fuel with
  | zero =>
      rw [finishBadParameter]
      exact .throw _
  | succ fuel =>
      rw [finishBadParameter]
      exact .after fun _ => .pure (hbad _ _)

/-- The operand of a removal is read apart from the quotes around it. -/
theorem returns_readBracedParameter {fuel : Nat} {dquote : Bool}
    (hempty : ∀ name op, P (.parameter name op []))
    (hremoval : ∀ name op operand, op.removes = true → P (.parameter name op operand))
    (hoperand : Returns (readOperand fuel dquote []) fun operand =>
      ∀ name op, P (.parameter name op operand)) :
    Returns (readBracedParameter (fuel + 1) dquote) P := by
  rw [readBracedParameter]
  refine .bind returns_readBracedStart fun start hstart => ?_
  cases start with
  | done part =>
      obtain ⟨name, op, rfl⟩ := hstart part rfl
      exact .pure (hempty name op)
  | bad => exact returns_finishBadParameter hempty
  | named name =>
      refine .after fun next => ?_
      cases next with
      | none => exact returns_finishBadParameter hempty
      | some d =>
          simp only
          split_ifs with hclosed hremoves
          · exact .after fun _ => .pure (hempty name .none)
          · refine .after fun _ => .after fun doubled => .after fun operand => .pure ?_
            refine hremoval name _ operand ?_
            unfold removalOp
            split_ifs <;> rfl
          · refine .after fun colon => .after fun next => ?_
            cases next.bind (bracedOp colon) with
            | none => exact returns_finishBadParameter hempty
            | some op =>
                exact .after fun _ => hoperand.bind fun operand h => .pure (h name op)

theorem returns_readDollar {fuel : Nat} {plain : PlainKind} {dquote : Bool}
    {parts : List WordPart} (h : AllParts P parts) (hplain : ∀ text, P (plain.part text))
    (hparameter : ∀ name, P (.parameter name .none []))
    (harithmetic : ∀ parts, P (.arithmetic parts))
    (hsubstitution : ∀ source backquoted line, P (.commandSubstitution source backquoted line))
    (hbraced : Returns (readBracedParameter fuel dquote) P) :
    Returns (readDollar (fuel + 1) parts plain dquote) (AllParts P) := by
  rw [readDollar]
  refine .after fun _ => .after fun next => ?_
  cases next with
  | none => exact .pure (h.mergeText hplain _)
  | some c =>
      simp only
      split_ifs
      · exact .after fun _ => .pure (h.concat (hparameter _))
      · exact .after fun _ => .pure (h.concat (hparameter _))
      · exact .after fun _ => hbraced.bind fun part hpart => .pure (h.concat hpart)
      · refine .after fun _ => .after fun second => ?_
        split_ifs
        · exact .after fun _ => .pure (h.concat (harithmetic _))
        · exact (returns_readCommandSubstitution hsubstitution).bind fun part hpart =>
            .pure (h.concat hpart)
      · exact .pure (h.mergeText hplain _)

/-! ## What is read in double quotes -/

/-- The readers that read in double quotes return what is read in quotes. -/
structure QuotedReaders (fuel : Nat) : Prop where
  doubleQuoted : ∀ parts, AllParts (fun part => part.readInQuotes = true) parts →
    Returns (doubleQuotedParts fuel parts) (AllParts fun part => part.readInQuotes = true)
  dollar : ∀ parts, AllParts (fun part => part.readInQuotes = true) parts →
    Returns (readDollar fuel parts .quoted true) (AllParts fun part => part.readInQuotes = true)
  braced : Returns (readBracedParameter fuel true) fun part => part.readInQuotes = true
  operand : ∀ parts, AllParts (fun part => part.readInQuotes = true) parts →
    Returns (readOperand fuel true parts) (AllParts fun part => part.readInQuotes = true)

theorem quotedReaders_zero : QuotedReaders 0 where
  doubleQuoted parts _ := by
    rw [doubleQuotedParts]
    exact .throw _
  dollar parts _ := by
    rw [readDollar]
    exact .throw _
  braced := by
    rw [readBracedParameter]
    exact .throw _
  operand parts _ := by
    rw [readOperand]
    exact .throw _

namespace QuotedReaders

variable {fuel : Nat} {parts : List WordPart}

theorem doubleQuoted_succ (readers : QuotedReaders fuel)
    (h : AllParts (fun part => part.readInQuotes = true) parts) :
    Returns (doubleQuotedParts (fuel + 1) parts)
      (AllParts fun part => part.readInQuotes = true) := by
  rw [doubleQuotedParts]
  refine .after fun next => ?_
  cases next with
  | none => exact .lexError _ _
  | some c =>
      simp only
      split_ifs
      · exact .after fun _ => .pure h
      · exact (returns_escapedChar h fun _ => rfl).bind readers.doubleQuoted
      · exact (readers.dollar parts h).bind readers.doubleQuoted
      · exact (returns_readBackquote fun _ _ _ => rfl).bind fun part hpart =>
          readers.doubleQuoted _ (h.concat hpart)
      · exact .after fun _ => readers.doubleQuoted _ (h.mergeText (fun _ => rfl) _)

theorem operand_succ (readers : QuotedReaders fuel)
    (h : AllParts (fun part => part.readInQuotes = true) parts) :
    Returns (readOperand (fuel + 1) true parts)
      (AllParts fun part => part.readInQuotes = true) := by
  rw [readOperand]
  refine .after fun next => ?_
  cases next with
  | none => exact .lexError _ _
  | some c =>
      simp only [if_true]
      split_ifs
      · exact .after fun _ => .pure h
      · exact (returns_escapedChar h fun _ => rfl).bind readers.operand
      · exact .after fun _ => readers.operand _ (h.mergeText (fun _ => rfl) _)
      · refine .after fun _ => (readers.doubleQuoted [] .nil).bind fun inner hinner => ?_
        exact readers.operand _ (h.concat (allReadInQuotes_iff.mpr hinner))
      · exact (readers.dollar parts h).bind readers.operand
      · exact (returns_readBackquote fun _ _ _ => rfl).bind fun part hpart =>
          readers.operand _ (h.concat hpart)
      · exact .after fun _ => readers.operand _ (h.mergeText (fun _ => rfl) _)

end QuotedReaders

theorem quotedReaders (fuel : Nat) : QuotedReaders fuel := by
  induction fuel with
  | zero => exact quotedReaders_zero
  | succ fuel readers =>
      refine ⟨fun parts h => readers.doubleQuoted_succ h, fun parts h => ?_, ?_,
        fun parts h => readers.operand_succ h⟩
      · exact returns_readDollar h (fun _ => rfl) (fun _ => rfl) (fun _ => rfl)
          (fun _ _ _ => rfl) readers.braced
      · refine returns_readBracedParameter (fun name op => ?_) (fun name op operand hop => ?_)
          ((readers.operand [] .nil).mono fun operand h name op => ?_)
        · simp [WordPart.readInQuotes, allReadInQuotes]
        · simp [WordPart.readInQuotes, hop]
        · simp [WordPart.readInQuotes, allReadInQuotes_iff.mpr h]

/-! ## The words that are lexed -/

/-- A double-quoted part has been read in its quotes. -/
def WordPart.QuotesRead (part : WordPart) : Prop :=
  ∀ inner, part = .doubleQuoted inner → allReadInQuotes inner = true

theorem returns_wordCharacters (fuel : Nat) :
    ∀ parts, AllParts WordPart.QuotesRead parts →
      Returns (readWordCharacters fuel parts) (AllParts WordPart.QuotesRead) := by
  have hplain : ∀ (kind : PlainKind) text, (kind.part text).QuotesRead := by
    intro kind text inner h
    cases kind <;> cases h
  have hsubstitution : ∀ source backquoted line,
      (WordPart.commandSubstitution source backquoted line).QuotesRead := by
    rintro source backquoted line inner ⟨⟩
  have hparameter : ∀ name op operand, (WordPart.parameter name op operand).QuotesRead := by
    rintro name op operand inner ⟨⟩
  induction fuel with
  | zero =>
      intro parts _
      rw [readWordCharacters]
      exact .throw _
  | succ fuel ih =>
      intro parts h
      rw [readWordCharacters]
      refine .after fun next => ?_
      cases next with
      | none => exact .pure h
      | some c =>
          simp only
          split_ifs
          · exact .pure h
          · have hsingle : Returns (readSingleQuoted fuel parts) (AllParts WordPart.QuotesRead) :=
              .after fun _ => .after fun _ => .pure (h.appendText (hplain .quoted) _)
            exact hsingle.bind ih
          · refine .after fun _ => ((quotedReaders fuel).doubleQuoted [] .nil).bind fun inner hinner => ?_
            refine ih _ (h.concat ?_)
            rintro other ⟨⟩
            exact allReadInQuotes_iff.mpr hinner
          · exact (returns_escapedChar h (hplain .quoted)).bind ih
          · cases fuel with
            | zero =>
                rw [readDollar]
                exact .bind (.throw _) ih
            | succ fuel =>
                refine (returns_readDollar h (hplain .literal) (fun name => hparameter _ _ _) ?_
                  hsubstitution ?_).bind ih
                · rintro parts inner ⟨⟩
                · cases fuel with
                  | zero =>
                      rw [readBracedParameter]
                      exact .throw _
                  | succ fuel =>
                      exact returns_readBracedParameter (fun _ _ => hparameter _ _ _)
                        (fun _ _ _ _ => hparameter _ _ _)
                        fun _ _ _ _ _ _ => hparameter _ _ _
          · exact (returns_readBackquote hsubstitution).bind fun part hpart =>
              ih _ (h.concat hpart)
          · exact .after fun _ => ih _ (h.mergeText (hplain .literal) _)

theorem returns_readWordRest {fuel : Nat} {token : Token} {hereDoc : Option Bool}
    {first : List WordPart} (h : AllParts WordPart.QuotesRead first) :
    Returns (readWordRest fuel token hereDoc first)
      fun token => AllParts WordPart.QuotesRead token.word.parts := by
  cases fuel with
  | zero =>
      rw [readWordRest]
      exact .throw _
  | succ fuel =>
      rw [readWordRest]
      refine .bind (returns_wordCharacters fuel first h) fun parts hparts => .after fun lexer => ?_
      cases hereDoc with
      | none => exact .pure hparts
      | some stripTabs => exact .after fun _ => .pure hparts

theorem returns_readToken {fuel : Nat} {token : Token} {hereDoc : Option Bool}
    {next : Option Char} (h : token.word.parts = []) :
    Returns (readToken fuel hereDoc token next)
      fun token => AllParts WordPart.QuotesRead token.word.parts := by
  have hnone : AllParts WordPart.QuotesRead token.word.parts := by
    rw [h]
    exact .nil
  cases fuel with
  | zero =>
      rw [readToken]
      exact .throw _
  | succ fuel =>
      cases next with
      | none =>
          rw [readToken]
          refine .after fun _ => .after fun lexer => ?_
          split_ifs
          · exact .lexError _ _
          · exact .pure .nil
      | some c =>
          rw [readToken]
          split_ifs
          · exact .after fun _ => .after fun _ => .after fun _ => .pure hnone
          · refine .after fun _ => .after fun d => ?_
            split_ifs
            · exact .after fun _ => .pure hnone
            · refine returns_readWordRest (AllParts.nil.mergeText ?_ _)
              rintro text inner ⟨⟩
          · exact .after fun _ => .after fun _ => .after fun _ => .pure hnone
          · exact returns_readWordRest .nil

theorem returns_nextToken (fuel : Nat) :
    Returns (nextToken fuel) fun token => AllParts WordPart.QuotesRead token.word.parts := by
  cases fuel with
  | zero =>
      rw [nextToken]
      exact .throw _
  | succ fuel =>
      rw [nextToken]
      exact .after fun _ => .after fun _ => .after fun _ => returns_readToken rfl

/-- A word that the lexer returns, whatever it reads. -/
def Lexed (word : Word) : Prop :=
  ∃ fuel lexer token lexer', (nextToken fuel).run lexer = .ok (token, lexer') ∧
    token.kind = .word ∧ token.word = word

theorem Lexed.readInQuotes {word : Word} {parts : List WordPart} (h : Lexed word)
    (hword : word.parts = [.doubleQuoted parts]) : allReadInQuotes parts = true := by
  obtain ⟨fuel, lexer, token, lexer', hrun, -, rfl⟩ := h
  refine returns_nextToken fuel lexer token lexer' hrun (.doubleQuoted parts) ?_ parts rfl
  rw [hword]
  exact List.mem_singleton_self _

/-! ## Their values -/

variable {ω : Type}

/--
A word in double quotes without `@` expands to one field, the string that it expands to; one
around `$@` to a field for each positional parameter, with its texts around them.
-/
theorem doubleQuotes_keepValues (host : Host ω) (world : World ω) :
    (∀ (word : Word) (parts : List WordPart), Lexed word → word.parts = [.doubleQuoted parts] →
      anyMentionsAt parts = false →
        exec (expandWord host word) world =
          ((exec (expandToString host word) world).1.map fun value => [value],
            (exec (expandToString host word) world).2)) ∧
    ∀ (before opening closing after source : Text) (line : Nat), before.head? ≠ some '~' →
      NoPattern before → NoPattern after →
        exec (expandWord host ⟨atWord before opening closing after, source, line⟩) world =
          (.ok (atFields before opening closing after world.state.positional), world) := by
  constructor
  · intro word parts hlexed hword hat
    exact expandWord_doubleQuoted host hword (hlexed.readInQuotes hword) hat world
  · intro before opening closing after source line htilde hbefore hafter
    exact expandWord_atWord host htilde hbefore hafter opening closing source line world

/-- The word of the first token of a source, and what it holds in double quotes. -/
def firstQuoted (fuel : Nat) (source : Text) : Option (Word × List WordPart) :=
  match (nextToken fuel).run { source } with
  | .ok (token, _) =>
      match token.kind, token.word.parts with
      | .word, [.doubleQuoted parts] => some (token.word, parts)
      | _, _ => none
  | .error _ => none

theorem lexed_of_firstQuoted {fuel : Nat} {source : Text} {word : Word} {parts : List WordPart}
    (h : firstQuoted fuel source = some (word, parts)) :
    Lexed word ∧ word.parts = [.doubleQuoted parts] := by
  unfold firstQuoted at h
  split at h
  case h_2 => cases h
  case h_1 token lexer' hrun =>
    split at h
    case h_2 => cases h
    case h_1 inner hkind hparts =>
      cases h
      exact ⟨⟨fuel, { source }, token, lexer', hrun, hkind, rfl⟩, hparts⟩

/-- `$1` is `a b`, and `$2` is `*`. -/
def twoWorld : World Unit := ⟨{ positional := [text "a b", text "*"] }, ()⟩

theorem doubleQuotes_keepValues_nested :
    (∃ word, Lexed word ∧ (exec (expandWord silentHost word) twoWorld).1 =
      .ok [text "a b * *3"]) ∧
    exec (expandWord silentHost ⟨atWord ['p'] ['<'] ['>'] ['q'], [], 1⟩)
      twoWorld = (.ok [text "p<a b", text "*>q"], twoWorld) := by
  have hkeeps := doubleQuotes_keepValues silentHost twoWorld
  constructor
  · have hrun : (firstQuoted 60 (text "\"$1 $\x7bx:-\"* $2\"\x7d$((1 + 2))\"")).map (fun result =>
        (anyMentionsAt result.2,
          (exec (expandToString silentHost result.1) twoWorld).1.toOption)) =
        some (false, some (text "a b * *3")) := by
      decide +kernel
    obtain ⟨⟨word, parts⟩, hfirst, hresult⟩ := Option.map_eq_some_iff.mp hrun
    obtain ⟨hat, hvalue⟩ := Prod.mk.inj hresult
    obtain ⟨hlexed, hparts⟩ := lexed_of_firstQuoted hfirst
    refine ⟨word, hlexed, ?_⟩
    rw [hkeeps.1 word parts hlexed hparts hat]
    cases hended : (exec (expandToString silentHost word) twoWorld).1 with
    | error failure =>
        rw [hended] at hvalue
        cases hvalue
    | ok value =>
        rw [hended] at hvalue
        cases hvalue
        rfl
  · refine hkeeps.2 ['p'] ['<'] ['>'] ['q'] [] 1 (by decide) ?_ ?_
    · simp [NoPattern]
    · simp [NoPattern]

end Haisos.Hsh
