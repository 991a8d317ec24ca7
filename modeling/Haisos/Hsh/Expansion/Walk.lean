import Haisos.Hsh.Expansion.Reading

/-!
# The walk reads the word

What the fields of a walk hold is the word's reading, quote marks and the
splittable flags aside, when a pattern operand is taken for what the matcher
accepts on the string it is finished as.
-/

namespace Haisos.Hsh

open StateExcept

/-! ## What a walk has read -/

def markedOf (field : List Element) : Marked :=
  field.filterMap fun
    | .char c quoted _ => some (c, quoted)
    | .quoteMark => none

/-- What fields hold, with `none` where a hard break ends one. -/
def PendingFields.seen (out : PendingFields) : List (Option (Char × Bool)) :=
  out.ended.flatMap (fun field => (markedOf field).map some ++ [none]) ++
    (markedOf out.current).map some

def Mark.seen : Mark → Option (Char × Bool)
  | .char c quoted => some (c, quoted)
  | .next _ => none

theorem map_seen_marksOf (quoted : Bool) (text : Text) :
    (marksOf quoted text).map Mark.seen = text.map fun c => some (c, quoted) := by
  simp [marksOf, Mark.seen, Function.comp_def]

namespace PendingFields

variable (out : PendingFields)

@[simp] theorem seen_empty : seen {} = [] := rfl

@[simp] theorem seen_emitElements (elements : List Element) :
    (out.emitElements elements).seen = out.seen ++ (markedOf elements).map some := by
  simp [seen, emitElements, markedOf]

@[simp] theorem seen_emitChars (text : Text) (quoted splittable : Bool) :
    (out.emitChars text quoted splittable).seen =
      out.seen ++ (marksOf quoted text).map Mark.seen := by
  have hmarked : markedOf (text.map fun c => .char c quoted splittable) =
      text.map fun c => (c, quoted) := by
    simp [markedOf, List.filterMap_map, List.filterMap_eq_map']
  rw [emitChars, seen_emitElements, hmarked, map_seen_marksOf, List.map_map]
  rfl

@[simp] theorem seen_emitQuoteMark : out.emitQuoteMark.seen = out.seen := by
  simp [emitQuoteMark, markedOf]

@[simp] theorem seen_hardBreak : out.hardBreak.seen = out.seen ++ [none] := by
  simp [seen, hardBreak, markedOf]

@[simp] theorem seen_emitValue (inDoubleQuotes : Bool) (value : Text) :
    (out.emitValue inDoubleQuotes value).seen =
      out.seen ++ (marksOf inDoubleQuotes value).map Mark.seen := by
  cases inDoubleQuotes <;> simp [emitValue]

end PendingFields

theorem seen_emitSeparately (quoted : Bool) (out : PendingFields) (values : List Text) :
    (emitSeparately quoted out values).seen =
      out.seen ++ ([Mark.next quoted].intercalate (values.map (marksOf quoted))).map Mark.seen := by
  rcases values with _ | ⟨value, values⟩
  · simp [emitSeparately]
  · rw [emitSeparately]
    induction values generalizing out value with
    | nil => simp
    | cons value' values ih =>
        rw [List.foldl_cons, ih, List.map_cons, List.map_cons, List.map_cons,
          List.intercalate_cons_cons]
        simp [Mark.seen]

theorem seen_emitPositionalStyle (state : ShellState) (quoted : Bool) {name : Text}
    {values : List Text} (hone : name ≠ ['@'] → name ≠ ['*'] → values.length ≤ 1)
    (out : PendingFields) :
    (emitPositionalStyle state quoted name values out).seen =
      out.seen ++ (valueMarks (ifsSeparator state) quoted name values).map Mark.seen := by
  unfold emitPositionalStyle valueMarks
  by_cases hplain : name ≠ ['@'] ∧ name ≠ ['*']
  · have hvalues := hone hplain.1 hplain.2
    rw [if_pos hplain, if_neg (fun h => hplain.2 h.1), PendingFields.seen_emitValue]
    rcases values with _ | ⟨value, _ | _⟩
    · rfl
    · simp
    · simp at hvalues
  · rw [if_neg hplain]
    split_ifs with hjoined hjoined' hjoined'
    · exact PendingFields.seen_emitValue _ _ _
    · exact absurd ⟨hjoined.2, hjoined.1⟩ hjoined'
    · exact absurd ⟨hjoined'.2, hjoined'.1⟩ hjoined
    · exact seen_emitSeparately _ _ _

theorem length_resolve_le (state : ShellState) {name : Text} (hat : name ≠ ['@'])
    (hstar : name ≠ ['*']) : (resolve state name).values.length ≤ 1 := by
  unfold resolve
  rw [if_neg (by simp [hat, hstar])]
  split_ifs
  all_goals try split
  all_goals try split
  all_goals simp

/-! ## Finishing what was read -/

theorem intercalate_fields (separator : Text) (out : PendingFields) (f : List Element → Text) :
    separator.intercalate (out.fields.map f) =
      out.ended.flatMap (fun field => f field ++ separator) ++ f out.current := by
  rw [PendingFields.fields]
  induction out.ended with
  | nil => simp
  | cons field ended ih =>
      rw [List.cons_append, List.map_cons, List.intercalate_cons_of_ne_nil (by simp), ih]
      simp

/-- A way to finish fields that goes by their marked characters. -/
theorem joinWith_seen (separator : Text) (out : PendingFields) {f : List Element → Text}
    {g : Char × Bool → Text} (hf : ∀ field, f field = (markedOf field).flatMap g) :
    joinWith separator (out.fields.map f) =
      out.seen.flatMap fun | some e => g e | none => separator := by
  rw [joinWith, intercalate_fields]
  simp [PendingFields.seen, hf, List.flatMap_map, List.flatMap_assoc, List.flatMap_append]

def Reading.string (reading : Reading) : Text :=
  reading.marks.flatMap fun
    | .char c quoted => if quoted then escapeForPattern [c] else [c]
    | .next _ => reading.separator

def Reading.Matches (reading : Reading) (text : Text) : Prop :=
  matchPattern reading.string text = true

theorem textOf_eq (field : List Element) : textOf field = (markedOf field).flatMap fun e => [e.1] := by
  induction field with
  | nil => rfl
  | cons element field ih =>
      cases element with
      | quoteMark => exact ih
      | char c quoted splittable => exact congrArg (c :: ·) ih

theorem patternText_eq (field : List Element) :
    field.flatMap patternText =
      (markedOf field).flatMap fun e => if e.2 then escapeForPattern [e.1] else [e.1] := by
  induction field with
  | nil => rfl
  | cons element field ih =>
      cases element with
      | quoteMark => exact ih
      | char c quoted splittable =>
          cases quoted
          · exact congrArg (c :: ·) ih
          · exact congrArg (escapeForPattern [c] ++ ·) ih

variable {state : ShellState} {out : PendingFields} {marks : List Mark}

theorem finishString_eq (h : out.seen = marks.map Mark.seen) :
    finishString state out = Reading.text ⟨ifsSeparator state, marks⟩ := by
  rw [finishString, joinWith_seen _ _ textOf_eq, h, List.flatMap_map]
  refine List.flatMap_congr fun mark _ => ?_
  cases mark <;> rfl

theorem finishPattern_eq (h : out.seen = marks.map Mark.seen) :
    finishPattern state out = Reading.string ⟨ifsSeparator state, marks⟩ := by
  rw [finishPattern, joinWith_seen _ _ patternText_eq, h, List.flatMap_map]
  refine List.flatMap_congr fun mark _ => ?_
  cases mark <;> rfl

theorem escapeMarked_bare_all {pattern : Marked} (h : pattern.any Marked.escapes = false) :
    escapeMarked pattern = pattern.map Prod.fst := by
  induction pattern with
  | nil => rfl
  | cons e rest ih =>
      simp only [List.any_cons, Bool.or_eq_false_iff] at h
      rw [escapeMarked_bare h.1, ih h.2, List.map_cons]

theorem Reading.string_eq {reading : Reading} (h : reading.joinsBare = true) :
    reading.string = escapeMarked reading.pattern := by
  rw [escapeMarked, Reading.string, Reading.pattern, List.flatMap_assoc]
  refine List.flatMap_congr fun mark hmark => ?_
  cases mark with
  | char c quoted => simp [escapeForPattern]
  | next quoted =>
      have hbare : (reading.separator.map (·, quoted)).any Marked.escapes = false := by
        have hjoin := List.all_eq_true.mp h _ hmark
        cases quoted with
        | false => simp [Marked.escapes]
        | true => simpa using hjoin
      have hseparator := escapeMarked_bare_all hbare
      rw [List.map_map] at hseparator
      exact (hseparator.trans (List.map_id'' (fun _ => rfl) _)).symm

/-- A pattern that reads back matches what it accepts. -/
theorem Reading.matches_iff_accepts {reading : Reading} (h : reading.readsBack = true)
    (text : Text) : reading.Matches text ↔ reading.Accepts text := by
  rw [Reading.readsBack, Bool.and_eq_true] at h
  rw [Reading.Matches, Reading.string_eq h.1]
  exact matchPattern_escapeMarked h.2 text

/-! ## Literal text -/

theorem tildePrefixEnd_eq_one_iff {kind : ExpansionKind} {lastPart : Bool} {rest : Text} :
    tildePrefixEnd kind lastPart ('~' :: rest) = some 1 ↔
      rest.head? = some '/' ∨ kind = .assignment ∧ rest.head? = some ':' ∨
        rest = [] ∧ lastPart := by
  unfold tildePrefixEnd
  rw [List.findIdx?_cons, if_neg (by simp)]
  rcases rest with _ | ⟨c, rest⟩
  · cases lastPart <;> simp
  · rw [List.findIdx?_cons]
    by_cases hc : (c == '/' || kind == .assignment && c == ':') = true
    · rw [if_pos hc]
      simpa using hc
    · rw [if_neg hc]
      have hright : ¬((c :: rest).head? = some '/' ∨ kind = .assignment ∧
          (c :: rest).head? = some ':' ∨ c :: rest = [] ∧ lastPart = true) := by
        simpa using hc
      rw [iff_false_right hright]
      cases List.findIdx? (fun c => c == '/' || kind == .assignment && c == ':') rest <;>
        cases lastPart <;> simp

section

variable (state : ShellState) {kind : ExpansionKind} (inOperand lastPart : Bool)

theorem seen_emitLiteral_plain (tail : Text) {stretch : Text} (hplain : kind = .assignment → ':' ∉ stretch)
    (out : PendingFields) :
    ∃ out', emitLiteral state kind inOperand lastPart false (stretch ++ tail) out =
        emitLiteral state kind inOperand lastPart false tail out' ∧
      out'.seen = out.seen ++ (marksOf false stretch).map Mark.seen := by
  induction stretch generalizing out with
  | nil => exact ⟨out, rfl, by simp [marksOf]⟩
  | cons c stretch ih =>
      obtain ⟨out', htail, hseen⟩ := ih (fun h hmem => hplain h (List.mem_cons_of_mem _ hmem))
        (out.emitChars [c] false inOperand)
      refine ⟨out', ?_, ?_⟩
      · rw [List.cons_append, emitLiteral]
        simp only [Bool.false_eq_true, false_and, if_false]
        have hcolon : (kind == .assignment && c == ':') = false := by
          by_contra h
          simp only [Bool.not_eq_false, Bool.and_eq_true, beq_iff_eq] at h
          exact hplain h.1 (by simp [h.2])
        rw [hcolon, htail]
      · rw [hseen]
        simp [marksOf]

theorem seen_emitLiteral_stretch {stretch tail : Text}
    (hplain : kind = .assignment → ':' ∉ stretch)
    (htail : tail = [] ∨ kind = .assignment ∧ tail.head? = some ':') (out : PendingFields) :
    ∃ out', emitLiteral state kind inOperand lastPart true (stretch ++ tail) out =
        emitLiteral state kind inOperand lastPart false tail out' ∧
      out'.seen = out.seen ++
        (tildeMarks (state.vars.get (text "HOME")) (!tail.isEmpty || lastPart) stretch).map
          Mark.seen := by
  have hopen {c : Char} {rest : Text} (h : ¬(c = '~' ∧
      tildePrefixEnd kind lastPart (c :: rest) = some 1 ∧
        (state.vars.get (text "HOME")).isSome)) :
      emitLiteral state kind inOperand lastPart true (c :: rest) out =
        emitLiteral state kind inOperand lastPart false (c :: rest) out := by
    rw [emitLiteral, emitLiteral]
    simp only [true_and, Bool.false_eq_true, false_and, if_false]
    split
    · rename_i home hhome
      split_ifs at hhome with hc
      exact absurd ⟨hc.1, hc.2, by rw [hhome]; rfl⟩ h
    · rfl
  have hliteral {c : Char} {rest : Text} (hstretch : stretch = c :: rest)
      (h : ¬(c = '~' ∧ tildePrefixEnd kind lastPart (c :: (rest ++ tail)) = some 1 ∧
        (state.vars.get (text "HOME")).isSome)) :
      ∃ out', emitLiteral state kind inOperand lastPart true (stretch ++ tail) out =
          emitLiteral state kind inOperand lastPart false tail out' ∧
        out'.seen = out.seen ++ (marksOf false stretch).map Mark.seen := by
    subst hstretch
    rw [List.cons_append, hopen h]
    exact seen_emitLiteral_plain state inOperand lastPart tail hplain out
  rcases stretch with _ | ⟨c, rest⟩
  · refine ⟨out, ?_, by simp [tildeMarks, marksOf]⟩
    rcases tail with _ | ⟨d, tail⟩
    · rfl
    · obtain ⟨-, hd⟩ := htail.resolve_left (List.cons_ne_nil _ _)
      obtain rfl : d = ':' := by simpa using hd
      exact hopen (by simp)
  by_cases hc : c = '~'
  · subst hc
    cases hhome : state.vars.get (text "HOME") with
    | none => simpa [tildeMarks] using hliteral rfl (by simp [hhome])
    | some home =>
        have hiff : tildePrefixEnd kind lastPart ('~' :: (rest ++ tail)) = some 1 ↔
            rest.head? = some '/' ∨ rest = [] ∧ (!tail.isEmpty || lastPart) = true := by
          rw [tildePrefixEnd_eq_one_iff]
          rcases rest with _ | ⟨d, rest⟩
          · rcases htail with rfl | ⟨hkind, hhead⟩
            · simp
            · have hne : tail ≠ [] := by
                rintro rfl
                cases hhead
              simp [hkind, hhead, hne]
          · have hd : kind = .assignment → d ≠ ':' := by
              rintro hkind rfl
              exact hplain hkind (by simp)
            simp only [List.cons_append, List.head?_cons, Option.some.injEq, reduceCtorEq,
              false_and, or_false]
            exact or_iff_left_of_imp fun h => absurd h.2 (hd h.1)
        by_cases hkept : tildePrefixEnd kind lastPart ('~' :: (rest ++ tail)) = some 1
        · obtain ⟨out', hrest, hseen⟩ := seen_emitLiteral_plain state inOperand
            lastPart tail (fun hkind hmem => hplain hkind (List.mem_cons_of_mem _ hmem))
            (out.emitChars home true false)
          refine ⟨out', ?_, ?_⟩
          · rw [List.cons_append, emitLiteral]
            simp only [hkept, hhome, and_self, if_true, hrest]
          · rw [hseen, tildeMarks]
            simp only [if_pos (hiff.mp hkept)]
            simp
        · have hmarks : tildeMarks (some home) (!tail.isEmpty || lastPart) ('~' :: rest) =
              marksOf false ('~' :: rest) := by
            rw [tildeMarks]
            exact if_neg fun h => hkept (hiff.mpr h)
          rw [hmarks]
          exact hliteral rfl fun h => hkept h.2.1
  · have hmarks (home : Option Text) (ends : Bool) :
        tildeMarks home ends (c :: rest) = marksOf false (c :: rest) := by
      unfold tildeMarks
      split
      · rename_i heq
        cases heq
        exact absurd rfl hc
      · rfl
    rw [hmarks]
    exact hliteral rfl fun h => hc h.1

theorem seen_emitLiteral (atStart : Bool) (literal : Text) (out : PendingFields) :
    (emitLiteral state kind inOperand lastPart atStart literal out).seen =
      out.seen ++ (literalMarks (state.vars.get (text "HOME")) kind atStart lastPart literal).map
        Mark.seen := by
  have hstretch (stretch tail : Text) (atStart : Bool)
      (hplain : kind = .assignment → ':' ∉ stretch)
      (htail : tail = [] ∨ kind = .assignment ∧ tail.head? = some ':') (out : PendingFields) :
      ∃ out', emitLiteral state kind inOperand lastPart atStart (stretch ++ tail) out =
          emitLiteral state kind inOperand lastPart false tail out' ∧
        out'.seen = out.seen ++ (if atStart then
          tildeMarks (state.vars.get (text "HOME")) (!tail.isEmpty || lastPart) stretch
          else marksOf false stretch).map Mark.seen := by
    cases atStart with
    | false => exact seen_emitLiteral_plain state inOperand lastPart tail hplain out
    | true => exact seen_emitLiteral_stretch state inOperand lastPart hplain htail out
  induction hn : literal.length using Nat.strong_induction_on generalizing atStart literal out with
  | _ n ih =>
      subst hn
      by_cases hcolon : kind = .assignment ∧ ':' ∈ literal
      · obtain ⟨hkind, hmem⟩ := hcolon
        obtain ⟨stretch, rest, rfl, hfirst⟩ := List.eq_append_cons_of_mem hmem
        obtain ⟨out', hrun, hseen⟩ := hstretch stretch (':' :: rest) atStart
          (fun _ => hfirst) (.inr ⟨hkind, rfl⟩) out
        rw [hrun, emitLiteral]
        simp only [Bool.false_eq_true, false_and, if_false, hkind, beq_self_eq_true, Bool.and_self]
          at ih ⊢
        rw [ih rest.length (by simp; omega) true rest _ rfl, PendingFields.seen_emitChars, hseen,
          literalMarks, literalMarks, if_pos rfl, if_pos rfl,
          List.splitOn_append_cons_self_of_not_mem hfirst, stretchMarks]
        have hne : (rest.splitOn ':').isEmpty = false := by
          simp [List.splitOn_ne_nil]
        simp [hne, marksOf]
      · obtain ⟨out', hrun, hseen⟩ := hstretch literal [] atStart
          (fun hkind hmem => hcolon ⟨hkind, hmem⟩) (.inl rfl) out
        rw [List.append_nil] at hrun
        rw [hrun, emitLiteral, hseen, literalMarks]
        have hone : (if kind = .assignment then literal.splitOn ':' else [literal]) = [literal] := by
          split_ifs with hkind
          · exact List.splitOn_eq_singleton fun hmem => hcolon ⟨hkind, hmem⟩
          · rfl
        rw [hone]
        simp [stretchMarks]

end

/-! ## The walk -/

section

variable {ω : Type} {host : Host ω}

theorem exec_checkNounset {world : World ω} {name : Text} (h : Allowed world.state name) :
    exec (checkNounset name (resolve world.state name)) world = (.ok ⟨⟩, world) := by
  rw [checkNounset, exec_bind_ok (exec_getState world)]
  rcases h with h | h <;> simp [h]

theorem allowed_of_checkNounset {world world' : World ω} {name : Text} {u : PUnit}
    (h : exec (checkNounset name (resolve world.state name)) world = (.ok u, world')) :
    Allowed world.state name ∧ world' = world := by
  rw [checkNounset, exec_bind_ok (exec_getState world)] at h
  by_cases hallowed : Allowed world.state name
  · exact ⟨hallowed, by
      rcases hallowed with hallowed | hallowed <;> simp [hallowed] at h <;> exact h.symm⟩
  · rw [Allowed, not_or, Bool.not_eq_true, Bool.not_eq_false] at hallowed
    have hname : name ≠ ['@'] ∧ name ≠ ['*'] := by
      constructor
      · rintro rfl
        simp [resolve] at hallowed
      · rintro rfl
        simp [resolve] at hallowed
    simp [hallowed, hname, raise] at h

/-- The removal operators go by the pattern their operand is finished as. -/
theorem walkPart_removal (host : Host ω) {op : ParameterOp} (hop : isRemoval op)
    (kind : ExpansionKind) (inDoubleQuotes inOperand atStart lastPart : Bool) (name : Text)
    (operand : List WordPart) (out : PendingFields) :
    walkPart host kind inDoubleQuotes inOperand atStart lastPart (.parameter name op operand) out =
      (do
        let resolved := resolve (← getState) name
        checkNounset name resolved
        let pattern ← walkOperandToPattern host kind inOperand operand
        pure (emitPositionalStyle (← getState) inDoubleQuotes name
          (resolved.values.map fun value => removePattern value pattern (removalFor op)) out)) := by
  rcases hop with rfl | rfl | rfl | rfl <;>
    simp only [walkPart, walkOperandToPattern, bind_assoc, pure_bind]

theorem walkPart_default (host : Host ω) {op : ParameterOp}
    (hop : op = .useDefault ∨ op = .useDefaultIfUnset)
    (kind : ExpansionKind) (inDoubleQuotes inOperand atStart lastPart : Bool) (name : Text)
    (operand : List WordPart) (out : PendingFields) :
    walkPart host kind inDoubleQuotes inOperand atStart lastPart (.parameter name op operand) out =
      (do
        let resolved := resolve (← getState) name
        if op.lacks resolved then
          walkWordInto host kind inDoubleQuotes (inOperand || !inDoubleQuotes)
            (tildeAllowed kind inDoubleQuotes) operand out
        else pure (emitPositionalStyle (← getState) inDoubleQuotes name resolved.values out)) := by
  rcases hop with rfl | rfl <;> simp [walkPart, ParameterOp.lacks]

theorem walkPart_assign (host : Host ω) {op : ParameterOp}
    (hop : op = .assignDefault ∨ op = .assignDefaultIfUnset)
    (kind : ExpansionKind) (inDoubleQuotes inOperand atStart lastPart : Bool) (name : Text)
    (operand : List WordPart) (out : PendingFields) :
    walkPart host kind inDoubleQuotes inOperand atStart lastPart (.parameter name op operand) out =
      (do
        let resolved := resolve (← getState) name
        if op.lacks resolved then do
          if !isValidShellName name then raise (name ++ text ": bad variable name")
          let sub ← walkWordInto host .string inDoubleQuotes inOperand
            (tildeAllowed kind inDoubleQuotes) operand {}
          let value := finishString (← getState) sub
          assignDefault name value
          pure (out.emitValue inDoubleQuotes value)
        else pure (emitPositionalStyle (← getState) inDoubleQuotes name resolved.values out)) := by
  rcases hop with rfl | rfl <;> simp [walkPart, ParameterOp.lacks]

theorem walkPart_error (host : Host ω) {op : ParameterOp}
    (hop : op = .errorIfNull ∨ op = .errorIfUnset)
    (kind : ExpansionKind) (inDoubleQuotes inOperand atStart lastPart : Bool) (name : Text)
    (operand : List WordPart) (out : PendingFields) :
    walkPart host kind inDoubleQuotes inOperand atStart lastPart (.parameter name op operand) out =
      (do
        let resolved := resolve (← getState) name
        if op.lacks resolved then
          if operand.isEmpty then
            raise (name ++ text ": " ++ (if op = .errorIfNull then text "parameter not set or null"
              else text "parameter not set"))
          else do
            let sub ← walkWordInto host kind inDoubleQuotes inOperand
              (tildeAllowed kind inDoubleQuotes) operand {}
            raise (name ++ text ": " ++ finishString (← getState) sub)
        else pure (emitPositionalStyle (← getState) inDoubleQuotes name resolved.values out)) := by
  rcases hop with rfl | rfl <;> simp [walkPart, ParameterOp.lacks]

theorem walkPart_alternative (host : Host ω) {op : ParameterOp}
    (hop : op = .useAlternative ∨ op = .useAlternativeIfSet)
    (kind : ExpansionKind) (inDoubleQuotes inOperand atStart lastPart : Bool) (name : Text)
    (operand : List WordPart) (out : PendingFields) :
    walkPart host kind inDoubleQuotes inOperand atStart lastPart (.parameter name op operand) out =
      (do
        let resolved := resolve (← getState) name
        if op.lacks resolved then pure out
        else
          walkWordInto host kind inDoubleQuotes (inOperand || !inDoubleQuotes)
            (tildeAllowed kind inDoubleQuotes) operand out) := by
  rcases hop with rfl | rfl <;> simp only [walkPart, ParameterOp.lacks] <;> congr 1 <;> funext state
  · by_cases hset : (resolve state name).isSet = true <;>
      by_cases hnull : (resolve state name).isNull = true <;> simp [hset, hnull]
  · by_cases hset : (resolve state name).isSet = true <;> simp [hset]

theorem removePattern_of_removes {values results : List Text} {reading : Reading}
    {which : PatternRemoval}
    (h : List.Forall₂ (fun value result => Removes reading.Matches value which result) values
      results) :
    results = values.map fun value => removePattern value reading.string which := by
  induction h with
  | nil => rfl
  | cons hremoves _ ih =>
      rw [List.map_cons, ih, hremoves.unique (removePattern_removes _ reading.string which)]

theorem removes_removePattern (values : List Text) (reading : Reading) (which : PatternRemoval) :
    List.Forall₂ (fun value result => Removes reading.Matches value which result) values
      (values.map fun value => removePattern value reading.string which) := by
  rw [List.forall₂_map_right_iff]
  exact List.forall₂_same.mpr fun value _ => removePattern_removes value reading.string which

mutual

theorem PartReads.walk {kind : ExpansionKind} {quoted atStart lastPart : Bool} {part : WordPart}
    {world world' : World ω} {marks : List Mark} {operands : List Reading}
    (h : PartReads host Reading.Matches kind quoted atStart lastPart part world marks operands world')
    (inOperand : Bool) (out : PendingFields) :
    ∃ out', exec (walkPart host kind quoted inOperand atStart lastPart part out) world =
        (.ok out', world') ∧ out'.seen = out.seen ++ marks.map Mark.seen := by
  cases h with
  | literal => exact ⟨_, rfl, seen_emitLiteral _ _ _ _ _ _⟩
  | quoted => exact ⟨_, rfl, by simp⟩
  | doubleQuoted inner =>
      rename_i parts
      obtain ⟨out', hrun, hseen⟩ := inner.walk inOperand
        (if onlyPlainAt parts then out else out.emitQuoteMark)
      exact ⟨out', hrun, by rw [hseen]; split_ifs <;> simp⟩
  | commandSubstitution run =>
      rw [walkPart, exec_bind_ok run]
      exact ⟨_, rfl, by simp⟩
  | arithmetic inner evaluated =>
      obtain ⟨out', hrun, hseen⟩ := inner.walk inOperand {}
      rw [walkPart, exec_bind_ok hrun, exec_bind_ok (exec_getState _), finishString_eq hseen,
        exec_bind_ok evaluated]
      exact ⟨_, rfl, by simp⟩
  | value allowed =>
      rw [walkPart, exec_bind_ok (exec_getState world), exec_bind_ok (exec_checkNounset allowed)]
      exact ⟨_, rfl, seen_emitPositionalStyle _ _ (length_resolve_le _) _⟩
  | length allowed =>
      rw [walkPart, exec_bind_ok (exec_getState world), exec_bind_ok (exec_checkNounset allowed)]
      exact ⟨_, rfl, by simp [lengthOf]⟩
  | removal hop allowed inner removed =>
      rename_i name op operand marks operands values
      obtain ⟨sub, hrun, hseen⟩ := inner.walk inOperand {}
      have hvalues := removePattern_of_removes removed
      have hone : name ≠ ['@'] → name ≠ ['*'] → values.length ≤ 1 := by
        intro hat hstar
        rw [hvalues, List.length_map]
        exact length_resolve_le _ hat hstar
      refine ⟨_, ?_, seen_emitPositionalStyle world'.state quoted hone out⟩
      rw [walkPart_removal host hop, exec_bind_ok (exec_getState world),
        exec_bind_ok (exec_checkNounset allowed), walkOperandToPattern, bind_assoc,
        exec_bind_ok hrun, bind_assoc, exec_bind_ok (exec_getState world'), finishPattern_eq hseen,
        hvalues]
      rfl
  | present hop present =>
      rename_i name op operand
      refine ⟨_, ?_, seen_emitPositionalStyle world.state quoted (length_resolve_le _) out⟩
      rcases hop with hop | hop | hop
      · rw [walkPart_default host hop, exec_bind_ok (exec_getState world), if_neg (by simp [present])]
        rfl
      · rw [walkPart_assign host hop, exec_bind_ok (exec_getState world), if_neg (by simp [present])]
        rfl
      · rw [walkPart_error host hop, exec_bind_ok (exec_getState world), if_neg (by simp [present])]
        rfl
  | useDefault hop lacks inner =>
      obtain ⟨out', hrun, hseen⟩ := inner.walk (inOperand || !quoted) out
      refine ⟨out', ?_, hseen⟩
      rw [walkPart_default host hop, exec_bind_ok (exec_getState world), if_pos lacks, hrun]
  | assignDefault hop lacks hname inner assigned =>
      obtain ⟨sub, hrun, hseen⟩ := inner.walk inOperand {}
      refine ⟨_, ?_, PendingFields.seen_emitValue out quoted _⟩
      rw [walkPart_assign host hop, exec_bind_ok (exec_getState world), if_pos lacks,
        if_neg (by simp [hname]), exec_bind_ok hrun,
        exec_bind_ok (exec_getState _), finishString_eq hseen, exec_bind_ok assigned]
      rfl
  | useAlternative hop present inner =>
      obtain ⟨out', hrun, hseen⟩ := inner.walk (inOperand || !quoted) out
      refine ⟨out', ?_, hseen⟩
      rw [walkPart_alternative host hop, exec_bind_ok (exec_getState world),
        if_neg (by simp [present]), hrun]
  | noAlternative hop lacks =>
      refine ⟨out, ?_, by simp⟩
      rw [walkPart_alternative host hop, exec_bind_ok (exec_getState world), if_pos lacks]
      rfl

theorem WordReads.walk {kind : ExpansionKind} {quoted atStart : Bool} {parts : List WordPart}
    {world world' : World ω} {marks : List Mark} {operands : List Reading}
    (h : WordReads host Reading.Matches kind quoted atStart parts world marks operands world')
    (inOperand : Bool) (out : PendingFields) :
    ∃ out', exec (walkWordInto host kind quoted inOperand atStart parts out) world =
        (.ok out', world') ∧ out'.seen = out.seen ++ marks.map Mark.seen := by
  cases h with
  | nil => exact ⟨out, rfl, by simp⟩
  | cons first rest =>
      obtain ⟨out', hrun, hseen⟩ := first.walk inOperand out
      obtain ⟨out'', hrun', hseen'⟩ := rest.walk inOperand out'
      exact ⟨out'', by rw [walkWordInto, exec_bind_ok hrun, hrun'], by simp [hseen', hseen]⟩

end

def ReadsBy (walk : PendingFields → Walk ω PendingFields)
    (reads : World ω → List Mark → List Reading → World ω → Prop) : Prop :=
  ∀ {out out' world world'}, exec (walk out) world = (.ok out', world') →
    ∃ marks operands, reads world marks operands world' ∧
      out'.seen = out.seen ++ marks.map Mark.seen

theorem walkPart_removal_reads {operand : List WordPart}
    (hoperand : ∀ kind quoted inOperand atStart,
      ReadsBy (walkWordInto host kind quoted inOperand atStart operand)
        (WordReads host Reading.Matches kind quoted atStart operand))
    (kind : ExpansionKind) (quoted inOperand atStart lastPart : Bool) (name : Text)
    {op : ParameterOp} (hop : isRemoval op) :
    ReadsBy (walkPart host kind quoted inOperand atStart lastPart (.parameter name op operand))
      (PartReads host Reading.Matches kind quoted atStart lastPart
        (.parameter name op operand)) := by
  intro out out' world world' h
  rw [walkPart_removal host hop, exec_bind_ok (exec_getState world)] at h
  obtain ⟨_, start, hallowed, h⟩ := exec_bind_eq_ok.mp h
  obtain ⟨hallowed, rfl⟩ := allowed_of_checkNounset hallowed
  rw [walkOperandToPattern, bind_assoc] at h
  obtain ⟨sub, between, hrun, h⟩ := exec_bind_eq_ok.mp h
  obtain ⟨marks, operands, hreads, hseen⟩ := hoperand _ _ _ _ hrun
  rw [bind_assoc, exec_bind_ok (exec_getState between), pure_bind, finishPattern_eq hseen] at h
  cases h
  have hremoved := removes_removePattern (resolve start.state name).values ⟨ifsSeparator world'.state, marks⟩
    (removalFor op)
  refine ⟨_, _, .removal hop hallowed hreads hremoved, ?_⟩
  refine seen_emitPositionalStyle _ _ (fun hat hstar => ?_) _
  rw [List.length_map]
  exact length_resolve_le _ hat hstar

theorem reads_present {kind : ExpansionKind} {quoted atStart lastPart : Bool} {name : Text}
    {op : ParameterOp} {operand : List WordPart} {out out' : PendingFields} {world world' : World ω}
    (hop : (op = .useDefault ∨ op = .useDefaultIfUnset) ∨
      (op = .assignDefault ∨ op = .assignDefaultIfUnset) ∨ op = .errorIfNull ∨ op = .errorIfUnset)
    (hlacks : ¬op.lacks (resolve world.state name) = true)
    (h : exec (do pure (emitPositionalStyle (← getState) quoted name
      (resolve world.state name).values out) : Walk ω _) world = (.ok out', world')) :
    ∃ marks operands, PartReads host Reading.Matches kind quoted atStart lastPart
        (.parameter name op operand) world marks operands world' ∧
      out'.seen = out.seen ++ marks.map Mark.seen := by
  cases h
  exact ⟨_, _, .present hop (Bool.not_eq_true _ ▸ hlacks),
    seen_emitPositionalStyle _ _ (length_resolve_le _) _⟩

theorem walkPart_assign_reads {operand : List WordPart}
    (hoperand : ∀ kind quoted inOperand atStart,
      ReadsBy (walkWordInto host kind quoted inOperand atStart operand)
        (WordReads host Reading.Matches kind quoted atStart operand))
    (kind : ExpansionKind) (quoted inOperand atStart lastPart : Bool) (name : Text)
    {op : ParameterOp} (hop : op = .assignDefault ∨ op = .assignDefaultIfUnset) :
    ReadsBy (walkPart host kind quoted inOperand atStart lastPart (.parameter name op operand))
      (PartReads host Reading.Matches kind quoted atStart lastPart
        (.parameter name op operand)) := by
  intro out out' world world' h
  rw [walkPart_assign host hop, exec_bind_ok (exec_getState world)] at h
  dsimp only at h
  split at h
  · rename_i hlacks
    by_cases hname : isValidShellName name = true
    · rw [if_neg (by simp [hname])] at h
      obtain ⟨sub, between, hrun, h⟩ := exec_bind_eq_ok.mp h
      obtain ⟨marks, operands, hreads, hseen⟩ := hoperand _ _ _ _ hrun
      rw [exec_bind_ok (exec_getState between), finishString_eq hseen] at h
      obtain ⟨_, _, hassigned, h⟩ := exec_bind_eq_ok.mp h
      cases h
      exact ⟨_, _, .assignDefault hop hlacks hname hreads hassigned,
        PendingFields.seen_emitValue _ _ _⟩
    · rw [if_pos (by simp [hname])] at h
      cases h
  · exact reads_present (.inr (.inl hop)) ‹_› h

theorem walkPart_parameter_reads {operand : List WordPart}
    (hoperand : ∀ kind quoted inOperand atStart,
      ReadsBy (walkWordInto host kind quoted inOperand atStart operand)
        (WordReads host Reading.Matches kind quoted atStart operand))
    (kind : ExpansionKind) (quoted inOperand atStart lastPart : Bool) (name : Text)
    (op : ParameterOp) :
    ReadsBy (walkPart host kind quoted inOperand atStart lastPart (.parameter name op operand))
      (PartReads host Reading.Matches kind quoted atStart lastPart
        (.parameter name op operand)) := by
  intro out out' world world' h
  cases op
  case bad =>
    rw [walkPart] at h
    cases h
  case none =>
    rw [walkPart, exec_bind_ok (exec_getState world)] at h
    obtain ⟨_, _, hallowed, h⟩ := exec_bind_eq_ok.mp h
    obtain ⟨hallowed, rfl⟩ := allowed_of_checkNounset hallowed
    cases h
    exact ⟨_, _, .value hallowed, seen_emitPositionalStyle _ _ (length_resolve_le _) _⟩
  case length =>
    rw [walkPart, exec_bind_ok (exec_getState world)] at h
    obtain ⟨_, _, hallowed, h⟩ := exec_bind_eq_ok.mp h
    obtain ⟨hallowed, rfl⟩ := allowed_of_checkNounset hallowed
    cases h
    exact ⟨_, _, .length hallowed, PendingFields.seen_emitValue _ _ _⟩
  case removeSmallestSuffix | removeLargestSuffix | removeSmallestPrefix | removeLargestPrefix =>
    exact walkPart_removal_reads hoperand _ _ _ _ _ _ (by simp [isRemoval]) h
  case useDefault | useDefaultIfUnset =>
    rw [walkPart_default host (by simp), exec_bind_ok (exec_getState world)] at h
    dsimp only at h
    split at h
    · rename_i hlacks
      obtain ⟨marks, operands, hreads, hseen⟩ := hoperand _ _ _ _ h
      exact ⟨marks, operands, .useDefault (by simp) hlacks hreads, hseen⟩
    · exact reads_present (by simp) ‹_› h
  case assignDefault | assignDefaultIfUnset =>
    exact walkPart_assign_reads hoperand _ _ _ _ _ _ (by simp) h
  case errorIfNull | errorIfUnset =>
    rw [walkPart_error host (by simp), exec_bind_ok (exec_getState world)] at h
    dsimp only at h
    split at h
    · split at h
      · cases h
      · obtain ⟨_, _, -, h⟩ := exec_bind_eq_ok.mp h
        cases h
    · exact reads_present (by simp) ‹_› h
  case useAlternative | useAlternativeIfSet =>
    rw [walkPart_alternative host (by simp), exec_bind_ok (exec_getState world)] at h
    dsimp only at h
    split at h
    · cases h
      exact ⟨[], [], .noAlternative (by simp) ‹_›, by simp⟩
    · obtain ⟨marks, operands, hreads, hseen⟩ := hoperand _ _ _ _ h
      exact ⟨marks, operands, .useAlternative (by simp) (Bool.not_eq_true _ ▸ ‹_›) hreads, hseen⟩

mutual

theorem walkPart_reads : ∀ (part : WordPart) (kind : ExpansionKind)
    (quoted inOperand atStart lastPart : Bool),
    ReadsBy (walkPart host kind quoted inOperand atStart lastPart part)
      (PartReads host Reading.Matches kind quoted atStart lastPart part)
  | .literal _, _, _, _, _, _, _, _, _, _, h => by
      cases h
      exact ⟨_, _, .literal, seen_emitLiteral _ _ _ _ _ _⟩
  | .quoted _, _, _, _, _, _, _, _, _, _, h => by
      cases h
      exact ⟨_, _, .quoted, by simp⟩
  | .doubleQuoted parts, kind, _, inOperand, _, _, out, _, _, _, h => by
      obtain ⟨marks, operands, hreads, hseen⟩ := walkWordInto_reads parts kind true inOperand false h
      exact ⟨marks, operands, .doubleQuoted hreads, by rw [hseen]; split_ifs <;> simp⟩
  | .commandSubstitution source _ line, _, _, _, _, _, _, _, _, _, h => by
      rw [walkPart] at h
      obtain ⟨output, _, hrun, h⟩ := exec_bind_eq_ok.mp h
      cases h
      exact ⟨_, _, .commandSubstitution hrun, by simp⟩
  | .arithmetic parts, kind, quoted, inOperand, _, _, _, _, _, _, h => by
      rw [walkPart] at h
      obtain ⟨expression, between, hrun, h⟩ := exec_bind_eq_ok.mp h
      obtain ⟨marks, operands, hreads, hseen⟩ :=
        walkWordInto_reads parts kind quoted inOperand false hrun
      rw [exec_bind_ok (exec_getState between), finishString_eq hseen] at h
      obtain ⟨value, _, hvalue, h⟩ := exec_bind_eq_ok.mp h
      cases h
      exact ⟨_, _, .arithmetic hreads hvalue, by simp⟩
  | .parameter _ _ operand, _, _, _, _, _, _, _, _, _, h =>
      walkPart_parameter_reads (fun kind quoted inOperand atStart =>
        walkWordInto_reads operand kind quoted inOperand atStart) _ _ _ _ _ _ _ h

theorem walkWordInto_reads : ∀ (parts : List WordPart) (kind : ExpansionKind)
    (quoted inOperand atStart : Bool),
    ReadsBy (walkWordInto host kind quoted inOperand atStart parts)
      (WordReads host Reading.Matches kind quoted atStart parts)
  | [], _, _, _, _, _, _, _, _, h => by
      cases h
      exact ⟨_, _, .nil, by simp⟩
  | part :: parts, kind, quoted, inOperand, _, _, _, _, _, h => by
      rw [walkWordInto] at h
      obtain ⟨between, _, hfirst, hrest⟩ := exec_bind_eq_ok.mp h
      obtain ⟨marks, operands, hreads, hseen⟩ := walkPart_reads part kind quoted inOperand _ _ hfirst
      obtain ⟨marks', operands', hreads', hseen'⟩ :=
        walkWordInto_reads parts kind quoted inOperand false hrest
      exact ⟨_, _, .cons hreads hreads', by simp [hseen', hseen]⟩

end

end

end Haisos.Hsh
