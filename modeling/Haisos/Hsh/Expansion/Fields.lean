import Haisos.Hsh.Expansion.Frame
import Haisos.Hsh.Expansion.Walk

/-!
# The fields of a command

What the words of a command stand for where they hold no command substitution:
the state and the directories decide.  Text alone stands for itself, or for the
paths that it matches.
-/

namespace Haisos.Hsh

open StateExcept

variable {ω : Type}

/-! ## Any host -/

section

variable (host host' : Host ω)

mutual

theorem walkPart_host (kind : ExpansionKind) (inDoubleQuotes inOperand atStart lastPart : Bool) :
    ∀ part, holdsCommandSubstitution part = false → ∀ out,
      walkPart host kind inDoubleQuotes inOperand atStart lastPart part out =
        walkPart host' kind inDoubleQuotes inOperand atStart lastPart part out
  | .literal _, _, _ => by rw [walkPart, walkPart]
  | .quoted _, _, _ => by rw [walkPart, walkPart]
  | .commandSubstitution _ _ _, h, _ => by
      rw [holdsCommandSubstitution] at h
      cases h
  | .doubleQuoted parts, h, out => by
      rw [holdsCommandSubstitution] at h
      rw [walkPart, walkPart, walkWordInto_host kind true inOperand false parts h]
  | .arithmetic parts, h, out => by
      rw [holdsCommandSubstitution] at h
      rw [walkPart, walkPart, walkWordInto_host kind inDoubleQuotes inOperand false parts h]
  | .parameter name op operand, h, out => by
      rw [holdsCommandSubstitution] at h
      have hoperand (kind : ExpansionKind) (inDoubleQuotes inOperand tildeHere : Bool)
          (out : PendingFields) :
          walkWordInto host kind inDoubleQuotes inOperand tildeHere operand out =
            walkWordInto host' kind inDoubleQuotes inOperand tildeHere operand out :=
        walkWordInto_host kind inDoubleQuotes inOperand tildeHere operand h out
      rw [walkPart, walkPart]
      simp only [hoperand]

theorem walkWordInto_host (kind : ExpansionKind) (inDoubleQuotes inOperand tildeHere : Bool) :
    ∀ parts, partsHoldCommandSubstitution parts = false → ∀ out,
      walkWordInto host kind inDoubleQuotes inOperand tildeHere parts out =
        walkWordInto host' kind inDoubleQuotes inOperand tildeHere parts out
  | [], _, _ => by rw [walkWordInto, walkWordInto]
  | part :: parts, h, out => by
      rw [partsHoldCommandSubstitution, Bool.or_eq_false_iff] at h
      rw [walkWordInto, walkWordInto,
        walkPart_host kind inDoubleQuotes inOperand tildeHere _ part h.1]
      simp only [walkWordInto_host kind inDoubleQuotes inOperand false parts h.2]

end

end

/-! ## Any world of a state -/

def ByState {α : Type} (m : Walk ω α) : Prop :=
  ∃ f : ShellState → Except Failure α × ShellState,
    ∀ world, exec m world = ((f world.state).1, { world with state := (f world.state).2 })

namespace ByState

theorem pure {α : Type} (a : α) : ByState (Pure.pure a : Walk ω α) :=
  ⟨fun state => (.ok a, state), fun _ => rfl⟩

theorem bind {α β : Type} {m : Walk ω α} {f : α → Walk ω β} (hm : ByState m)
    (hf : ∀ a, ByState (f a)) : ByState (m >>= f) := by
  obtain ⟨first, hfirst⟩ := hm
  choose next hnext using hf
  refine ⟨fun state =>
    match first state with
    | (.ok a, state) => next a state
    | (.error failure, state) => (.error failure, state), fun world => ?_⟩
  rw [exec_bind, hfirst]
  dsimp only
  rcases first world.state with ⟨failure | a, state⟩
  · rfl
  · exact hnext a _

theorem throw {α : Type} (failure : Failure) :
    ByState (MonadExcept.throw failure : Walk ω α) :=
  ⟨fun state => (.error failure, state), fun _ => rfl⟩

theorem setState (state : ShellState) : ByState (Hsh.setState state : Walk ω Unit) :=
  ⟨fun _ => (.ok (), state), fun _ => rfl⟩

theorem getState : ByState (Hsh.getState : Walk ω ShellState) :=
  ⟨fun state => (.ok state, state), fun _ => rfl⟩

theorem arithmeticValue (expression : Text) : ByState (Hsh.arithmeticValue expression : Walk ω Text) := by
  refine bind getState fun state => ?_
  split
  · exact bind (setState _) fun _ => pure _
  · exact bind (setState _) fun _ => throw _
  · exact throw _

theorem assignDefault (name value : Text) : ByState (Hsh.assignDefault name value : Walk ω Unit) := by
  refine bind getState fun state => ?_
  split
  · exact setState _
  · exact throw _

theorem walkFrame : WalkFrame fun {_} (m : Walk ω _) => ByState m where
  pure := pure
  bind := bind
  getState := getState
  raise _ := throw _
  arithmetic := arithmeticValue
  assign := assignDefault

theorem result_eq {α : Type} {m : Walk ω α} (hm : ByState m) {world world' : World ω}
    (h : world'.state = world.state) : (exec m world').1 = (exec m world).1 := by
  obtain ⟨f, hf⟩ := hm
  rw [hf, hf, h]

end ByState

/-! ## Fields -/

def directoryHost (source : PathnameSource) : Host ω where
  runCommandSubstitution _ _ _ outside := (.ok {}, outside)
  pathnames _ := source

def fieldsIn (source : PathnameSource) (words : List Word) (world : World ω) :
    Option (List Text) :=
  match (exec (expandWords (directoryHost source) words) world).1 with
  | .ok fields => some fields
  | .error _ => none

theorem byState_expandWord (source : PathnameSource) {word : Word}
    (h : partsHoldCommandSubstitution word.parts = false) :
    ByState (expandWord (directoryHost source : Host ω) word) := by
  have hwalk : ByState (walkWord (directoryHost source : Host ω) .fields word.parts) :=
    ByState.walkFrame.walkWordInto .fields false false _ word.parts (fun hparts => by simp [h] at hparts) _
  refine hwalk.bind fun out => ?_
  exact ⟨fun state => (.ok (finishFields state source out), state), fun _ => rfl⟩

theorem byState_expandWords (source : PathnameSource) {words : List Word}
    (h : words.any (partsHoldCommandSubstitution ·.parts) = false) :
    ByState (expandWords (directoryHost source : Host ω) words) := by
  refine ByState.bind (ByState.walkFrame.mapM fun word hword => ?_) fun _ => ByState.pure _
  exact byState_expandWord source (by simpa using List.any_eq_false.mp h word hword)

theorem exec_expandWord_directory (host : Host ω) {word : Word}
    (h : partsHoldCommandSubstitution word.parts = false) (world : World ω) :
    exec (expandWord host word) world =
      exec (expandWord (directoryHost (host.pathnames world.outside)) word) world := by
  have hkeeps : KeepsOutside (walkWord host .fields word.parts) :=
    keepsOutside_frame.walkWordInto .fields false false _ word.parts (fun hparts => by simp [h] at hparts) _
  have hwalk := walkWordInto_host host (directoryHost (host.pathnames world.outside)) .fields false
    false (tildeAllowed .fields false) word.parts h {}
  have houtside := hkeeps world
  rw [expandWord, expandWord, walkWord, walkWord, ← hwalk, exec_bind, exec_bind]
  rw [walkWord] at houtside
  rcases hrun : exec (walkWordInto host .fields false false (tildeAllowed .fields false) word.parts
    {}) world with ⟨failure | out, world'⟩
  · rfl
  · rw [hrun] at houtside
    have hsame : world'.outside = world.outside := houtside
    change (Except.ok (finishFields world'.state (host.pathnames world'.outside) out), world') = _
    rw [hsame]
    rfl

theorem exec_expandWords_directory (host : Host ω) {words : List Word}
    (h : words.any (partsHoldCommandSubstitution ·.parts) = false) (world : World ω) :
    exec (expandWords host words) world =
      exec (expandWords (directoryHost (host.pathnames world.outside)) words) world := by
  suffices hmap : exec (words.mapM (expandWord host)) world =
      exec (words.mapM (expandWord (directoryHost (host.pathnames world.outside)))) world by
    rw [expandWords, expandWords, exec_bind, exec_bind, hmap]
  induction words generalizing world with
  | nil => rw [List.mapM_nil, List.mapM_nil]
  | cons word rest ih =>
      rw [List.any_cons, Bool.or_eq_false_iff] at h
      rw [List.mapM_cons, List.mapM_cons, exec_bind, exec_bind,
        exec_expandWord_directory host h.1 world]
      have hkeeps : KeepsOutside
          (expandWord (directoryHost (host.pathnames world.outside) : Host ω) word) :=
        keepsOutside_frame.expandWord fun hparts => by simp [h.1] at hparts
      have houtside := hkeeps world
      rcases hrun : exec (expandWord (directoryHost (host.pathnames world.outside)) word) world with
        ⟨failure | fields, world'⟩
      · rfl
      · rw [hrun] at houtside
        have hsame : world'.outside = world.outside := houtside
        have hrest := ih h.2 world'
        rw [hsame] at hrest
        dsimp only
        rw [exec_bind, exec_bind, hrest]

/-! ## Words of text alone -/

def Mark.element : Mark → Element
  | .char c quoted => .char c quoted false
  | .next _ => .quoteMark

def textMarks (home : Option Text) : Bool → List WordPart → List Mark
  | atStart, .literal literal :: parts =>
      literalMarks home .fields atStart parts.isEmpty literal ++ textMarks home false parts
  | _, _ => []

/-- The fields of a word of text alone: itself, the paths that it matches, or none. -/
def textFields (state : ShellState) (source : PathnameSource) (word : Word) : List Text :=
  match textMarks (state.vars.get (text "HOME")) true word.parts with
  | [] => []
  | marks => finishField state source (marks.map Mark.element)

def Element.Unsplit (element : Element) : Prop := ∃ c quoted, element = .char c quoted false

theorem emitLiteral_elements (state : ShellState) (kind : ExpansionKind) (lastPart : Bool)
    (literal : Text) (atStart : Bool) (out : PendingFields) :
    ∃ elements, emitLiteral state kind false lastPart atStart literal out =
        out.emitElements elements ∧
      ∀ element ∈ elements, element.Unsplit := by
  induction literal generalizing atStart out with
  | nil => exact ⟨[], by simp [emitLiteral, PendingFields.emitElements], nofun⟩
  | cons c rest ih =>
      have hemit (text : Text) (quoted atStart : Bool) :
          ∃ elements, emitLiteral state kind false lastPart atStart rest
              (out.emitChars text quoted false) = out.emitElements elements ∧
            ∀ element ∈ elements, element.Unsplit := by
        obtain ⟨elements, hrest, hplain⟩ := ih atStart (out.emitChars text quoted false)
        refine ⟨text.map (.char · quoted false) ++ elements, ?_, ?_⟩
        · rw [hrest]
          simp [PendingFields.emitChars, PendingFields.emitElements]
        · intro element hmem
          rcases List.mem_append.mp hmem with hmem | hmem
          · obtain ⟨c, -, rfl⟩ := List.mem_map.mp hmem
            exact ⟨c, quoted, rfl⟩
          · exact hplain element hmem
      rw [emitLiteral]
      split
      · exact hemit _ true false
      · exact hemit [c] false _

theorem map_element_of_seen {elements : List Element} {marks : List Mark}
    (hplain : ∀ element ∈ elements, element.Unsplit)
    (hseen : (markedOf elements).map some = marks.map Mark.seen) :
    elements = marks.map Mark.element := by
  induction elements generalizing marks with
  | nil =>
      rw [eq_comm, markedOf, List.filterMap_nil, List.map_nil, List.map_eq_nil_iff] at hseen
      rw [hseen, List.map_nil]
  | cons element elements ih =>
      obtain ⟨c, quoted, rfl⟩ := hplain element List.mem_cons_self
      have hmarked : markedOf (.char c quoted false :: elements) =
          (c, quoted) :: markedOf elements := rfl
      rw [hmarked, List.map_cons, eq_comm, List.map_eq_cons_iff] at hseen
      obtain ⟨mark, rest, rfl, hmark, hrest⟩ := hseen
      rw [List.map_cons, ← ih (fun e he => hplain e (List.mem_cons_of_mem _ he)) hrest.symm]
      cases mark with
      | char c' quoted' =>
          cases hmark
          rfl
      | next => cases hmark

theorem emitLiteral_eq (state : ShellState) (kind : ExpansionKind) (lastPart atStart : Bool)
    (literal : Text) (out : PendingFields) :
    let elements := (literalMarks (state.vars.get (text "HOME")) kind atStart lastPart literal).map
      Mark.element
    emitLiteral state kind false lastPart atStart literal out = out.emitElements elements ∧
      ∀ element ∈ elements, element.Unsplit := by
  obtain ⟨elements, hemit, hplain⟩ := emitLiteral_elements state kind lastPart literal atStart out
  have hseen : (emitLiteral state kind false lastPart atStart literal out).seen = _ :=
    seen_emitLiteral state false lastPart atStart literal out
  rw [hemit, PendingFields.seen_emitElements] at hseen
  have helements := map_element_of_seen hplain (List.append_cancel_left hseen)
  dsimp only
  rw [← helements]
  exact ⟨hemit, hplain⟩

theorem textMarks_unsplit (state : ShellState) :
    ∀ (parts : List WordPart) (atStart : Bool),
      ∀ element ∈ (textMarks (state.vars.get (text "HOME")) atStart parts).map Mark.element,
        element.Unsplit
  | [], _ => by simp [textMarks]
  | .literal literal :: parts, atStart => by
      intro element hmem
      rw [textMarks, List.map_append, List.mem_append] at hmem
      rcases hmem with hmem | hmem
      · exact (emitLiteral_eq state .fields parts.isEmpty atStart literal {}).2 element hmem
      · exact textMarks_unsplit state parts false element hmem
  | .quoted _ :: _, _ | .doubleQuoted _ :: _, _ | .parameter _ _ _ :: _, _
  | .commandSubstitution _ _ _ :: _, _ | .arithmetic _ :: _, _ => by simp [textMarks]

theorem exec_walkWordInto_text (host : Host ω) (world : World ω) {parts : List WordPart}
    (h : (literalTextOf parts).isSome) (atStart : Bool) (out : PendingFields) :
    exec (walkWordInto host .fields false false atStart parts out) world =
      (.ok (out.emitElements ((textMarks (world.state.vars.get (text "HOME")) atStart parts).map
        Mark.element)), world) := by
  induction parts generalizing atStart out with
  | nil =>
      have hmarks : textMarks (world.state.vars.get (text "HOME")) atStart [] = [] := by
        simp [textMarks]
      rw [walkWordInto, hmarks]
      simp [PendingFields.emitElements]
  | cons part parts ih =>
      cases part with
      | literal literal =>
          rw [literalTextOf, Option.isSome_map] at h
          have hpart : exec (walkPart host .fields false false atStart parts.isEmpty
              (.literal literal) out) world = (.ok (emitLiteral world.state .fields false
                parts.isEmpty atStart literal out), world) := by
            rw [walkPart]
            rfl
          rw [walkWordInto, exec_bind_ok hpart, ih h, (emitLiteral_eq _ _ _ _ _ _).1, textMarks]
          simp [PendingFields.emitElements]
      | _ => cases h

theorem splitField_unsplit (ifs : Text) {field : List Element}
    (hplain : ∀ element ∈ field, element.Unsplit) :
    splitField ifs field = if field = [] then [] else [field] := by
  have hmark : field.filter (· ≠ .quoteMark) = field := by
    refine List.filter_eq_self.mpr fun element hmem => ?_
    obtain ⟨c, quoted, rfl⟩ := hplain element hmem
    rfl
  have hloop (passing afterWhite : Bool) (current : List Element) (content : Bool) :
      splitLoop ifs passing afterWhite current content field =
        if content ∨ field ≠ [] then [current ++ field] else [] := by
    clear hmark
    induction field generalizing passing afterWhite current content with
    | nil => cases content <;> simp [splitLoop]
    | cons element field ih =>
        obtain ⟨c, quoted, rfl⟩ := hplain element List.mem_cons_self
        rw [splitLoop]
        simp only [splitsWhite, splitsNonWhite, Bool.false_eq_true, and_false, if_false,
          reduceCtorEq]
        rw [ih fun element hmem => hplain element (List.mem_cons_of_mem _ hmem)]
        simp
  rw [splitField, hmark]
  by_cases hifs : ifs = []
  · rw [if_pos hifs]
  · rw [if_neg hifs, hloop]
    by_cases hfield : field = []
    · simp [hfield]
    · simp [hfield]

theorem exec_expandWord_text (host : Host ω) {word : Word} (h : word.literalText.isSome)
    (world : World ω) :
    exec (expandWord host word) world =
      (.ok (textFields world.state (host.pathnames world.outside) word), world) := by
  have hwalk := exec_walkWordInto_text host world h true {}
  have htilde : tildeAllowed .fields false = true := rfl
  rw [expandWord, walkWord, htilde, exec_bind_ok hwalk, exec_bind_ok (exec_get world), exec_pure]
  refine congrArg (fun fields => (Except.ok fields, world)) ?_
  rw [finishFields, PendingFields.fields]
  simp only [PendingFields.emitElements, List.nil_append, List.flatMap_singleton]
  rw [splitField_unsplit _ (textMarks_unsplit world.state word.parts true), textFields]
  rcases textMarks (world.state.vars.get (text "HOME")) true word.parts with _ | ⟨mark, marks⟩
  · rfl
  · simp

/-! ## The first field -/

/-- `Q` of the first field of the words, or of there being none, unless they fail to expand. -/
def FirstField (Q : Option Text → Prop) (source : PathnameSource) (words : List Word)
    (world : World ω) : Prop :=
  match words with
  | [] => Q none
  | first :: rest =>
      match textFields world.state source first with
      | name :: _ => Q (some name)
      -- A tilde may stand for nothing: the words after it say which is the first field.
      | [] => ∀ fields, fieldsIn source rest world = some fields → Q fields.head?

theorem exec_expandWords_cons (host : Host ω) {first : Word} (hfirst : first.literalText.isSome)
    (rest : List Word) (world : World ω) :
    exec (expandWords host (first :: rest)) world =
      match exec (expandWords host rest) world with
      | (.ok fields, ended) =>
          (.ok (textFields world.state (host.pathnames world.outside) first ++ fields), ended)
      | (.error failure, ended) => (.error failure, ended) := by
  rw [expandWords, expandWords, List.mapM_cons, exec_bind, exec_bind,
    exec_expandWord_text host hfirst, exec_bind]
  dsimp only
  rw [exec_bind]
  rcases exec (rest.mapM (expandWord host)) world with ⟨failure | fields, ended⟩
  · rfl
  · rfl

section

variable {Q : Option Text → Prop} {host : Host ω} {words : List Word}

theorem FirstField.of_exec {first : Word} {rest : List Word} {world ended : World ω}
    {fields : List Text} (hfirst : first.literalText.isSome)
    (hrest : rest.any (partsHoldCommandSubstitution ·.parts) = false)
    (h : FirstField Q (host.pathnames world.outside) (first :: rest) world)
    (hrun : exec (expandWords host (first :: rest)) world = (.ok fields, ended)) :
    Q fields.head? := by
  rw [exec_expandWords_cons host hfirst] at hrun
  rw [FirstField] at h
  rcases hexpand : exec (expandWords host rest) world with ⟨failure | others, ended'⟩
  · rw [hexpand] at hrun
    cases hrun
  · rw [hexpand] at hrun
    obtain ⟨rfl, -⟩ : textFields world.state (host.pathnames world.outside) first ++ others =
        fields ∧ ended' = ended := by simpa using hrun
    rcases htext : textFields world.state (host.pathnames world.outside) first with _ | ⟨name, names⟩
    · rw [htext] at h
      refine h others ?_
      rw [fieldsIn, ← exec_expandWords_directory host hrest, hexpand]
    · rw [htext] at h
      exact h

theorem FirstField.of_state {source : PathnameSource} {world world' : World ω}
    (hwords : words.any (partsHoldCommandSubstitution ·.parts) = false)
    (hstate : world'.state = world.state) (h : FirstField Q source words world) :
    FirstField Q source words world' := by
  cases words with
  | nil => exact h
  | cons first rest =>
      rw [List.any_cons, Bool.or_eq_false_iff] at hwords
      have hfields : fieldsIn source rest world' = fieldsIn source rest world := by
        rw [fieldsIn, fieldsIn, (byState_expandWords source hwords.2).result_eq hstate]
      rw [FirstField, hstate, hfields]
      exact h

end

end Haisos.Hsh
