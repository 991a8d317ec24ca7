import Haisos.Hsh.Stages

/-!
# What holds of an expansion

An expansion is put together of readings of the state, errors, assignments and
command substitutions.  What holds of these and of what is put together of them
holds of every expansion; without a command substitution in the parts, none is
needed.
-/

namespace Haisos.Hsh

open StateExcept

variable {ω : Type}

structure WalkFrame (P : {α : Type} → Walk ω α → Prop) : Prop extends Compositional P where
  getState : P (getState : Walk ω ShellState)
  raise : ∀ {α : Type} (message : Text), P (raise message : Walk ω α)
  arithmetic : ∀ expression, P (arithmeticValue expression)
  assign : ∀ name value, P (assignDefault name value)

structure ExpansionFrame (P : {α : Type} → Walk ω α → Prop) : Prop extends WalkFrame P where
  get : P (get : Walk ω (World ω))
  getState := toCompositional.bind get fun _ => toCompositional.pure _

section

variable {P : {α : Type} → Walk ω α → Prop} {host : Host ω}

namespace WalkFrame

theorem checkNounset (frame : WalkFrame P) (name : Text) (resolved : Resolved) :
    P (Hsh.checkNounset name resolved) := by
  refine frame.bind frame.getState fun state => ?_
  split
  · exact frame.raise _
  · exact frame.pure _

theorem walkPart_parameter (frame : WalkFrame P) {operand : List WordPart}
    (hoperand : ∀ kind inDoubleQuotes inOperand tildeHere out,
      P (walkWordInto host kind inDoubleQuotes inOperand tildeHere operand out))
    (kind : ExpansionKind) (inDoubleQuotes inOperand atStart lastPart : Bool) (name : Text)
    (op : ParameterOp) (out : PendingFields) :
    P (walkPart host kind inDoubleQuotes inOperand atStart lastPart
      (.parameter name op operand) out) := by
  have hpositional (values : List Text) : P (do
      pure (emitPositionalStyle (← Hsh.getState) inDoubleQuotes name values out) : Walk ω _) :=
    frame.bind frame.getState fun _ => frame.pure _
  rw [walkPart]
  refine frame.bind frame.getState fun state => ?_
  cases op
  case bad => exact frame.raise _
  case none => exact frame.bind (frame.checkNounset _ _) fun _ => hpositional _
  case length => exact frame.bind (frame.checkNounset _ _) fun _ => frame.pure _
  case removeSmallestSuffix | removeLargestSuffix | removeSmallestPrefix | removeLargestPrefix =>
    refine frame.bind (frame.checkNounset _ _) fun _ => ?_
    refine frame.bind (hoperand _ _ _ _ _) fun _ => ?_
    exact frame.bind frame.getState fun _ => hpositional _
  case useDefault | useDefaultIfUnset =>
    dsimp only
    split
    · exact hoperand _ _ _ _ _
    · exact hpositional _
  case assignDefault | assignDefaultIfUnset =>
    dsimp only
    split
    · have hassign : P (do
          let sub ← walkWordInto host .string inDoubleQuotes inOperand
            (tildeAllowed kind inDoubleQuotes) operand {}
          let value := finishString (← Hsh.getState) sub
          assignDefault name value
          pure (out.emitValue inDoubleQuotes value)) := by
        refine frame.bind (hoperand _ _ _ _ _) fun _ => ?_
        refine frame.bind frame.getState fun _ => ?_
        exact frame.bind (frame.assign _ _) fun _ => frame.pure _
      split
      · exact frame.bind (frame.raise _) fun _ => hassign
      · exact hassign
    · exact hpositional _
  case errorIfNull | errorIfUnset =>
    dsimp only
    split
    · split
      · exact frame.raise _
      · refine frame.bind (hoperand _ _ _ _ _) fun _ => ?_
        exact frame.bind frame.getState fun _ => frame.raise _
    · exact hpositional _
  case useAlternative | useAlternativeIfSet =>
    dsimp only
    split
    · exact hoperand _ _ _ _ _
    · exact frame.pure _

variable (frame : WalkFrame P)

include frame

mutual

theorem walkPart (kind : ExpansionKind) (inDoubleQuotes inOperand atStart lastPart : Bool) :
    ∀ (part : WordPart),
      (holdsCommandSubstitution part → ∀ source line, P (commandSubstitution host source line)) →
      ∀ out, P (Hsh.walkPart host kind inDoubleQuotes inOperand atStart lastPart part out)
  | .literal _, _, _ => frame.bind frame.getState fun _ => frame.pure _
  | .quoted _, _, _ => frame.pure _
  | .commandSubstitution source _ line, h, _ =>
      frame.bind (h rfl source line) fun _ => frame.pure _
  | .doubleQuoted parts, h, out => by
      rw [holdsCommandSubstitution] at h
      exact walkWordInto kind true inOperand false parts h _
  | .arithmetic parts, h, out => by
      rw [holdsCommandSubstitution] at h
      refine frame.bind (walkWordInto kind inDoubleQuotes inOperand false parts h _) fun _ => ?_
      refine frame.bind frame.getState fun _ => ?_
      exact frame.bind (frame.arithmetic _) fun _ => frame.pure _
  | .parameter name op operand, h, out => by
      rw [holdsCommandSubstitution] at h
      exact frame.walkPart_parameter
        (fun kind inDoubleQuotes inOperand tildeHere out =>
          walkWordInto kind inDoubleQuotes inOperand tildeHere operand h out) _ _ _ _ _ _ _ _

theorem walkWordInto (kind : ExpansionKind) (inDoubleQuotes inOperand tildeHere : Bool) :
    ∀ (parts : List WordPart),
      (partsHoldCommandSubstitution parts → ∀ source line, P (commandSubstitution host source line)) →
      ∀ out, P (Hsh.walkWordInto host kind inDoubleQuotes inOperand tildeHere parts out)
  | [], _, _ => frame.pure _
  | part :: parts, h, out => by
      rw [partsHoldCommandSubstitution, Bool.or_eq_true] at h
      refine frame.bind
        (walkPart kind inDoubleQuotes inOperand tildeHere _ part (fun hpart => h (.inl hpart)) _)
        fun _ => ?_
      exact walkWordInto kind inDoubleQuotes inOperand false parts (fun hparts => h (.inr hparts)) _

end

theorem expandToKind (kind : ExpansionKind) {parts : List WordPart}
    (h : partsHoldCommandSubstitution parts → ∀ source line, P (commandSubstitution host source line)) :
    P (Hsh.expandToKind host kind parts) := by
  refine frame.bind (frame.walkWordInto kind false false _ parts h _) fun _ => ?_
  exact frame.bind frame.getState fun _ => frame.pure _

theorem expandPattern {word : Word}
    (h : partsHoldCommandSubstitution word.parts →
      ∀ source line, P (commandSubstitution host source line)) :
    P (Hsh.expandPattern host word) := by
  refine frame.bind (frame.walkWordInto .pattern false false _ word.parts h _) fun _ => ?_
  exact frame.bind frame.getState fun _ => frame.pure _

theorem expandHereDocument {hereDoc : HereDocument}
    (h : hereDoc.quoted = false → partsHoldCommandSubstitution hereDoc.body.parts →
      ∀ source line, P (commandSubstitution host source line)) :
    P (Hsh.expandHereDocument host hereDoc) := by
  rw [Hsh.expandHereDocument]
  split
  · exact frame.pure _
  · rename_i hquoted
    exact frame.expandToKind .hereDoc (h (Bool.eq_false_iff.mpr hquoted))

end WalkFrame

namespace ExpansionFrame

variable (frame : ExpansionFrame P)

include frame

theorem expandWord {word : Word}
    (h : partsHoldCommandSubstitution word.parts →
      ∀ source line, P (commandSubstitution host source line)) :
    P (Hsh.expandWord host word) := by
  refine frame.bind (frame.walkWordInto .fields false false _ word.parts h _) fun _ => ?_
  exact frame.bind frame.get fun _ => frame.pure _

theorem expandWords {words : List Word}
    (h : words.any (partsHoldCommandSubstitution ·.parts) →
      ∀ source line, P (commandSubstitution host source line)) :
    P (Hsh.expandWords host words) := by
  refine frame.bind (frame.mapM fun word hword => ?_) fun _ => frame.pure _
  exact frame.expandWord fun hparts => h (List.any_eq_true.mpr ⟨word, hword, hparts⟩)

end ExpansionFrame

end

/-! ## What expansions leave alone -/

abbrev KeepsOutside {α : Type} (m : Walk ω α) : Prop :=
  Keeps (fun world : World ω => world.outside) m

theorem keeps_getState : KeepsOutside (getState : Walk ω ShellState) :=
  Respects.bind_intro Respects.get_intro fun _ => Respects.pure_intro _

theorem keeps_setState (state : ShellState) : KeepsOutside (setState state : Walk ω Unit) :=
  Respects.modify_intro fun _ => rfl

theorem keeps_raise {α : Type} (message : Text) : KeepsOutside (raise message : Walk ω α) :=
  Respects.throw_intro _

theorem keeps_arithmeticValue (expression : Text) :
    KeepsOutside (arithmeticValue expression : Walk ω Text) := by
  refine Respects.bind_intro keeps_getState fun state => ?_
  split
  · exact Respects.bind_intro (keeps_setState _) fun _ => Respects.pure_intro _
  · exact Respects.bind_intro (keeps_setState _) fun _ => keeps_raise _
  · exact Respects.throw_intro _

theorem keeps_assignDefault (name value : Text) :
    KeepsOutside (assignDefault name value : Walk ω Unit) := by
  refine Respects.bind_intro keeps_getState fun state => ?_
  split
  · exact keeps_setState _
  · exact keeps_raise _

theorem keepsOutside_frame : ExpansionFrame fun {_} (m : Walk ω _) => KeepsOutside m where
  toCompositional := Respects.compositional
  get := Respects.get_intro
  raise := keeps_raise
  arithmetic := keeps_arithmeticValue
  assign := keeps_assignDefault

/-- What is told by the outside holds through an expansion if it does through its substitutions. -/
theorem expansionFrame_of_outside {I F : World ω → Prop}
    (hI : ∀ world world', world'.outside = world.outside → I world → I world')
    (hF : ∀ world, I world → F world) :
    ExpansionFrame fun {_} (m : Walk ω _) => Triple I m (fun _ => I) (fun _ => F) where
  pure _ := Triple.pure_intro fun _ h => h
  bind := Triple.bind_intro
  get := Triple.get_intro fun _ h => h
  raise _ := Triple.throw_intro hF
  arithmetic expression := (keeps_arithmeticValue expression).triple
    (fun _ _ _ h hsame => hI _ _ hsame h) fun _ _ _ h hsame => hF _ (hI _ _ hsame h)
  assign name value := (keeps_assignDefault name value).triple
    (fun _ _ _ h hsame => hI _ _ hsame h) fun _ _ _ h hsame => hF _ (hI _ _ hsame h)

end Haisos.Hsh
