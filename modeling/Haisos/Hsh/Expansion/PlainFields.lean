import Haisos.Hsh.Expansion
import Haisos.StateExcept

/-!
# Plain fields

A field with nothing in it to split at and nothing to glob comes out as its text: what
stands in quotes, and literal text without pattern characters.
-/

namespace Haisos.Hsh

open StateExcept

/-! ## Texts of elements -/

theorem textOf_append (field field' : List Element) :
    textOf (field ++ field') = textOf field ++ textOf field' := by
  simp [textOf]

theorem textOf_chars (text : Text) (quoted splittable : Bool) :
    textOf (text.map fun c => .char c quoted splittable) = text := by
  induction text with
  | nil => rfl
  | cons c text ih => simpa [textOf, Element.text] using ih

theorem textOf_filter (field : List Element) :
    textOf (field.filter (· ≠ .quoteMark)) = textOf field := by
  induction field with
  | nil => rfl
  | cons element field ih =>
      cases element with
      | char c quoted splittable => simpa [textOf, Element.text] using ih
      | quoteMark => simpa [textOf, Element.text] using ih

def literalParts (text : Text) : List WordPart := if text = [] then [] else [.literal text]

def literalElements (text : Text) : List Element := text.map fun c => .char c false false

def valueElements (value : Text) : List Element :=
  .quoteMark :: value.map fun c => .char c true false

theorem PendingFields.emitElements_emitElements (out : PendingFields)
    (elements elements' : List Element) :
    (out.emitElements elements).emitElements elements' = out.emitElements (elements ++ elements') := by
  simp [emitElements]

theorem emitValue_true (out : PendingFields) (value : Text) :
    out.emitValue true value = out.emitElements (valueElements value) := by
  simp [PendingFields.emitValue, PendingFields.emitQuoteMark, PendingFields.emitChars,
    PendingFields.emitElements, valueElements]

/-! ## Nothing to split at -/

def unsplittable : Element → Bool
  | .char _ _ splittable => !splittable
  | .quoteMark => true

theorem splitLoop_unsplittable {ifs : Text} {field : List Element}
    (h : field.all unsplittable = true) (passing afterWhite content : Bool)
    (current : List Element) (hcontent : content = true ∨ field ≠ []) :
    splitLoop ifs passing afterWhite current content field =
      [current ++ field.filter (· ≠ .quoteMark)] := by
  induction field generalizing passing afterWhite content current with
  | nil =>
      obtain rfl : content = true := by simpa using hcontent
      simp [splitLoop]
  | cons element field ih =>
      simp only [List.all_cons, Bool.and_eq_true] at h
      cases element with
      | quoteMark =>
          simp only [splitLoop, splitsWhite, splitsNonWhite]
          simpa using ih h.2 false false true current (.inl rfl)
      | char c quoted splittable =>
          obtain rfl : splittable = false := by simpa [unsplittable] using h.1
          simp only [splitLoop, splitsWhite, splitsNonWhite]
          have := ih h.2 false false true (current ++ [.char c quoted false]) (.inl rfl)
          rw [List.append_assoc] at this
          simpa using this

theorem splitField_unsplittable {ifs : Text} {field : List Element}
    (h : field.all unsplittable = true) :
    splitField ifs field = if field = [] then [] else [field.filter (· ≠ .quoteMark)] := by
  unfold splitField
  split_ifs with hifs hfield hfield
  · rfl
  · rfl
  · subst hfield
    rfl
  · exact splitLoop_unsplittable h _ _ _ _ (.inr hfield)

/-! ## Nothing to glob -/

def globs : Element → Bool
  | .char c false _ => c == '*' || c == '?' || c == '['
  | _ => false

theorem hasPatternCharacters_globPatternOf {field : List Element}
    (h : field.any globs = false) : hasPatternCharacters (globPatternOf field) = false := by
  unfold hasPatternCharacters globPatternOf
  induction field with
  | nil => rfl
  | cons element field ih =>
      simp only [List.any_cons, Bool.or_eq_false_iff] at h
      have ih := ih h.2
      cases element with
      | quoteMark => exact ih
      | char c quoted splittable =>
          rw [List.flatMap_cons]
          cases quoted with
          | true =>
              by_cases hc : c = '/'
              · subst hc
                simpa [globPatternText, hasPatternCharactersFrom] using ih
              · simpa [globPatternText, hc, hasPatternCharactersFrom] using ih
          | false =>
              simp only [globs, Bool.or_eq_false_iff, beq_eq_false_iff_ne] at h
              by_cases hc : c = '\\'
              · subst hc
                simpa [globPatternText, hasPatternCharactersFrom] using ih
              · simpa [globPatternText, hc, hasPatternCharactersFrom, h.1] using ih

theorem finishField_plain {field : List Element} (h : field.any globs = false)
    (state : ShellState) (source : PathnameSource) :
    finishField state source field = [textOf field] := by
  simp [finishField, hasPatternCharacters_globPatternOf h]

theorem finish_plain_field {field : List Element} (hsplit : field.all unsplittable = true)
    (hglob : field.any globs = false) (ifs : Text) (state : ShellState)
    (source : PathnameSource) :
    (splitField ifs field).flatMap (finishField state source) =
      if field = [] then [] else [textOf field] := by
  rw [splitField_unsplittable hsplit]
  split_ifs
  · rfl
  · have hfilter : (field.filter (· ≠ .quoteMark)).any globs = false := by
      rw [List.any_eq_false] at hglob ⊢
      exact fun e he => hglob e (List.mem_of_mem_filter he)
    rw [List.flatMap_singleton, finishField_plain hfilter, textOf_filter]

/-! ## Plain fields -/

def Plain (field : List Element) : Prop :=
  field.all unsplittable = true ∧ field.any globs = false

theorem Plain.append {field field' : List Element} (h : Plain field) (h' : Plain field') :
    Plain (field ++ field') := by
  obtain ⟨hsplit, hglob⟩ := h
  obtain ⟨hsplit', hglob'⟩ := h'
  exact ⟨by rw [List.all_append, hsplit, hsplit']; rfl,
    by rw [List.any_append, hglob, hglob']; rfl⟩

theorem flatMap_finish_plain {fields : List (List Element)}
    (h : ∀ field ∈ fields, Plain field ∧ field ≠ []) (ifs : Text) (state : ShellState)
    (source : PathnameSource) :
    (fields.flatMap (splitField ifs)).flatMap (finishField state source) = fields.map textOf := by
  rw [List.flatMap_assoc]
  induction fields with
  | nil => rfl
  | cons field fields ih =>
      obtain ⟨hplain, hne⟩ := h field (by simp)
      rw [List.flatMap_cons, ih fun f hf => h f (by simp [hf]),
        finish_plain_field hplain.1 hplain.2, if_neg hne]
      rfl

def Element.isQuoted : Element → Bool
  | .char _ quoted splittable => quoted && !splittable
  | .quoteMark => true

theorem unsplittable_of_isQuoted {element : Element} (h : element.isQuoted = true) :
    unsplittable element = true := by
  cases element with
  | char c quoted splittable =>
      simp only [Element.isQuoted, Bool.and_eq_true] at h
      exact h.2
  | quoteMark => rfl

theorem globs_of_isQuoted {element : Element} (h : element.isQuoted = true) :
    globs element = false := by
  cases element with
  | char c quoted splittable =>
      simp only [Element.isQuoted, Bool.and_eq_true] at h
      rw [h.1]
      rfl
  | quoteMark => rfl

theorem plain_quoted {field : List Element} (h : field.all Element.isQuoted = true) :
    Plain field := by
  rw [List.all_eq_true] at h
  exact ⟨List.all_eq_true.mpr fun e he => unsplittable_of_isQuoted (h e he),
    List.any_eq_false.mpr fun e he => by simp [globs_of_isQuoted (h e he)]⟩

def NoPattern (text : Text) : Prop := ∀ c ∈ text, c ≠ '*' ∧ c ≠ '?' ∧ c ≠ '['

theorem plain_literalElements {text : Text} (h : NoPattern text) :
    Plain (literalElements text) := by
  constructor
  · simp [literalElements, unsplittable]
  · rw [literalElements, List.any_eq_false]
    intro e he
    obtain ⟨c, hc, rfl⟩ := List.mem_map.mp he
    simpa [globs, not_or, and_assoc] using h c hc

/-! ## The walk over literal text -/

theorem emitLiteral_fields (state : ShellState) (lastPart tilde : Bool) (text : Text)
    (htilde : tilde = true → text.head? ≠ some '~') (out : PendingFields) :
    emitLiteral state .fields false lastPart tilde text out =
      out.emitElements (literalElements text) := by
  induction text generalizing tilde out with
  | nil => simp [emitLiteral, literalElements, PendingFields.emitElements]
  | cons c rest ih =>
      have hnone : ¬(tilde = true ∧ c = '~' ∧
          tildePrefixEnd .fields lastPart (c :: rest) = some 1) := by
        rintro ⟨rfl, rfl, -⟩
        exact htilde rfl rfl
      rw [emitLiteral]
      have hcolon : (ExpansionKind.fields == .assignment && c == ':') = false := rfl
      simp only [hnone, if_false, hcolon]
      rw [ih false (by simp)]
      simp [PendingFields.emitChars, PendingFields.emitElements, literalElements]

theorem walk_literalParts {ω : Type} (host : Host ω) {text : Text} {tilde : Bool}
    (htilde : tilde = true → text.head? ≠ some '~') (parts : List WordPart)
    (out : PendingFields) (world : World ω) :
    exec (walkWordInto host .fields false false tilde (literalParts text ++ parts) out) world =
      exec (walkWordInto host .fields false false (tilde && text.isEmpty) parts
        (out.emitElements (literalElements text))) world := by
  rcases text with _ | ⟨c, text⟩
  · simp [literalParts, literalElements, PendingFields.emitElements]
  · have hwalk : exec (walkPart host .fields false false tilde parts.isEmpty
        (.literal (c :: text)) out) world =
          (.ok (out.emitElements (literalElements (c :: text))), world) := by
      rw [← emitLiteral_fields world.state parts.isEmpty tilde (c :: text) htilde out]
      rfl
    simp only [literalParts, List.cons_ne_nil, if_false, List.singleton_append, walkWordInto]
    rw [exec_bind_ok hwalk]
    simp

end Haisos.Hsh
