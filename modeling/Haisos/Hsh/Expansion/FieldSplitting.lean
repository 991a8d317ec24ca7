import Haisos.Delimited
import Haisos.Hsh.Expansion

/-!
# Field splitting

`SplitField` in one pass over a field, with a flag for what it stands in, finds
the fields that writing the elements out as fields and delimiters gives.
-/

namespace Haisos.Hsh

open Delimited

variable {ifs : Text}

/-! ## What a field keeps of its elements -/

/-- A field's characters: the quote marks only made it present. -/
def unmarked (field : List Element) : List Element := field.filter (· ≠ .quoteMark)

@[simp] theorem unmarked_nil : unmarked [] = [] := rfl

@[simp] theorem unmarked_append (first second : List Element) :
    unmarked (first ++ second) = unmarked first ++ unmarked second := by
  simp [unmarked]

theorem unmarked_cons (element : Element) (field : List Element) :
    unmarked (element :: field) = unmarked [element] ++ unmarked field :=
  unmarked_append [element] field

theorem splitsNonWhite_white {element : Element} (h : splitsNonWhite ifs element = true) :
    splitsWhite ifs element = false := by
  cases element with
  | quoteMark => rfl
  | char c quoted splittable => cases splittable <;> simp_all [splitsWhite, splitsNonWhite]

theorem plain_of_empty (field : List Element) :
    Delimited.Plain (splitsWhite []) (splitsNonWhite []) field := by
  intro element _
  cases element with
  | quoteMark => exact ⟨rfl, rfl⟩
  | char c quoted splittable => cases splittable <;> simp [splitsWhite, splitsNonWhite]

/-! ## The loop over a field and over a delimiter -/

section

variable {passing afterWhite content : Bool} {current rest : List Element}

/-- A plain element ends whatever delimiter was being passed. -/
theorem splitLoop_plain_cons {element : Element}
    (h : splitsWhite ifs element = false ∧ splitsNonWhite ifs element = false) :
    splitLoop ifs passing afterWhite current content (element :: rest) =
      splitLoop ifs false false (current ++ unmarked [element]) true rest := by
  rw [splitLoop]
  by_cases hmark : element = .quoteMark
  · subst hmark
    simp [h, unmarked]
  · simp [h, hmark, unmarked]

theorem splitLoop_plain {field : List Element}
    (h : Delimited.Plain (splitsWhite ifs) (splitsNonWhite ifs) field) (present : field ≠ []) :
    splitLoop ifs passing afterWhite current content (field ++ rest) =
      splitLoop ifs false false (current ++ unmarked field) true rest := by
  induction field generalizing passing afterWhite current content with
  | nil => exact absurd rfl present
  | cons element field ih =>
      rw [plain_cons] at h
      rw [List.cons_append, splitLoop_plain_cons h.1]
      cases field with
      | nil => rfl
      | cons next field =>
          rw [ih h.2 (by simp), List.append_assoc, ← unmarked_cons]

theorem splitLoop_white {run : List Element} (h : White (splitsWhite ifs) run) :
    splitLoop ifs true afterWhite current content (run ++ rest) =
      splitLoop ifs true afterWhite current content rest := by
  induction run with
  | nil => rfl
  | cons element run ih =>
      rw [white_cons] at h
      rw [List.cons_append, splitLoop, if_pos ⟨rfl, h.1⟩, ih h.2]

/-- White space after a field with content ends it. -/
theorem splitLoop_run {run : List Element} (h : White (splitsWhite ifs) run) (delimits : run ≠ []) :
    splitLoop ifs false false current true (run ++ rest) =
      current :: splitLoop ifs true true [] false rest := by
  cases run with
  | nil => exact absurd rfl delimits
  | cons element run =>
      rw [white_cons] at h
      have hmark : element ≠ .quoteMark := by
        rintro rfl
        simp [splitsWhite] at h
      rw [List.cons_append, splitLoop]
      simp [hmark, h.1, splitLoop_white h.2]

/-- A non-white delimiter ends a field that has not been ended by white space. -/
theorem splitLoop_mark {mark : Element} (h : splitsNonWhite ifs mark = true) :
    splitLoop ifs passing false current content (mark :: rest) =
      current :: splitLoop ifs true false [] false rest := by
  have hmark : mark ≠ .quoteMark := by
    rintro rfl
    simp [splitsNonWhite] at h
  rw [splitLoop]
  simp [splitsNonWhite_white h, hmark, h]

/-- After white space it belongs to the delimiter that the white space began. -/
theorem splitLoop_markAfterWhite {mark : Element} (h : splitsNonWhite ifs mark = true) :
    splitLoop ifs true true [] false (mark :: rest) = splitLoop ifs true false [] false rest := by
  rw [splitLoop]
  simp [splitsNonWhite_white h, h]

/-- Where a field begins, it no longer matters which delimiter came before. -/
theorem splitLoop_afterWhite (next : PlainNext (splitsWhite ifs) (splitsNonWhite ifs) rest) :
    splitLoop ifs true true [] false rest = splitLoop ifs true false [] false rest := by
  cases rest with
  | nil => rfl
  | cons element rest =>
      have h := next element (by simp)
      rw [splitLoop_plain_cons h, splitLoop_plain_cons h]

end

/-! ## The loop over all the elements -/

theorem splitLoop_of_divided {elements : List Element} {fields : List (List Element)}
    (h : Divided (splitsWhite ifs) (splitsNonWhite ifs) elements fields) :
    splitLoop ifs true false [] false elements = fields.map unmarked := by
  induction h with
  | none => rfl
  | @last field present plain =>
      have hloop : splitLoop ifs true false [] false (field ++ []) = _ :=
        splitLoop_plain plain present
      rw [List.append_nil] at hloop
      simp [hloop, splitLoop]
  | white present plain delimits run_white next divided ih =>
      rw [splitLoop_plain plain present, splitLoop_run run_white delimits,
        splitLoop_afterWhite next, ih]
      simp
  | @hard field before after rest mark fields plain before_white before_taken mark_hard
      after_white next divided ih =>
      have htail : splitLoop ifs true false [] false (after ++ rest) = fields.map unmarked := by
        rw [splitLoop_white after_white, ih]
      by_cases hfield : field = []
      · subst hfield
        rw [before_taken rfl, List.nil_append, List.nil_append, splitLoop_mark mark_hard, htail]
        rfl
      rw [splitLoop_plain plain hfield]
      by_cases hbefore : before = []
      · subst hbefore
        rw [List.nil_append (mark :: _), splitLoop_mark mark_hard, htail]
        simp
      · rw [splitLoop_run before_white hbefore, splitLoop_markAfterWhite mark_hard, htail]
        simp

/-- An empty IFS is no case of its own: nothing delimits, and the loop finds one field. -/
theorem splitField_eq_splitLoop (ifs : Text) (elements : List Element) :
    splitField ifs elements = splitLoop ifs true false [] false elements := by
  rw [splitField]
  split_ifs with hifs hempty
  · subst hempty
    rfl
  · subst hifs
    have hloop : splitLoop [] true false [] false (elements ++ []) = _ :=
      splitLoop_plain (plain_of_empty elements) hempty
    rw [List.append_nil] at hloop
    simp [hloop, splitLoop, unmarked]
  · rfl

theorem splitField_of_divides {elements : List Element} {fields : List (List Element)}
    (h : Divides (splitsWhite ifs) (splitsNonWhite ifs) elements fields) :
    splitField ifs elements = fields.map unmarked := by
  obtain ⟨lead, rest, rfl, hlead, -, hdivided⟩ := h
  rw [splitField_eq_splitLoop, splitLoop_white hlead, splitLoop_of_divided hdivided]

/-- A character that delimits, or a quote mark: what no field keeps. -/
def isDropped (ifs : Text) (element : Element) : Bool :=
  splitsWhite ifs element || splitsNonWhite ifs element || element == .quoteMark

theorem flatten_map_unmarked (fields : List (List Element)) :
    (fields.map unmarked).flatten = unmarked fields.flatten := by
  induction fields with
  | nil => rfl
  | cons field fields ih => simp [ih]

theorem splitField_flatten (ifs : Text) (elements : List Element) :
    (splitField ifs elements).flatten = elements.filter (fun e => !isDropped ifs e) := by
  obtain ⟨fields, hfields⟩ := exists_divides (splitsWhite ifs) (splitsNonWhite ifs) elements
  rw [splitField_of_divides hfields, flatten_map_unmarked, hfields.flatten, unmarked,
    List.filter_filter]
  congr 1
  funext element
  simp [isDropped, Bool.and_comm, Bool.beq_eq_decide_eq]

/--
`SplitField` gives the fields that fields, delimiters and ignored white space
written out give, and no others; they are the elements in order, without the
characters that delimit and the quote marks; and an empty IFS makes at most one.
-/
theorem splitField_posix (ifs : Text) (elements : List Element) :
    (∀ fields : List (List Element), splitField ifs elements = fields ↔
      ∃ written, Divides (splitsWhite ifs) (splitsNonWhite ifs) elements written ∧
        fields = written.map unmarked) ∧
      (splitField ifs elements).flatten = elements.filter (fun e => !isDropped ifs e) ∧
      ((splitField [] elements).length = 1 ↔ elements ≠ []) := by
  refine ⟨fun fields => ⟨?_, ?_⟩, splitField_flatten ifs elements, ?_⟩
  · rintro rfl
    obtain ⟨written, hwritten⟩ := exists_divides (splitsWhite ifs) (splitsNonWhite ifs) elements
    exact ⟨written, hwritten, splitField_of_divides hwritten⟩
  · rintro ⟨written, hwritten, rfl⟩
    exact splitField_of_divides hwritten
  · by_cases hempty : elements = []
    · simp [splitField, hempty]
    · simp [splitField, hempty]

end Haisos.Hsh
