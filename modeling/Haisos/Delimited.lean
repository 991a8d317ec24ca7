import Mathlib.Data.List.TakeWhile

/-!
# Lists divided by delimiters

Fields divided by two kinds of delimiter.  A hard delimiter ends a field, empty
or not, and takes with it the white elements on either side; elsewhere a run of
white elements ends a field.  The relations below say which fields a list has
by writing the list out; a reader of fields is compared with them by induction
on that.
-/

namespace Haisos.Delimited

variable {α : Type*} {white hard : α → Bool}

/-! ## The parts of a divided list -/

def Plain (white hard : α → Bool) (field : List α) : Prop :=
  ∀ a ∈ field, white a = false ∧ hard a = false

def White (white : α → Bool) (run : List α) : Prop := ∀ a ∈ run, white a = true

def NotWhiteNext (white : α → Bool) (rest : List α) : Prop := ∀ a ∈ rest.head?, white a = false

def PlainNext (white hard : α → Bool) (rest : List α) : Prop :=
  ∀ a ∈ rest.head?, white a = false ∧ hard a = false

/-- The fields of a list that does not begin with a white element. -/
inductive Divided (white hard : α → Bool) : List α → List (List α) → Prop where
  | none : Divided white hard [] []
  | last {field : List α} (present : field ≠ []) (plain : Plain white hard field) :
      Divided white hard field [field]
  | white {field run rest : List α} {fields : List (List α)} (present : field ≠ [])
      (plain : Plain white hard field) (delimits : run ≠ []) (run_white : White white run)
      (next : PlainNext white hard rest) (divided : Divided white hard rest fields) :
      Divided white hard (field ++ (run ++ rest)) (field :: fields)
  | hard {field before after rest : List α} {mark : α} {fields : List (List α)}
      (plain : Plain white hard field) (before_white : White white before)
      (before_taken : field = [] → before = []) (mark_hard : hard mark = true)
      (after_white : White white after) (next : NotWhiteNext white rest)
      (divided : Divided white hard rest fields) :
      Divided white hard (field ++ (before ++ mark :: (after ++ rest))) (field :: fields)

/-- The fields of a list: white elements before the first are passed over. -/
def Divides (white hard : α → Bool) (elements : List α) (fields : List (List α)) : Prop :=
  ∃ lead rest, elements = lead ++ rest ∧ White white lead ∧ NotWhiteNext white rest ∧
    Divided white hard rest fields

@[simp] theorem plain_nil : Plain white hard [] := by simp [Plain]

@[simp] theorem white_nil : White white [] := by simp [White]

@[simp] theorem plain_cons {a : α} {field : List α} :
    Plain white hard (a :: field) ↔
      (white a = false ∧ hard a = false) ∧ Plain white hard field := by
  simp [Plain]

@[simp] theorem white_cons {a : α} {run : List α} :
    White white (a :: run) ↔ white a = true ∧ White white run := by
  simp [White]

theorem PlainNext.notWhiteNext {rest : List α} (next : PlainNext white hard rest) :
    NotWhiteNext white rest :=
  fun a ha => (next a ha).1

/-! ## Every list is divided -/

theorem exists_white_append (white : α → Bool) (elements : List α) :
    ∃ run rest, elements = run ++ rest ∧ White white run ∧ NotWhiteNext white rest := by
  induction elements with
  | nil => exact ⟨[], [], by simp [NotWhiteNext]⟩
  | cons a elements ih =>
      cases ha : white a with
      | false => exact ⟨[], a :: elements, by simp [NotWhiteNext, ha]⟩
      | true =>
          obtain ⟨run, rest, rfl, hrun, hrest⟩ := ih
          exact ⟨a :: run, rest, by simp [ha, hrun, hrest]⟩

theorem exists_plain_append (white hard : α → Bool) (elements : List α) :
    ∃ field rest, elements = field ++ rest ∧ Plain white hard field ∧
      ∀ a ∈ rest.head?, white a = true ∨ hard a = true := by
  induction elements with
  | nil => exact ⟨[], [], by simp⟩
  | cons a elements ih =>
      by_cases ha : white a = false ∧ hard a = false
      · obtain ⟨field, rest, rfl, hfield, hrest⟩ := ih
        exact ⟨a :: field, rest, rfl, by simp [ha, hfield], hrest⟩
      · refine ⟨[], a :: elements, by simp, by simp, ?_⟩
        simp only [List.head?_cons, Option.mem_some_iff, forall_eq']
        cases hwhite : white a
        · cases hhard : hard a
          · exact absurd ⟨hwhite, hhard⟩ ha
          · simp
        · simp

theorem divided_after_hard {field before rest : List α} {mark : α}
    (plain : Plain white hard field) (before_white : White white before)
    (before_taken : field = [] → before = []) (mark_hard : hard mark = true)
    (ih : ∀ tail : List α, tail.length ≤ rest.length → NotWhiteNext white tail →
      ∃ fields, Divided white hard tail fields) :
    ∃ fields, Divided white hard (field ++ (before ++ mark :: rest)) fields := by
  obtain ⟨after, tail, rfl, hafter, htail⟩ := exists_white_append white rest
  obtain ⟨fields, hfields⟩ := ih tail (by simp) htail
  exact ⟨field :: fields,
    .hard plain before_white before_taken mark_hard hafter htail hfields⟩

theorem exists_divided (n : Nat) : ∀ elements : List α, elements.length ≤ n →
    NotWhiteNext white elements → ∃ fields, Divided white hard elements fields := by
  induction n with
  | zero =>
      intro elements hlength _
      have : elements = [] := by simpa using hlength
      subst this
      exact ⟨[], .none⟩
  | succ n ih =>
      intro elements hlength hnext
      obtain ⟨field, rest, rfl, hfield, hrest⟩ := exists_plain_append white hard elements
      cases rest with
      | nil =>
          by_cases hpresent : field = []
          · subst hpresent
            exact ⟨[], .none⟩
          · exact ⟨[field], by simpa using Divided.last hpresent hfield⟩
      | cons a rest =>
          simp only [List.length_append, List.length_cons] at hlength
          have hdelimits : white a = true ∨ hard a = true := hrest a (by simp)
          cases hwhite : white a with
          | false =>
              have hhard : hard a = true := by simpa [hwhite] using hdelimits
              have hempty : White white ([] : List α) := by simp
              exact divided_after_hard hfield hempty (by simp) hhard
                fun tail htail => ih tail (by omega)
          | true =>
              -- The run ends the field; a hard delimiter after it takes it in.
              have hpresent : field ≠ [] := by
                rintro rfl
                have := hnext a (by simp)
                simp [hwhite] at this
              obtain ⟨run, tail, rfl, hrun, htail⟩ := exists_white_append white rest
              have hall : White white (a :: run) := by simp [hwhite, hrun]
              simp only [List.length_append] at hlength
              cases tail with
              | nil =>
                  refine ⟨[field], ?_⟩
                  exact Divided.white hpresent hfield (by simp) hall
                    (by simp [PlainNext]) .none
              | cons b tail =>
                  cases hb : hard b with
                  | true =>
                      simp only [List.length_cons] at hlength
                      exact divided_after_hard hfield hall
                        (fun h => absurd h hpresent) hb fun rest hrest => ih rest (by omega)
                  | false =>
                      obtain ⟨fields, hfields⟩ := ih (b :: tail) (by omega) htail
                      refine ⟨field :: fields, ?_⟩
                      have hplain : PlainNext white hard (b :: tail) := by
                        simpa [PlainNext, NotWhiteNext, hb] using htail
                      exact Divided.white hpresent hfield (by simp) hall
                        hplain hfields

theorem exists_divides (white hard : α → Bool) (elements : List α) :
    ∃ fields, Divides white hard elements fields := by
  obtain ⟨lead, rest, rfl, hlead, hrest⟩ := exists_white_append white elements
  have hdivided : ∃ fields, Divided white hard rest fields :=
    exists_divided rest.length rest le_rfl hrest
  obtain ⟨fields, hfields⟩ := hdivided
  exact ⟨fields, lead, rest, rfl, hlead, hrest, hfields⟩

/-! ## What the fields keep -/

theorem White.filter_nil {run : List α} (h : White white run) :
    run.filter (fun a => !white a && !hard a) = [] := by
  simpa [List.filter_eq_nil_iff, White] using fun a ha hwhite => absurd (h a ha) (by simp [hwhite])

theorem Plain.filter_self {field : List α} (h : Plain white hard field) :
    field.filter (fun a => !white a && !hard a) = field := by
  simpa [List.filter_eq_self, Plain] using h

theorem Divided.flatten {elements : List α} {fields : List (List α)}
    (h : Divided white hard elements fields) :
    fields.flatten = elements.filter (fun a => !white a && !hard a) := by
  induction h with
  | none => simp
  | last present plain => simp [plain.filter_self]
  | white present plain delimits run_white next divided ih =>
      simp [plain.filter_self, run_white.filter_nil, ih]
  | hard plain before_white before_taken mark_hard after_white next divided ih =>
      simp [plain.filter_self, before_white.filter_nil, after_white.filter_nil, mark_hard, ih]

theorem Divides.flatten {elements : List α} {fields : List (List α)}
    (h : Divides white hard elements fields) :
    fields.flatten = elements.filter (fun a => !white a && !hard a) := by
  obtain ⟨lead, rest, rfl, hlead, -, hdivided⟩ := h
  rw [hdivided.flatten, List.filter_append, hlead.filter_nil, List.nil_append]

/-! ## Lists of another kind -/

section

variable {β : Type*} {white' hard' : β → Bool} {f : α → β}

theorem Plain.map {field : List α} (h : Plain white hard field)
    (hwhite : ∀ a, white' (f a) = white a) (hhard : ∀ a, hard' (f a) = hard a) :
    Plain white' hard' (field.map f) := by
  simpa [Plain, hwhite, hhard] using h

theorem White.map {run : List α} (h : White white run) (hwhite : ∀ a, white' (f a) = white a) :
    White white' (run.map f) := by
  simpa [White, hwhite] using h

theorem Divided.map {elements : List α} {fields : List (List α)}
    (h : Divided white hard elements fields) (hwhite : ∀ a, white' (f a) = white a)
    (hhard : ∀ a, hard' (f a) = hard a) :
    Divided white' hard' (elements.map f) (fields.map (List.map f)) := by
  induction h with
  | none => exact .none
  | last present plain => exact .last (by simpa using present) (plain.map hwhite hhard)
  | white present plain delimits run_white next divided ih =>
      rw [List.map_append, List.map_append]
      exact .white (by simpa using present) (plain.map hwhite hhard) (by simpa using delimits)
        (run_white.map hwhite) (by simpa [PlainNext, hwhite, hhard] using next) ih
  | hard plain before_white before_taken mark_hard after_white next divided ih =>
      rw [List.map_append, List.map_append, List.map_cons, List.map_append]
      exact .hard (plain.map hwhite hhard) (before_white.map hwhite) (by simpa using before_taken)
        ((hhard _).trans mark_hard) (after_white.map hwhite)
        (by simpa [NotWhiteNext, hwhite] using next) ih

theorem Divides.map {elements : List α} {fields : List (List α)}
    (h : Divides white hard elements fields) (hwhite : ∀ a, white' (f a) = white a)
    (hhard : ∀ a, hard' (f a) = hard a) :
    Divides white' hard' (elements.map f) (fields.map (List.map f)) := by
  obtain ⟨lead, rest, rfl, hlead, hrest, hdivided⟩ := h
  exact ⟨lead.map f, rest.map f, List.map_append, hlead.map hwhite,
    by simpa [NotWhiteNext, hwhite] using hrest, hdivided.map hwhite hhard⟩

end

end Haisos.Delimited
