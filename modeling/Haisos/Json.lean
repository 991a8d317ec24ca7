import Mathlib.Tactic

/-!
# JSON values

The values, and the library whose functions read and change them: `find` and `contains` see
no field in what is not an object, and `operator[]` makes an object of a null and throws on
anything else.
-/

namespace Haisos

inductive Json where
  | null
  | boolean (value : Bool)
  | number (text : String)
  | string (value : String)
  | array (elements : List Json)
  | object (fields : List (String × Json))

namespace Json

def isObject : Json → Bool
  | .object _ => true
  | _ => false

def isNull : Json → Bool
  | .null => true
  | _ => false

def type_name : Json → String
  | .null => "null"
  | .boolean _ => "boolean"
  | .number _ => "number"
  | .string _ => "string"
  | .array _ => "array"
  | .object _ => "object"

end Json

/-- The JSON library, as its documentation has it; what throws is `none`. -/
structure JsonLibrary where
  parse : String → Option Json
  dump : Json → String
  field : Json → String → Option Json
  /-- `operator[]` on the left of an assignment. -/
  setField : Json → String → Json → Option Json
  /-- The conversion to `std::string`. -/
  asString : Json → Option String
  field_object : ∀ {fields : List (String × Json)}, (fields.map Prod.fst).Nodup →
    ∀ key, field (.object fields) key = fields.lookup key
  field_of_not_object : ∀ {json : Json}, json.isObject = false → ∀ key, field json key = none
  isSome_setField : ∀ json key value,
    (setField json key value).isSome = (json.isNull || json.isObject)
  field_setField : ∀ {json key value changed}, setField json key value = some changed →
    field changed key = some value
  field_setField_of_ne : ∀ {json key value changed other}, setField json key value = some changed →
    other ≠ key → field changed other = field json other
  asString_string : ∀ value, asString (.string value) = some value
  asString_of_not_string : ∀ {json : Json}, (∀ value, json ≠ .string value) → asString json = none

/-! ## A library -/

namespace Json

def field : Json → String → Option Json
  | .object fields, key => fields.lookup key
  | _, _ => none

def setField : Json → String → Json → Option Json
  | .object fields, key, value =>
      some (.object ((key, value) :: fields.filter fun entry => entry.1 != key))
  | .null, key, value => some (.object [(key, value)])
  | _, _, _ => none

def asString : Json → Option String
  | .string value => some value
  | _ => none

theorem lookup_filter_ne {fields : List (String × Json)} {key other : String} (h : other ≠ key) :
    (fields.filter fun entry => entry.1 != key).lookup other = fields.lookup other := by
  induction fields with
  | nil => rfl
  | cons entry fields ih =>
      obtain ⟨name, value⟩ := entry
      by_cases hname : name = key
      · have hother : (other == name) = false := by
          rw [beq_eq_false_iff_ne, hname]
          exact h
        rw [List.filter_cons_of_neg (by simp [hname]), ih, List.lookup_cons, hother]
      · rw [List.filter_cons_of_pos (by simp [hname]), List.lookup_cons, List.lookup_cons, ih]

theorem field_setField {key : String} {value json json' : Json}
    (h : json.setField key value = some json') : json'.field key = some value := by
  cases json <;> cases h <;> simp [field]

theorem field_setField_of_ne {key other : String} {value json json' : Json} (hne : other ≠ key)
    (h : json.setField key value = some json') : json'.field other = json.field other := by
  have hother : (other == key) = false := beq_eq_false_iff_ne.mpr hne
  cases json <;> cases h
  · simp [field, List.lookup_cons, hother]
  · simp only [field, List.lookup_cons, hother]
    exact lookup_filter_ne hne

theorem isSome_setField (json : Json) (key : String) (value : Json) :
    (json.setField key value).isSome = (json.isNull || json.isObject) := by
  cases json <;> rfl

end Json

/-- Objects are lists of fields, in which the first of a name counts. -/
def JsonLibrary.ofLists (parse : String → Option Json) (dump : Json → String) : JsonLibrary where
  parse
  dump
  field := Json.field
  setField := Json.setField
  asString := Json.asString
  field_object _ _ := rfl
  field_of_not_object {json} h key := by
    cases json <;> first | rfl | cases h
  isSome_setField := Json.isSome_setField
  field_setField := Json.field_setField
  field_setField_of_ne h hne := Json.field_setField_of_ne hne h
  asString_string _ := rfl
  asString_of_not_string {json} h := by
    cases json <;> first | rfl | exact absurd rfl (h _)

end Haisos
