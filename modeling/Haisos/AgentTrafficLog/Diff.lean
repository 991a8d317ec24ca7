import Haisos.Json

/-!
# The difference between two requests

`ComputeSmartDiff` of `AgentTrafficLog.cpp`, on JSON documents as their values: what
it writes is the print of the value given here, and the parser of the library reads
that value back.
-/

namespace Haisos

/-! ## Equality of values -/

namespace Json

mutual

/-- `operator==`: the fields of an object count in their order. -/
def same : Json → Json → Bool
  | .null, .null => true
  | .boolean a, .boolean b => a == b
  | .number a, .number b => a == b
  | .string a, .string b => a == b
  | .array as, .array bs => sameElements as bs
  | .object as, .object bs => sameFields as bs
  | _, _ => false

def sameElements : List Json → List Json → Bool
  | [], [] => true
  | a :: as, b :: bs => same a b && sameElements as bs
  | _, _ => false

def sameFields : List (String × Json) → List (String × Json) → Bool
  | [], [] => true
  | (key, a) :: as, (other, b) :: bs => key == other && same a b && sameFields as bs
  | _, _ => false

end

mutual

theorem same_iff : ∀ a b : Json, same a b = true ↔ a = b
  | .null, b => by cases b <;> simp [same]
  | .boolean a, b => by cases b <;> simp [same]
  | .number a, b => by cases b <;> simp [same]
  | .string a, b => by cases b <;> simp [same]
  | .array as, b => by
      cases b <;> simp [same]
      exact sameElements_iff as _
  | .object as, b => by
      cases b <;> simp [same]
      exact sameFields_iff as _

theorem sameElements_iff : ∀ as bs : List Json, sameElements as bs = true ↔ as = bs
  | [], bs => by cases bs <;> simp [sameElements]
  | a :: as, bs => by
      cases bs with
      | nil => simp [sameElements]
      | cons b bs => simp [sameElements, same_iff a b, sameElements_iff as bs]

theorem sameFields_iff : ∀ as bs : List (String × Json), sameFields as bs = true ↔ as = bs
  | [], bs => by cases bs <;> simp [sameFields]
  | (key, a) :: as, bs => by
      cases bs with
      | nil => simp [sameFields]
      | cons field bs =>
          obtain ⟨other, b⟩ := field
          simp [sameFields, same_iff a b, sameFields_iff as bs]

end

instance : DecidableEq Json := fun a b => decidable_of_iff _ (same_iff a b)

end Json

namespace AgentTrafficLog

/-- The fields of an object, in the order they are written in. -/
abbrev Fields := List (String × Json)

/-- `result[key] = value` on an ordered object: a new key comes last. -/
def assign (result : Fields) (key : String) (value : Json) : Fields :=
  if result.any fun field => field.1 == key then
    result.map fun field => if field.1 == key then (key, value) else field
  else result ++ [(key, value)]

def isArray : Json → Bool
  | .array _ => true
  | _ => false

def same : String := "-- same --"

def precedent : String := "-- precedent array --"

def grewOnly : List Json → List Json → Bool
  | [], _ => true
  | _ :: _, [] => false
  | before :: previous, now :: current => before = now && grewOnly previous current

def arrayDifference (before : Option Json) (current : List Json) : Json :=
  match before with
  | some (.array previous) =>
      if previous = current then .string same
      else if grewOnly previous current then
        .array (.string precedent :: current.drop previous.length)
      else .array current
  | _ => .array current

def emitScalar (current : Fields) (result : Fields) (key : String) : Fields :=
  match current.lookup key with
  | some value => if isArray value then result else assign result key value
  | none => result

def emitOtherScalar (result : Fields) (field : String × Json) : Fields :=
  if field.1 ≠ "model" ∧ field.1 ≠ "stream" ∧ ¬ isArray field.2 then
    assign result field.1 field.2
  else result

def emitArray (previous : Fields) (result : Fields) (field : String × Json) : Fields :=
  match field.2 with
  | .array current => assign result field.1 (arrayDifference (previous.lookup field.1) current)
  | _ => result

/-- The settings first, the conversation after them. -/
def smartDiff (previous current : Fields) : Fields :=
  let result := emitScalar current (emitScalar current [] "model") "stream"
  current.foldl (emitArray previous) (current.foldl emitOtherScalar result)

/-! ## Reading a difference back -/

/-- What a key held, from what it held before and what the difference shows. -/
def rebuildValue (before : Option Json) (shown : Json) : Json :=
  match before, shown with
  | some (.array previous), .string marker =>
      if marker = same then .array previous else shown
  | some (.array previous), .array (.string marker :: added) =>
      if marker = precedent then .array (previous ++ added) else shown
  | _, _ => shown

def rebuild (previous difference : Fields) : Fields :=
  difference.map fun field => (field.1, rebuildValue (previous.lookup field.1) field.2)

/-- No value of the request reads like a mark where the request before has an array. -/
def NoMarks (previous current : Fields) : Prop :=
  ∀ key elements, previous.lookup key = some (.array elements) →
    current.lookup key ≠ some (.string same) ∧
      ∀ added, current.lookup key ≠ some (.array (.string precedent :: added))

/-- No key twice. -/
def DistinctKeys (fields : Fields) : Prop := (fields.map Prod.fst).Nodup

theorem grewOnly_iff (previous current : List Json) :
    grewOnly previous current = true ↔ ∃ added, current = previous ++ added := by
  induction previous generalizing current with
  | nil => simp [grewOnly]
  | cons before previous ih =>
      cases current with
      | nil => simp [grewOnly]
      | cons now current =>
          simp only [grewOnly, Bool.and_eq_true, decide_eq_true_eq, ih, List.cons_append,
            List.cons.injEq]
          constructor
          · rintro ⟨rfl, added, rfl⟩
            exact ⟨added, rfl, rfl⟩
          · rintro ⟨added, rfl, rfl⟩
            exact ⟨rfl, added, rfl⟩

def shownValue (previous : Fields) (field : String × Json) : Json :=
  match field.2 with
  | .array current => arrayDifference (previous.lookup field.1) current
  | value => value

theorem rebuildValue_array {before : Option Json} {current : List Json}
    (h : ∀ elements, before = some (.array elements) →
      ∀ added, Json.array current ≠ .array (.string precedent :: added)) :
    rebuildValue before (.array current) = .array current := by
  unfold rebuildValue
  split
  · rename_i hshown
    cases hshown
  · rename_i previous marker added hcurrent
    split_ifs with hmarker
    · rw [hmarker] at hcurrent
      exact absurd hcurrent (h previous rfl added)
    · rfl
  · rfl

theorem rebuildValue_arrayDifference {before : Option Json} {current : List Json}
    (h : ∀ elements, before = some (.array elements) →
      ∀ added, Json.array current ≠ .array (.string precedent :: added)) :
    rebuildValue before (arrayDifference before current) = .array current := by
  unfold arrayDifference
  split
  · rename_i previous
    split_ifs with hsame hgrew
    · simp [rebuildValue, hsame]
    · obtain ⟨added, rfl⟩ := (grewOnly_iff _ _).mp hgrew
      simp [rebuildValue]
    · exact rebuildValue_array h
  · exact rebuildValue_array h

theorem rebuildValue_shownValue {previous current : Fields} {field : String × Json}
    (hmarks : NoMarks previous current) (hfield : current.lookup field.1 = some field.2) :
    rebuildValue (previous.lookup field.1) (shownValue previous field) = field.2 := by
  unfold shownValue
  split
  · rename_i elements hvalue
    rw [hvalue]
    apply rebuildValue_arrayDifference
    intro previousElements hprevious added heq
    rw [hvalue, heq] at hfield
    exact (hmarks field.1 previousElements hprevious).2 added hfield
  · rename_i hnone
    unfold rebuildValue
    split
    · rename_i previousElements marker hprevious hstring
      split_ifs with hmarker
      · rw [hstring, hmarker] at hfield
        exact absurd hfield (hmarks field.1 previousElements hprevious).1
      · rfl
    · rename_i harray
      exact absurd harray (hnone _)
    · rfl

/-! ## The fields of a difference -/

theorem assign_of_notMem {result : Fields} {key : String} (h : key ∉ result.map Prod.fst)
    (value : Json) : assign result key value = result ++ [(key, value)] := by
  have hnone : (result.any fun field => field.1 == key) = false := by
    simp only [List.any_eq_false, beq_iff_eq]
    intro field hfield hkey
    exact h (hkey ▸ List.mem_map_of_mem hfield)
  simp [assign, hnone]

theorem foldl_assign {emits : String × Json → Bool} {value : String × Json → Json}
    {emit : Fields → String × Json → Fields}
    (hemit : ∀ result field,
      emit result field = if emits field then assign result field.1 (value field) else result)
    (fields : Fields) (hdistinct : DistinctKeys fields) (result : Fields)
    (hnew : ∀ field ∈ fields, emits field → field.1 ∉ result.map Prod.fst) :
    fields.foldl emit result =
      result ++ (fields.filter emits).map fun field => (field.1, value field) := by
  induction fields generalizing result with
  | nil => simp
  | cons field fields ih =>
      rw [DistinctKeys, List.map_cons, List.nodup_cons] at hdistinct
      rw [List.foldl_cons, hemit]
      cases hemits : emits field
      · rw [if_neg (by simp), ih hdistinct.2 result fun other hother =>
          hnew other (List.mem_cons_of_mem _ hother), List.filter_cons_of_neg (by simp [hemits])]
      · have hfirst := hnew field List.mem_cons_self hemits
        rw [if_pos rfl, assign_of_notMem hfirst, ih hdistinct.2, List.filter_cons_of_pos hemits]
        · simp
        · intro other hother hemitted hmem
          rw [List.map_append, List.mem_append] at hmem
          rcases hmem with hmem | hmem
          · exact hnew other (List.mem_cons_of_mem _ hother) hemitted hmem
          · simp only [List.map_cons, List.map_nil, List.mem_singleton] at hmem
            exact hdistinct.1 (hmem ▸ List.mem_map_of_mem hother)

theorem lookup_of_mem {fields : Fields} (hdistinct : DistinctKeys fields)
    {field : String × Json} (h : field ∈ fields) : fields.lookup field.1 = some field.2 := by
  induction fields with
  | nil => simp at h
  | cons first fields ih =>
      rw [DistinctKeys, List.map_cons, List.nodup_cons] at hdistinct
      obtain ⟨key, value⟩ := first
      rcases List.mem_cons.mp h with rfl | hmem
      · simp
      · have hne : (field.1 == key) = false := by
          rw [beq_eq_false_iff_ne]
          intro heq
          have hkey := List.mem_map_of_mem (f := Prod.fst) hmem
          rw [heq] at hkey
          exact hdistinct.1 hkey
        rw [List.lookup_cons, hne]
        exact ih hdistinct.2 hmem

theorem emitScalar_eq {current : Fields} (hdistinct : DistinctKeys current) {result : Fields}
    {key : String} (hnew : key ∉ result.map Prod.fst) :
    emitScalar current result key =
      result ++ current.filter fun field => field.1 == key && !isArray field.2 := by
  induction current with
  | nil => simp [emitScalar]
  | cons field current ih =>
      rw [DistinctKeys, List.map_cons, List.nodup_cons] at hdistinct
      obtain ⟨name, value⟩ := field
      by_cases hname : name = key
      · subst hname
        have hrest : (current.filter fun field => field.1 == name && !isArray field.2) = [] := by
          rw [List.filter_eq_nil_iff]
          intro other hother hboth
          simp only [Bool.and_eq_true, beq_iff_eq] at hboth
          have hkey := List.mem_map_of_mem (f := Prod.fst) hother
          rw [hboth.1] at hkey
          exact hdistinct.1 hkey
        cases harray : isArray value <;>
          simp [emitScalar, harray, hrest, assign_of_notMem hnew]
      · have hother : (key == name) = false := beq_eq_false_iff_ne.mpr (Ne.symm hname)
        have hsame : emitScalar ((name, value) :: current) result key =
            emitScalar current result key := by
          simp [emitScalar, List.lookup_cons, hother]
        rw [hsame, ih hdistinct.2, List.filter_cons_of_neg (by simp [hname])]

theorem count_filter_ite (p : String × Json → Bool) (field : String × Json) (fields : Fields) :
    (fields.filter p).count field = if p field then fields.count field else 0 := by
  split_ifs with h
  · exact List.count_filter h
  · apply List.count_eq_zero_of_not_mem
    simp [h]

def isOtherScalar (field : String × Json) : Bool :=
  field.1 ≠ "model" ∧ field.1 ≠ "stream" ∧ ¬ isArray field.2

theorem shownValue_of_not_isArray (previous : Fields) {field : String × Json}
    (h : isArray field.2 = false) : shownValue previous field = field.2 := by
  unfold shownValue
  split
  · rename_i elements hvalue
    simp [hvalue, isArray] at h
  · rfl

theorem emitArray_eq (previous result : Fields) (field : String × Json) :
    emitArray previous result field =
      if isArray field.2 then assign result field.1 (shownValue previous field) else result := by
  obtain ⟨key, value⟩ := field
  cases value <;> simp [emitArray, isArray, shownValue]

theorem key_notMem_filter {fields : Fields} (hdistinct : DistinctKeys fields)
    {p : String × Json → Bool} {field : String × Json} (hfield : field ∈ fields)
    (hp : p field = false) : field.1 ∉ (fields.filter p).map Prod.fst := by
  intro hmem
  obtain ⟨other, hother, hkey⟩ := List.mem_map.mp hmem
  obtain ⟨hother, hpother⟩ := List.mem_filter.mp hother
  have hvalue := lookup_of_mem hdistinct hother
  rw [hkey, lookup_of_mem hdistinct hfield] at hvalue
  have heq : other = field := Prod.ext hkey (Option.some.inj hvalue).symm
  rw [heq, hp] at hpother
  cases hpother

theorem smartDiff_eq {previous current : Fields} (hdistinct : DistinctKeys current) :
    smartDiff previous current =
      ((current.filter fun field => field.1 == "model" && !isArray field.2) ++
          (current.filter fun field => field.1 == "stream" && !isArray field.2) ++
          current.filter isOtherScalar ++ current.filter fun field => isArray field.2).map
        fun field => (field.1, shownValue previous field) := by
  have hscalars : ∀ p : String × Json → Bool, (∀ field, p field → isArray field.2 = false) →
      (current.filter p).map (fun field => (field.1, shownValue previous field)) =
        current.filter p := by
    intro p hp
    refine (List.map_congr_left fun field hfield => ?_).trans (List.map_id _)
    have harray := hp field (List.mem_filter.mp hfield).2
    rw [shownValue_of_not_isArray previous harray]
    rfl
  have hmodel := @emitScalar_eq _ hdistinct [] "model" (by simp)
  have hstream := @emitScalar_eq _ hdistinct
    (current.filter fun field => field.1 == "model" && !isArray field.2) "stream" (by simp)
  have hothers := @foldl_assign isOtherScalar Prod.snd emitOtherScalar
    (fun result field => by simp [emitOtherScalar, isOtherScalar]) current hdistinct
  have harrays := @foldl_assign (fun field => isArray field.2) (shownValue previous)
    (emitArray previous) (emitArray_eq previous) current hdistinct
  rw [smartDiff, hmodel, List.nil_append, hstream, hothers, harrays]
  · simp only [List.map_append]
    rw [hscalars (fun field => field.1 == "model" && !isArray field.2) (by simp),
      hscalars (fun field => field.1 == "stream" && !isArray field.2) (by simp),
      hscalars isOtherScalar (by simp [isOtherScalar])]
    simp
  · intro field hfield harray hmem
    simp only [List.map_append, List.map_map, List.mem_append] at hmem
    rcases hmem with (hmem | hmem) | hmem
    · exact key_notMem_filter hdistinct hfield (by simp [harray]) hmem
    · exact key_notMem_filter hdistinct hfield (by simp [harray]) hmem
    · exact key_notMem_filter hdistinct hfield (by simp [isOtherScalar, harray]) hmem
  · intro field hfield hscalar hmem
    simp only [isOtherScalar, decide_eq_true_eq] at hscalar
    rw [List.map_append, List.mem_append] at hmem
    rcases hmem with hmem | hmem
    · exact key_notMem_filter hdistinct hfield (by simp [hscalar]) hmem
    · exact key_notMem_filter hdistinct hfield (by simp [hscalar]) hmem

theorem smartDiff_perm {previous current : Fields} (hdistinct : DistinctKeys current) :
    (smartDiff previous current).Perm
      (current.map fun field => (field.1, shownValue previous field)) := by
  rw [smartDiff_eq hdistinct]
  apply List.Perm.map
  rw [List.perm_iff_count]
  intro field
  simp only [List.count_append, count_filter_ite, isOtherScalar]
  by_cases harray : isArray field.2 = true <;> by_cases hmodel : field.1 = "model" <;>
    by_cases hstream : field.1 = "stream" <;> simp_all

/-- What a request was is read back from the difference and the request before it. -/
theorem rebuild_smartDiff {previous current : Fields} (hdistinct : DistinctKeys current)
    (hmarks : NoMarks previous current) :
    (rebuild previous (smartDiff previous current)).Perm current := by
  have hshown := (@smartDiff_perm previous _ hdistinct).map fun field =>
    (field.1, rebuildValue (previous.lookup field.1) field.2)
  have hback : (current.map fun field => (field.1, shownValue previous field)).map
      (fun field => (field.1, rebuildValue (previous.lookup field.1) field.2)) = current := by
    rw [List.map_map]
    refine (List.map_congr_left fun field hfield => ?_).trans (List.map_id current)
    have hvalue := rebuildValue_shownValue hmarks (lookup_of_mem hdistinct hfield)
    simp only [Function.comp_apply, hvalue, id]
  rw [hback] at hshown
  exact hshown

end AgentTrafficLog

end Haisos
