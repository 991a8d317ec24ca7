import Haisos.LuaProcess.Sequences
import Mathlib.Data.Char
import Mathlib.Data.List.Lex

/-!
# JSON on Lua's stack

What `PushJson` leaves on the stack for a value, and what `ToJson` makes of that.
-/

namespace Haisos.LuaProcess

open Hsh (Text text natText intText)
open Lua

variable {F : Type}

/-! ## Objects with sorted keys -/

theorem perm_setKey {key : Text} {value : JsonValue F} {object : List (Text × JsonValue F)}
    (h : key ∉ object.map Prod.fst) : (setKey key value object).Perm ((key, value) :: object) := by
  induction object with
  | nil => simp [setKey]
  | cons field object ih =>
      obtain ⟨other, before⟩ := field
      simp only [List.map_cons, List.mem_cons, not_or] at h
      rw [setKey, if_neg h.1]
      split_ifs
      · rfl
      · exact ((ih h.2).cons _).trans (List.Perm.swap _ _ _)

theorem pairwise_setKey {key : Text} {value : JsonValue F} {object : List (Text × JsonValue F)}
    (h : key ∉ object.map Prod.fst) (hsorted : object.Pairwise fun a b => a.1 < b.1) :
    (setKey key value object).Pairwise fun a b => a.1 < b.1 := by
  induction object with
  | nil => simp [setKey]
  | cons field object ih =>
      obtain ⟨other, before⟩ := field
      have hkeys := h
      simp only [List.map_cons, List.mem_cons, not_or] at h
      obtain ⟨hfirst, hrest⟩ := List.pairwise_cons.mp hsorted
      rw [setKey, if_neg h.1]
      split_ifs with hlt
      · apply List.pairwise_cons.mpr ⟨_, hsorted⟩
        intro field hfield
        rcases List.mem_cons.mp hfield with rfl | hfield
        · exact hlt
        · exact lt_trans hlt (hfirst field hfield)
      · apply List.pairwise_cons.mpr ⟨_, ih h.2 hrest⟩
        intro field hfield
        rcases List.mem_cons.mp ((perm_setKey h.2).mem_iff.mp hfield) with rfl | hfield
        · exact lt_of_le_of_ne (not_lt.mp hlt) (Ne.symm h.1)
        · exact hfirst field hfield

/-- Fields put into an object one after the other, in any order, are there in the order of
their keys. -/
theorem setKeys_spec {fields object : List (Text × JsonValue F)}
    (hnodup : (fields.map Prod.fst ++ object.map Prod.fst).Nodup)
    (hsorted : object.Pairwise fun a b => a.1 < b.1) :
    (setKeys fields object).Perm (fields ++ object) ∧
      (setKeys fields object).Pairwise fun a b => a.1 < b.1 := by
  induction fields generalizing object with
  | nil => exact ⟨.refl _, hsorted⟩
  | cons field fields ih =>
      obtain ⟨key, value⟩ := field
      simp only [List.map_cons, List.cons_append, List.nodup_cons, List.mem_append,
        not_or] at hnodup
      have hperm := @perm_setKey F key value object hnodup.1.2
      have hkeys : (fields.map Prod.fst ++ (setKey key value object).map Prod.fst).Nodup := by
        have hmiddle : (fields.map Prod.fst ++ (setKey key value object).map Prod.fst).Perm
            (key :: (fields.map Prod.fst ++ object.map Prod.fst)) :=
          ((hperm.map Prod.fst).append_left _).trans List.perm_middle
        rw [hmiddle.nodup_iff]
        simp [hnodup]
      obtain ⟨hall, hinOrder⟩ := ih hkeys (pairwise_setKey hnodup.1.2 hsorted)
      refine ⟨?_, hinOrder⟩
      exact hall.trans ((hperm.append_left _).trans List.perm_middle)

theorem setKeys_eq {fields shuffled : List (Text × JsonValue F)} (hperm : shuffled.Perm fields)
    (hsorted : fields.Pairwise fun a b => a.1 < b.1) : setKeys shuffled [] = fields := by
  have hnodup : (shuffled.map Prod.fst).Nodup := by
    rw [(hperm.map Prod.fst).nodup_iff, List.Nodup, List.pairwise_map]
    exact hsorted.imp fun h => ne_of_lt h
  obtain ⟨hall, hinOrder⟩ := @setKeys_spec F shuffled [] (by simpa using hnodup) .nil
  rw [List.append_nil] at hall
  apply (hall.trans hperm).eq_of_pairwise _ hinOrder hsorted
  intro a b _ _ hab hba
  exact absurd hab (lt_asymm hba)

/-! ## What crosses -/

namespace JsonValue

mutual

def nesting : JsonValue F → Nat
  | .array items => itemsNesting items + 1
  | .object fields => fieldsNesting fields + 1
  | _ => 0

def itemsNesting : List (JsonValue F) → Nat
  | [] => 0
  | item :: items => max (nesting item) (itemsNesting items)

def fieldsNesting : List (Text × JsonValue F) → Nat
  | [] => 0
  | (_, value) :: fields => max (nesting value) (fieldsNesting fields)

end

mutual

/-- No null and no empty array is in a value, every integer has 64 bits, and an object's keys
are sorted. -/
def Crosses : JsonValue F → Prop
  | .null => False
  | .integer n => -2 ^ 63 ≤ n ∧ n < 2 ^ 63
  | .array items => items ≠ [] ∧ ItemsCross items
  | .object fields => (fields.Pairwise fun a b => a.1 < b.1) ∧ FieldsCross fields
  | _ => True

def ItemsCross : List (JsonValue F) → Prop
  | [] => True
  | item :: items => Crosses item ∧ ItemsCross items

def FieldsCross : List (Text × JsonValue F) → Prop
  | [] => True
  | (_, value) :: fields => Crosses value ∧ FieldsCross fields

end

end JsonValue

open JsonValue

theorem toInt64_of_fits {n : Int} (h : -2 ^ 63 ≤ n ∧ n < 2 ^ 63) : toInt64 n = n := by
  rw [toInt64]
  apply Int.bmod_eq_of_le <;> omega

theorem nesting_le_items {items : List (JsonValue F)} :
    ∀ item ∈ items, nesting item ≤ itemsNesting items := by
  induction items with
  | nil => simp
  | cons item items ih =>
      intro other hother
      rw [itemsNesting]
      rcases List.mem_cons.mp hother with rfl | hother
      · exact le_max_left _ _
      · exact (ih other hother).trans (le_max_right _ _)

theorem nesting_le_fields {fields : List (Text × JsonValue F)} :
    ∀ json ∈ fields.map Prod.snd, nesting json ≤ fieldsNesting fields := by
  induction fields with
  | nil => simp
  | cons field fields ih =>
      obtain ⟨key, value⟩ := field
      intro other hother
      rw [fieldsNesting]
      rcases List.mem_cons.mp hother with rfl | hother
      · exact le_max_left _ _
      · exact (ih other hother).trans (le_max_right _ _)

/-! ## What a table is converted to -/

theorem map_converted {convert : Value F → Except ArgumentsError (JsonValue F)}
    {values : List (Value F)} {jsons : List (JsonValue F)}
    (h : List.Forall₂ (fun value json => convert value = .ok json) values jsons) :
    values.map (converted convert) = jsons := by
  induction h with
  | nil => rfl
  | cons hvalue _ ih => simp [converted, hvalue, ih]

theorem not_fails_zip {convert : Value F → Except ArgumentsError (JsonValue F)}
    {list : List (Entry F)} {keys values : List (Value F)} {jsons : List (JsonValue F)}
    (hperm : list.Perm (keys.zip values))
    (h : List.Forall₂ (fun value json => convert value = .ok json) values jsons) :
    ¬ Fails (convertEntries convert list {}) := by
  rw [fails_convertEntries]
  rintro ⟨⟨key, value⟩, hmem, _, hfails⟩
  have hvalue := (List.of_mem_zip (hperm.mem_iff.mp hmem)).2
  obtain ⟨i, hi, rfl⟩ := List.getElem_of_mem hvalue
  have hget := h.get hi (by rw [← h.length_eq]; exact hi)
  simp only [List.get_eq_getElem] at hget
  rw [hget] at hfails
  exact not_fails_ok _ hfails

theorem filterMap_asInteger (keys : List Int) (values : List (Value F)) :
    ((keys.map Value.integer).zip values).filterMap asInteger = keys.zip values := by
  induction keys generalizing values with
  | nil => rfl
  | cons key keys ih => cases values <;> simp [asInteger, ih]

theorem filterMap_asString (keys : List Text) (values : List (Value F)) :
    ((keys.map Value.string).zip values).filterMap asString = keys.zip values := by
  induction keys generalizing values with
  | nil => rfl
  | cons key keys ih => cases values <;> simp [asString, ih]

theorem filterMap_asInteger_strings (keys : List Text) (values : List (Value F)) :
    ((keys.map Value.string).zip values).filterMap asInteger = [] := by
  induction keys generalizing values with
  | nil => rfl
  | cons key keys ih => cases values <;> simp [List.filterMap_cons, asInteger, ih]

theorem convertEntries_items {convert : Value F → Except ArgumentsError (JsonValue F)}
    {list : List (Entry F)} {values : List (Value F)} {items : List (JsonValue F)}
    (hperm : list.Perm (((upFrom 1 items.length).map .integer).zip values))
    (h : List.Forall₂ (fun value json => convert value = .ok json) values items)
    (hnonempty : items ≠ []) :
    (convertEntries convert list {}).map Entries.finish = .ok (.array items) := by
  rw [convertEntries_ok (not_fails_zip hperm h)]
  simp only [Except.map, Except.ok.injEq, List.nil_append, Bool.false_or]
  apply finish_numbered
  · rw [no_otherKeys]
    intro key hkey
    rw [(hperm.map Prod.fst).mem_iff] at hkey
    obtain ⟨⟨key', value⟩, hmem, rfl⟩ := List.mem_map.mp hkey
    obtain ⟨n, _, hn⟩ := List.mem_map.mp (List.of_mem_zip hmem).1
    exact ⟨n, hn.symm⟩
  · exact hnonempty
  · have hentries := (hperm.filterMap asInteger).map (Prod.map id (converted convert))
    rw [filterMap_asInteger, ← List.zip_map_right, map_converted h] at hentries
    exact hentries

theorem convertEntries_fields {convert : Value F → Except ArgumentsError (JsonValue F)}
    {list : List (Entry F)} {values : List (Value F)} {fields : List (Text × JsonValue F)}
    (hperm : list.Perm (((fields.map Prod.fst).map .string).zip values))
    (h : List.Forall₂ (fun value json => convert value = .ok json) values
      (fields.map Prod.snd))
    (hsorted : fields.Pairwise fun a b => a.1 < b.1) :
    (convertEntries convert list {}).map Entries.finish = .ok (.object fields) := by
  rw [convertEntries_ok (not_fails_zip hperm h)]
  have hnone : list.filterMap asInteger = [] := by
    have := hperm.filterMap asInteger
    rw [filterMap_asInteger_strings] at this
    exact this.eq_nil
  have hfields : (fields.map Prod.fst).zip (fields.map Prod.snd) = fields :=
    (List.zip_of_prod rfl rfl).symm
  have hstrings := (hperm.filterMap asString).map (Prod.map id (converted convert))
  rw [filterMap_asString, ← List.zip_map_right, map_converted h, hfields] at hstrings
  simp [Except.map, Entries.finish, hnone, setKeys_eq hstrings hsorted]

/-! ## What is pushed -/

structure Grown (before after : State F) : Prop where
  next_le : before.next ≤ after.next
  same : ∀ table < before.next, after.tables table = before.tables table

section

variable [DecidableEq F]

/-- As long as the tables from one to another are what they are, a value is converted to a
JSON value at whatever depth there is room for it. -/
structure Stands (runtime : Runtime F) (tables : Nat → Table F) (low high : Nat)
    (value : Value F) (json : JsonValue F) : Prop where
  ne_nil : value ≠ .nil
  convert : ∀ (others : Nat → Table F) (levels : Nat) (ancestors : List Nat),
    (∀ table, low ≤ table → table < high → others table = tables table) →
    nesting json ≤ levels → (∀ table ∈ ancestors, table < low) →
    convertValue runtime others levels ancestors value = .ok json

theorem Stands.widen {runtime : Runtime F} {tables tables' : Nat → Table F}
    {low high low' high' : Nat} {value : Value F} {json : JsonValue F}
    (h : Stands runtime tables low high value json) (hlow : low' ≤ low) (hhigh : high ≤ high')
    (hsame : ∀ table, low ≤ table → table < high → tables' table = tables table) :
    Stands runtime tables' low' high' value json where
  ne_nil := h.ne_nil
  convert := by
    intro others levels ancestors hothers hlevels hancestors
    apply h.convert others levels ancestors _ hlevels
    · intro table hmem
      have := hancestors table hmem
      omega
    · intro table hle hlt
      rw [hothers table (by omega) (by omega), hsame table hle hlt]

theorem stands_scalar (runtime : Runtime F) (tables : Nat → Table F) (low high : Nat)
    {value : Value F} (hnil : value ≠ .nil) (h : ∀ table, value ≠ .table table) :
    Stands runtime tables low high value (scalarToJson value) where
  ne_nil := hnil
  convert := by
    intro others levels ancestors _ _ _
    exact convertValue_scalar runtime others h levels ancestors

def Pushed (runtime : Runtime F) (json : JsonValue F) (before after : State F) : Prop :=
  ∃ value, after.stack = value :: before.stack ∧ Grown before after ∧
    Stands runtime after.tables before.next after.next value json

structure Put (runtime : Runtime F) (table : Nat) (keys : List (Value F))
    (jsons : List (JsonValue F)) (before after : State F) : Prop where
  stack : after.stack = before.stack
  next_le : before.next ≤ after.next
  same : ∀ other < before.next, other ≠ table → after.tables other = before.tables other
  entries : ∃ values, (after.tables table).entries = (before.tables table).entries ++
    keys.zip values ∧
    List.Forall₂ (Stands runtime after.tables before.next after.next) values jsons

theorem Put.nil (runtime : Runtime F) (table : Nat) (state : State F) :
    Put runtime table [] [] state state where
  stack := rfl
  next_le := Nat.le_refl _
  same := by simp
  entries := ⟨[], by simp, .nil⟩

theorem Put.cons {runtime : Runtime F} {table : Nat} {key : Value F} {keys : List (Value F)}
    {json : JsonValue F} {jsons : List (JsonValue F)} {first second third last : State F}
    {value : Value F} (htable : table < first.next) (hgrown : Grown first second)
    (hstands : Stands runtime second.tables first.next second.next value json)
    (hstack : third.stack = first.stack) (hnext : third.next = second.next)
    (htables : ∀ other, other ≠ table → third.tables other = second.tables other)
    (hentries : (third.tables table).entries = (first.tables table).entries ++ [(key, value)])
    (h : Put runtime table keys jsons third last) :
    Put runtime table (key :: keys) (json :: jsons) first last := by
  have hle := hgrown.next_le
  have hle' := h.next_le
  rw [hnext] at hle'
  constructor
  · rw [h.stack, hstack]
  · omega
  · intro other hlow hne
    rw [h.same other (by omega) hne, htables other hne, hgrown.same other hlow]
  · obtain ⟨values, hvalues, hall⟩ := h.entries
    refine ⟨value :: values, ?_, .cons ?_ ?_⟩
    · rw [hvalues, hentries]
      simp
    · apply hstands.widen (Nat.le_refl _) hle'
      intro other hlow hhigh
      rw [h.same other (by omega) (by omega), htables other (by omega)]
    · apply hall.imp
      intro value json hvalue
      apply hvalue.widen _ (Nat.le_refl _)
      · intro _ _ _
        rfl
      · omega

theorem Put.converts {runtime : Runtime F} {keys : List (Value F)} {jsons : List (JsonValue F)}
    {state after : State F} (h : Put runtime state.next keys jsons state.pushTable after)
    {others : Nat → Table F} {levels : Nat} {ancestors : List Nat}
    (hothers : ∀ table, state.next ≤ table → table < after.next →
      others table = after.tables table)
    (hlevels : ∀ json ∈ jsons, nesting json ≤ levels)
    (hancestors : ∀ table ∈ ancestors, table < state.next) :
    ∃ values, (others state.next).entries = keys.zip values ∧
      List.Forall₂ (fun value json =>
        convertValue runtime others levels (state.next :: ancestors) value = .ok json)
        values jsons := by
  obtain ⟨values, hentries, hall⟩ := h.entries
  have hnext := h.next_le
  simp only [State.pushTable] at hnext
  refine ⟨values, ?_, ?_⟩
  · rw [hothers _ (Nat.le_refl _) (by omega), hentries]
    simp [State.pushTable, Table.empty]
  · have hboth := (List.forall₂_and_left jsons values).mpr ⟨hlevels, hall.flip⟩
    apply hboth.flip.imp
    rintro value json ⟨hlevel, hstands⟩
    apply hstands.convert others levels _ _ hlevel
    · intro table hmem
      rcases List.mem_cons.mp hmem with rfl | hmem
      · exact Nat.lt_succ_self _
      · exact Nat.lt_succ_of_lt (hancestors table hmem)
    · intro table hlow hhigh
      simp only [State.pushTable] at hlow
      exact hothers table (by omega) hhigh

/-! ## Every value that crosses -/

section

variable {runtime : Runtime F} {levels : Nat} {state after : State F}

theorem stands_array {items : List (JsonValue F)} (hnonempty : items ≠ [])
    (h : Put runtime state.next ((upFrom 1 items.length).map .integer) items
      state.pushTable after) :
    Stands runtime after.tables state.next after.next (.table state.next) (.array items) where
  ne_nil := by simp
  convert := by
    intro others levels ancestors hothers hlevels hancestors
    rw [nesting] at hlevels
    obtain ⟨below, rfl⟩ : ∃ n, levels = n + 1 := ⟨levels - 1, by omega⟩
    have hbelow : ∀ json ∈ items, nesting json ≤ below := by
      intro json hjson
      have := nesting_le_items json hjson
      omega
    obtain ⟨values, hentries, hall⟩ := h.converts hothers hbelow hancestors
    have hnew : state.next ∉ ancestors := fun hmem => (hancestors _ hmem).false
    rw [convertValue, if_neg hnew]
    apply convertEntries_items _ hall hnonempty
    rw [← hentries]
    exact runtime.order_perm _ _

theorem stands_object {fields : List (Text × JsonValue F)}
    (hsorted : fields.Pairwise fun a b => a.1 < b.1)
    (h : Put runtime state.next (fields.map fun field => .string field.1)
      (fields.map Prod.snd) state.pushTable after) :
    Stands runtime after.tables state.next after.next (.table state.next) (.object fields) where
  ne_nil := by simp
  convert := by
    intro others levels ancestors hothers hlevels hancestors
    rw [nesting] at hlevels
    obtain ⟨below, rfl⟩ : ∃ n, levels = n + 1 := ⟨levels - 1, by omega⟩
    have hbelow : ∀ json ∈ fields.map Prod.snd, nesting json ≤ below := by
      intro json hjson
      have := nesting_le_fields json hjson
      omega
    obtain ⟨values, hentries, hall⟩ := h.converts hothers hbelow hancestors
    have hnew : state.next ∉ ancestors := fun hmem => (hancestors _ hmem).false
    rw [convertValue, if_neg hnew]
    apply convertEntries_fields _ hall hsorted
    have hkeys : (fields.map Prod.fst).map Value.string =
        fields.map fun field => (.string field.1 : Value F) := by
      rw [List.map_map]
      rfl
    rw [hkeys, ← hentries]
    exact runtime.order_perm _ _

theorem pushed_scalar (runtime : Runtime F) (state : State F) (value : Value F)
    (hnil : value ≠ .nil) (h : ∀ table, value ≠ .table table) :
    Pushed runtime (scalarToJson value) state (state.push value) :=
  ⟨value, rfl, ⟨Nat.le_refl _, fun _ _ => rfl⟩, stands_scalar runtime _ _ _ hnil h⟩

theorem pushed_table {json : JsonValue F} {keys : List (Value F)} {jsons : List (JsonValue F)}
    (h : Put runtime state.next keys jsons state.pushTable after)
    (hstands : Stands runtime after.tables state.next after.next (.table state.next) json) :
    Pushed runtime json state after := by
  have hnext := h.next_le
  simp only [State.pushTable] at hnext
  refine ⟨.table state.next, h.stack, ⟨by omega, ?_⟩, hstands⟩
  intro table hlow
  rw [h.same table (Nat.lt_succ_of_lt hlow) (by omega)]
  simp only [State.pushTable]
  rw [if_neg (by omega)]

end

def Suffices (runtime : Runtime F) (levels : Nat) : Prop :=
  ∀ (json : JsonValue F) (state : State F), json.Crosses → json.nesting ≤ levels →
    ∃ after, pushJson runtime levels json state = (true, after) ∧ Pushed runtime json state after

theorem rawSetI_top (runtime : Runtime F) {state : State F} {table : Nat} {value : Value F}
    {base : List (Value F)} (h : state.stack = value :: .table table :: base) (n : Int) :
    runtime.rawSetI state (-2) n =
      { state.assign table (.integer n) value with stack := .table table :: base } :=
  runtime.rawSetI_eq (by decide) (by simp [State.valueAt, h]) h n

theorem rawSet_top (runtime : Runtime F) {state : State F} {table : Nat} {value : Value F}
    {key : Text} {base : List (Value F)}
    (h : state.stack = value :: .string key :: .table table :: base) :
    runtime.rawSet state (-3) =
      { state.assign table (.string key) value with stack := .table table :: base } :=
  runtime.rawSet_eq (by decide) (by simp [State.valueAt, h]) h

theorem assign_entries {state : State F} {table : Nat} {key value : Value F}
    (hkey : key ≠ .nil) (hvalue : value ≠ .nil)
    (hnew : key ∉ (state.tables table).entries.map Prod.fst) :
    ((state.assign table key value).tables table).entries =
      (state.tables table).entries ++ [(key, value)] := by
  simp only [State.assign, if_true]
  exact Table.entries_set_new hkey hvalue hnew

theorem assign_other {state : State F} {table other : Nat} (key value : Value F)
    (h : other ≠ table) : (state.assign table key value).tables other = state.tables other := by
  simp [State.assign, h]

variable {runtime : Runtime F}

theorem pushItems_put {levels : Nat} (hlevels : Suffices runtime levels)
    {items : List (JsonValue F)} (hitems : ItemsCross items)
    (hnesting : itemsNesting items ≤ levels) {n : Int} {state : State F} {table : Nat}
    {base : List (Value F)} (hstack : state.stack = .table table :: base)
    (htable : table < state.next)
    (hkeys : ∀ key ∈ (state.tables table).entries.map Prod.fst, ∃ k < n, key = .integer k) :
    ∃ after, pushItems runtime levels n items state = (true, after) ∧
      Put runtime table ((upFrom n items.length).map .integer) items state after := by
  induction items generalizing n state with
  | nil => exact ⟨state, by rw [pushItems], Put.nil runtime table state⟩
  | cons item items ih =>
      rw [ItemsCross] at hitems
      rw [itemsNesting] at hnesting
      obtain ⟨second, hsecond, value, hpushed, hgrown, hstands⟩ :=
        hlevels item state hitems.1 (by omega)
      rw [hstack] at hpushed
      have hset := rawSetI_top runtime hpushed n
      have hsame : second.tables table = state.tables table := hgrown.same table htable
      have hnew : Value.integer n ∉ (second.tables table).entries.map Prod.fst := by
        rw [hsame]
        intro hmem
        obtain ⟨k, hlt, hk⟩ := hkeys _ hmem
        simp only [Value.integer.injEq] at hk
        omega
      have hentries := @assign_entries F _ second table (.integer n) value (by simp) hstands.ne_nil
        hnew
      have hnext : (runtime.rawSetI second (-2) n).next = second.next := by
        rw [hset]
        rfl
      have htables : (runtime.rawSetI second (-2) n).tables =
          (second.assign table (.integer n) value).tables := by
        rw [hset]
      obtain ⟨last, hlast, hput⟩ := @ih hitems.2 (by omega) (n + 1) (runtime.rawSetI second (-2) n)
        (by rw [hset]) (by rw [hnext]; exact Nat.lt_of_lt_of_le htable hgrown.next_le) (by
          rw [htables, hentries, hsame, List.map_append]
          intro key hkey
          rcases List.mem_append.mp hkey with hold | hhere
          · obtain ⟨k, hlt, hk⟩ := hkeys key hold
            exact ⟨k, by omega, hk⟩
          · exact ⟨n, by omega, by simpa using hhere⟩)
      refine ⟨last, ?_, ?_⟩
      · rw [pushItems, hsecond]
        exact hlast
      · apply Put.cons htable hgrown hstands _ hnext _ _ hput
        · rw [hset, hstack]
        · intro other hother
          rw [htables, assign_other _ _ hother]
        · rw [htables, hentries, hsame]

theorem pushFields_put {levels : Nat} (hlevels : Suffices runtime levels)
    {fields : List (Text × JsonValue F)} (hfields : FieldsCross fields)
    (hnesting : fieldsNesting fields ≤ levels) {state : State F} {table : Nat}
    {base : List (Value F)} (hstack : state.stack = .table table :: base)
    (htable : table < state.next) (hdistinct : (fields.map Prod.fst).Nodup)
    (hkeys : ∀ key ∈ fields.map Prod.fst,
      Value.string key ∉ (state.tables table).entries.map Prod.fst) :
    ∃ after, pushFields runtime levels fields state = (true, after) ∧
      Put runtime table (fields.map fun field => .string field.1) (fields.map Prod.snd)
        state after := by
  induction fields generalizing state with
  | nil => exact ⟨state, by rw [pushFields], Put.nil runtime table state⟩
  | cons field fields ih =>
      obtain ⟨key, json⟩ := field
      rw [FieldsCross] at hfields
      rw [fieldsNesting] at hnesting
      simp only [List.map_cons, List.nodup_cons] at hdistinct
      obtain ⟨second, hsecond, value, hpushed, hgrown, hstands⟩ :=
        hlevels json (state.push (.string key)) hfields.1 (by omega)
      have hgrown' : Grown state second := ⟨hgrown.next_le, hgrown.same⟩
      simp only [State.push, hstack] at hpushed
      have hset := rawSet_top runtime hpushed
      have hsame : second.tables table = state.tables table := hgrown'.same table htable
      have hnew : Value.string key ∉ (second.tables table).entries.map Prod.fst := by
        rw [hsame]
        exact hkeys key (by simp)
      have hentries := @assign_entries F _ second table (.string key) value (by simp)
        hstands.ne_nil hnew
      have hnext : (runtime.rawSet second (-3)).next = second.next := by
        rw [hset]
        rfl
      have htables : (runtime.rawSet second (-3)).tables =
          (second.assign table (.string key) value).tables := by
        rw [hset]
      obtain ⟨last, hlast, hput⟩ := @ih hfields.2 (by omega) (runtime.rawSet second (-3))
        (by rw [hset]) (by rw [hnext]; exact Nat.lt_of_lt_of_le htable hgrown'.next_le)
        hdistinct.2 (by
          rw [htables, hentries, hsame, List.map_append]
          intro other hother hmem
          rcases List.mem_append.mp hmem with hold | hhere
          · exact hkeys other (List.mem_cons_of_mem _ hother) hold
          · simp only [List.map_cons, List.map_nil, List.mem_singleton,
              Value.string.injEq] at hhere
            exact hdistinct.1 (hhere ▸ hother))
      refine ⟨last, ?_, ?_⟩
      · rw [pushFields, hsecond]
        exact hlast
      · apply Put.cons htable hgrown' hstands _ hnext _ _ hput
        · rw [hset, hstack]
        · intro other hother
          rw [htables, assign_other _ _ hother]
        · rw [htables, hentries, hsame]

section

variable (hroom : ∀ state n, runtime.checkStack state n)
include hroom

theorem pushJson_scalar (levels : Nat) {json : JsonValue F} (state : State F)
    (hcrosses : json.Crosses) (h : nesting json = 0) :
    ∃ after, pushJson runtime levels json state = (true, after) ∧
      Pushed runtime json state after := by
  cases json with
  | null => simp [Crosses] at hcrosses
  | boolean b =>
      refine ⟨state.push (.boolean b), by simp [pushJson, hroom], ?_⟩
      exact pushed_scalar runtime state (.boolean b) (by simp) (by simp)
  | integer n =>
      refine ⟨state.push (.integer n), ?_, ?_⟩
      · simp [pushJson, hroom, toInt64_of_fits hcrosses]
      · exact pushed_scalar runtime state (.integer n) (by simp) (by simp)
  | number x =>
      refine ⟨state.push (.number x), by simp [pushJson, hroom], ?_⟩
      exact pushed_scalar runtime state (.number x) (by simp) (by simp)
  | string s =>
      refine ⟨state.push (.string s), by simp [pushJson, hroom], ?_⟩
      exact pushed_scalar runtime state (.string s) (by simp) (by simp)
  | array items => simp [nesting] at h
  | object fields => simp [nesting] at h

theorem suffices_levels (levels : Nat) : Suffices runtime levels := by
  induction levels with
  | zero =>
      intro json state hcrosses hnesting
      exact pushJson_scalar hroom 0 state hcrosses (Nat.le_zero.mp hnesting)
  | succ levels ih =>
      intro json state hcrosses hnesting
      cases json with
      | array items =>
          rw [nesting] at hnesting
          obtain ⟨after, hpush, hput⟩ := @pushItems_put F _ runtime levels ih items hcrosses.2
            (by omega) 1 state.pushTable state.next state.stack rfl (Nat.lt_succ_self _)
            (by simp [State.pushTable, Table.empty])
          refine ⟨after, ?_, pushed_table hput (stands_array hcrosses.1 hput)⟩
          simpa [pushJson, hroom, runtime.newTable_eq] using hpush
      | object fields =>
          rw [nesting] at hnesting
          have hdistinct : (fields.map Prod.fst).Nodup := by
            rw [List.Nodup, List.pairwise_map]
            exact hcrosses.1.imp fun h => ne_of_lt h
          obtain ⟨after, hpush, hput⟩ := @pushFields_put F _ runtime levels ih fields hcrosses.2
            (by omega) state.pushTable state.next state.stack rfl (Nat.lt_succ_self _) hdistinct
            (by simp [State.pushTable, Table.empty])
          refine ⟨after, ?_, pushed_table hput (stands_object hcrosses.1 hput)⟩
          simpa [pushJson, hroom, runtime.newTable_eq] using hpush
      | _ => exact pushJson_scalar hroom _ state hcrosses rfl

end

end

end Haisos.LuaProcess
