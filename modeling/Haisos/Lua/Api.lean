import Mathlib.Tactic

/-!
# Lua's stack and tables

The part of Lua's C interface that moves values between the stack and tables, as its
manual has it.  The order that `lua_next` goes through a table in is any order.
-/

namespace Lua

/-- A value over a type of floats; functions, userdata and threads are only told apart. -/
inductive Value (F : Type) where
  | nil
  | boolean (value : Bool)
  | integer (value : Int)
  | number (value : F)
  | string (value : List Char)
  | table (id : Nat)
  | other (id : Nat)
  deriving DecidableEq

abbrev Entry (F : Type) := Value F × Value F

variable {F : Type} [DecidableEq F]

/-- The entries when a key is given a value; `nil` takes the entry away. -/
def assigned (entries : List (Entry F)) (key value : Value F) : List (Entry F) :=
  if value = .nil then entries.filter fun entry => entry.1 ≠ key
  else if key ∈ entries.map Prod.fst then
    entries.map fun entry => if entry.1 = key then (key, value) else entry
  else entries ++ [(key, value)]

/-- No key is there twice, and neither a key nor a value is `nil`. -/
structure Table (F : Type) where
  entries : List (Entry F)
  distinct : (entries.map Prod.fst).Nodup
  filled : ∀ entry ∈ entries, entry.1 ≠ .nil ∧ entry.2 ≠ .nil

def Table.empty : Table F := ⟨[], List.nodup_nil, by simp⟩

theorem assigned_keys_nodup {entries : List (Entry F)} (h : (entries.map Prod.fst).Nodup)
    (key value : Value F) : ((assigned entries key value).map Prod.fst).Nodup := by
  rw [assigned]
  split_ifs with hnil hmem
  · exact h.sublist (List.filter_sublist.map Prod.fst)
  · have hkeys : (entries.map fun entry => if entry.1 = key then (key, value) else entry).map
        Prod.fst = entries.map Prod.fst := by
      rw [List.map_map]
      apply List.map_congr_left
      intro entry _
      simp only [Function.comp_apply]
      split_ifs with hkey
      · exact hkey.symm
      · rfl
    rw [hkeys]
    exact h
  · rw [List.map_append, List.nodup_append]
    refine ⟨h, by simp, ?_⟩
    rintro a ha b hb rfl
    simp only [List.map_cons, List.map_nil, List.mem_singleton] at hb
    exact hmem (hb ▸ ha)

theorem assigned_filled {entries : List (Entry F)}
    (h : ∀ entry ∈ entries, entry.1 ≠ .nil ∧ entry.2 ≠ .nil) {key : Value F} (hkey : key ≠ .nil)
    (value : Value F) :
    ∀ entry ∈ assigned entries key value, entry.1 ≠ .nil ∧ entry.2 ≠ .nil := by
  intro entry hentry
  rw [assigned] at hentry
  split_ifs at hentry with hnil hmem
  · exact h entry (List.mem_filter.mp hentry).1
  · obtain ⟨before, hbefore, rfl⟩ := List.mem_map.mp hentry
    split_ifs
    · exact ⟨hkey, hnil⟩
    · exact h before hbefore
  · rcases List.mem_append.mp hentry with hold | hnew
    · exact h entry hold
    · rw [List.mem_singleton.mp hnew]
      exact ⟨hkey, hnil⟩

/-- A table is not given a value under `nil`. -/
def Table.set (table : Table F) (key value : Value F) : Table F :=
  if h : key = .nil then table
  else
    { entries := assigned table.entries key value
      distinct := assigned_keys_nodup table.distinct key value
      filled := assigned_filled table.filled h value }

theorem Table.entries_set_new {table : Table F} {key value : Value F} (hkey : key ≠ .nil)
    (hvalue : value ≠ .nil) (hnew : key ∉ table.entries.map Prod.fst) :
    (table.set key value).entries = table.entries ++ [(key, value)] := by
  rw [Table.set, dif_neg hkey]
  simp only [assigned, if_neg hvalue, if_neg hnew]

/-! ## The state -/

/-- The stack, its top first, and the tables by their identity; `next` is not yet one. -/
structure State (F : Type) where
  stack : List (Value F)
  tables : Nat → Table F
  next : Nat

namespace State

def push (state : State F) (value : Value F) : State F :=
  { state with stack := value :: state.stack }

def pop (state : State F) (n : Nat) : State F := { state with stack := state.stack.drop n }

def getTop (state : State F) : Nat := state.stack.length

/-- `lua_settop`. -/
def setTop (state : State F) (n : Nat) : State F :=
  { state with
    stack := List.replicate (n - state.stack.length) .nil ++
      state.stack.drop (state.stack.length - n) }

def absIndex (state : State F) (index : Int) : Int :=
  if index > 0 then index else state.getTop + index + 1

/-- The value at an index, from the bottom where it is positive and from the top where it is
negative. -/
def valueAt (state : State F) (index : Int) : Value F :=
  if index > 0 then (state.stack.reverse[index.toNat - 1]?).getD .nil
  else (state.stack[(-index).toNat - 1]?).getD .nil

/-- An empty table is put on the stack. -/
def pushTable (state : State F) : State F where
  stack := .table state.next :: state.stack
  tables := fun table => if table = state.next then .empty else state.tables table
  next := state.next + 1

def assign (state : State F) (table : Nat) (key value : Value F) : State F :=
  { state with
    tables := fun other =>
      if other = table then (state.tables table).set key value else state.tables other }

end State

/-- The entry that comes after a key, and the first one after `nil`. -/
def entryAfter (entries : List (Entry F)) (key : Value F) : Option (Entry F) :=
  if key = .nil then entries.head?
  else (entries.dropWhile fun entry => entry.1 ≠ key).tail.head?

/-- Lua as an implementation has it: the order of a table's entries, how far the stack grows,
and the functions of its interface that go to the tables.  Only for valid calls are they told. -/
structure Runtime (F : Type) [DecidableEq F] where
  order : Nat → List (Entry F) → List (Entry F)
  order_perm : ∀ table entries, (order table entries).Perm entries
  checkStack : State F → Nat → Bool
  newTable : State F → State F
  newTable_eq : ∀ state, newTable state = state.pushTable
  rawSetI : State F → Int → Int → State F
  /-- `lua_rawseti` pops the value. -/
  rawSetI_eq : ∀ {state : State F} {index table value stack},
    index ≠ 0 → state.valueAt index = .table table → state.stack = value :: stack →
    ∀ n, rawSetI state index n = { state.assign table (.integer n) value with stack }
  rawSet : State F → Int → State F
  /-- `lua_rawset` pops the key and the value. -/
  rawSet_eq : ∀ {state : State F} {index table value key stack},
    index ≠ 0 → state.valueAt index = .table table → state.stack = value :: .string key :: stack →
    rawSet state index = { state.assign table (.string key) value with stack }
  nextEntry : State F → Int → Bool × State F
  /-- `lua_next` pops the key, and pushes the next one and its value. -/
  nextEntry_some : ∀ {state : State F} {index table key stack entry},
    index ≠ 0 → state.valueAt index = .table table → state.stack = key :: stack →
    (key = .nil ∨ key ∈ (state.tables table).entries.map Prod.fst) →
    entryAfter (order table (state.tables table).entries) key = some entry →
    nextEntry state index = (true, { state with stack := entry.2 :: entry.1 :: stack })
  nextEntry_none : ∀ {state : State F} {index table key stack},
    index ≠ 0 → state.valueAt index = .table table → state.stack = key :: stack →
    (key = .nil ∨ key ∈ (state.tables table).entries.map Prod.fst) →
    entryAfter (order table (state.tables table).entries) key = none →
    nextEntry state index = (false, { state with stack })

omit [DecidableEq F] in
theorem State.valueAt_append {state : State F} (above : List (Value F)) {below : List (Value F)}
    {index : Int} (hstack : state.stack = above ++ below) (hpos : 0 < index)
    (hindex : index.toNat ≤ below.length) :
    state.valueAt index = ({ state with stack := below } : State F).valueAt index := by
  have hlt : index.toNat - 1 < below.reverse.length := by
    rw [List.length_reverse]
    omega
  simp only [State.valueAt, hpos, if_true, hstack, List.reverse_append]
  rw [List.getElem?_append_left hlt]

omit [DecidableEq F] in
theorem State.valueAt_absIndex {state : State F} {index : Int}
    (hpos : 0 < state.absIndex index) (hindex : (state.absIndex index).toNat ≤ state.stack.length) :
    state.valueAt (state.absIndex index) = state.valueAt index := by
  by_cases hfromBottom : index > 0
  · simp [State.absIndex, hfromBottom]
  · simp only [State.absIndex, hfromBottom, if_false, State.getTop] at hpos hindex ⊢
    have hlt : (state.stack.length + index + 1).toNat - 1 < state.stack.length := by omega
    simp only [State.valueAt, hpos, hfromBottom, if_true, if_false]
    rw [List.getElem?_reverse hlt]
    congr 2
    omega

theorem entryAfter_nil (entries : List (Entry F)) : entryAfter entries .nil = entries.head? :=
  rfl

theorem entryAfter_key {before after : List (Entry F)} {entry : Entry F}
    (hdistinct : ((before ++ entry :: after).map Prod.fst).Nodup) (hkey : entry.1 ≠ .nil) :
    entryAfter (before ++ entry :: after) entry.1 = after.head? := by
  have hbefore : ∀ other ∈ before, other.1 ≠ entry.1 := by
    intro other hother heq
    rw [List.map_append, List.nodup_append] at hdistinct
    exact hdistinct.2.2 _ (List.mem_map_of_mem hother) _ (by simp) heq
  rw [entryAfter, if_neg hkey, List.dropWhile_append_of_pos (by simpa using hbefore)]
  simp

/-! ## A runtime -/

namespace State

def rawSetI (state : State F) (index : Int) (n : Int) : State F :=
  match state.valueAt index, state.stack with
  | .table table, value :: stack =>
      { state.assign table (.integer n) value with stack }
  | _, _ => state

def rawSet (state : State F) (index : Int) : State F :=
  match state.valueAt index, state.stack with
  | .table table, value :: key :: stack => { state.assign table key value with stack }
  | _, _ => state

def nextEntry (order : Nat → List (Entry F) → List (Entry F)) (state : State F) (index : Int) :
    Bool × State F :=
  match state.valueAt index, state.stack with
  | .table table, key :: stack =>
      match entryAfter (order table (state.tables table).entries) key with
      | some entry => (true, { state with stack := entry.2 :: entry.1 :: stack })
      | none => (false, { state with stack })
  | _, _ => (false, state)

end State

/-- The runtime of an order and of a bound on the stack. -/
def Runtime.ofOrder (order : Nat → List (Entry F) → List (Entry F))
    (order_perm : ∀ table entries, (order table entries).Perm entries)
    (checkStack : State F → Nat → Bool) : Runtime F where
  order := order
  order_perm := order_perm
  checkStack := checkStack
  newTable := State.pushTable
  newTable_eq _ := rfl
  rawSetI := State.rawSetI
  rawSetI_eq _ hindex hstack n := by simp [State.rawSetI, hindex, hstack]
  rawSet := State.rawSet
  rawSet_eq _ hindex hstack := by simp [State.rawSet, hindex, hstack]
  nextEntry := State.nextEntry order
  nextEntry_some _ hindex hstack _ hentry := by simp [State.nextEntry, hindex, hstack, hentry]
  nextEntry_none _ hindex hstack _ hentry := by simp [State.nextEntry, hindex, hstack, hentry]

end Lua
