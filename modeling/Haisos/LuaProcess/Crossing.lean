import Haisos.LuaProcess.Pushed

/-!
# Values across the Lua bridge

What `PushJson` refuses, what the trampoline does then, and what of a value and of a
table comes through the bridge.
-/

namespace Haisos.LuaProcess

open Hsh (Text text)
open Lua StateExcept
open JsonValue

section

variable {F : Type} [DecidableEq F] {runtime : Runtime F}

/-! ## Values that are too deep -/

/-- What is pushed is one value; what is left of one that is refused is above the stack. -/
structure Lands (base : List (Value F)) (result : Bool × State F) : Prop where
  one : result.1 = true → ∃ value, result.2.stack = value :: base
  above : ∃ above, result.2.stack = above ++ base

def Refuses (runtime : Runtime F) (levels : Nat) : Prop :=
  ∀ (json : JsonValue F) (state : State F),
    ((pushJson runtime levels json state).1 = false ↔ levels < nesting json) ∧
      Lands state.stack (pushJson runtime levels json state)

omit [DecidableEq F] in
theorem Lands.of_push (state : State F) (value : Value F) :
    Lands state.stack (true, state.push value) where
  one _ := ⟨value, rfl⟩
  above := ⟨[value], rfl⟩

omit [DecidableEq F] in
theorem Lands.of_refused (state : State F) : Lands state.stack (false, state) where
  one h := by cases h
  above := ⟨[], rfl⟩

/-- Of a table that is being filled: itself is on the stack, or something above it. -/
structure Fills (table : Nat) (base : List (Value F)) (result : Bool × State F) : Prop where
  all : result.1 = true → result.2.stack = .table table :: base
  above : ∃ above, result.2.stack = above ++ base

omit [DecidableEq F] in
theorem Fills.lands {table : Nat} {base : List (Value F)} {result : Bool × State F}
    (h : Fills table base result) : Lands base result where
  one htrue := ⟨.table table, h.all htrue⟩
  above := h.above

omit [DecidableEq F] in
theorem Lands.below {table : Nat} {base : List (Value F)} {state : State F}
    (h : Lands (.table table :: base) (false, state)) : Fills table base (false, state) where
  all htrue := by cases htrue
  above := by
    obtain ⟨above, habove⟩ := h.above
    exact ⟨above ++ [.table table], by simpa using habove⟩

theorem pushItems_refuses {levels : Nat} (hlevels : Refuses runtime levels)
    (items : List (JsonValue F)) (n : Int) {state : State F} {table : Nat}
    {base : List (Value F)} (hstack : state.stack = .table table :: base) :
    ((pushItems runtime levels n items state).1 = false ↔ levels < itemsNesting items) ∧
      Fills table base (pushItems runtime levels n items state) := by
  induction items generalizing n state with
  | nil =>
      rw [pushItems, itemsNesting]
      exact ⟨by simp, fun _ => hstack, ⟨[.table table], hstack⟩⟩
  | cons item items ih =>
      obtain ⟨hrefused, hlands⟩ := hlevels item state
      rw [hstack] at hlands
      rw [pushItems, itemsNesting, lt_max_iff]
      cases hpush : pushJson runtime levels item state with
      | mk pushed after =>
          rw [hpush] at hrefused hlands
          cases pushed with
          | false => exact ⟨by simp [hrefused.mp], hlands.below⟩
          | true =>
              obtain ⟨value, hvalue⟩ := hlands.one rfl
              have hshallow : ¬ levels < nesting item := by simp [← hrefused]
              have hset := rawSetI_top runtime hvalue n
              obtain ⟨hrest, hfills⟩ := @ih (n + 1) (runtime.rawSetI after (-2) n) (by rw [hset])
              exact ⟨by simp [hrest, hshallow], hfills⟩

theorem pushFields_refuses {levels : Nat} (hlevels : Refuses runtime levels)
    (fields : List (Text × JsonValue F)) {state : State F} {table : Nat}
    {base : List (Value F)} (hstack : state.stack = .table table :: base) :
    ((pushFields runtime levels fields state).1 = false ↔ levels < fieldsNesting fields) ∧
      Fills table base (pushFields runtime levels fields state) := by
  induction fields generalizing state with
  | nil =>
      rw [pushFields, fieldsNesting]
      exact ⟨by simp, fun _ => hstack, ⟨[.table table], hstack⟩⟩
  | cons field fields ih =>
      obtain ⟨key, json⟩ := field
      obtain ⟨hrefused, hlands⟩ := hlevels json (state.push (.string key))
      simp only [State.push, hstack] at hlands
      rw [pushFields, fieldsNesting, lt_max_iff]
      simp only [State.push] at hrefused ⊢
      rw [hstack] at hrefused ⊢
      cases hpush : pushJson runtime levels json
          { state with stack := .string key :: .table table :: base } with
      | mk pushed after =>
          rw [hpush] at hrefused hlands
          cases pushed with
          | false =>
              obtain ⟨above, habove⟩ := hlands.above
              refine ⟨by simp [hrefused.mp], by simp, ?_⟩
              exact ⟨above ++ [.string key, .table table], by simpa using habove⟩
          | true =>
              obtain ⟨value, hvalue⟩ := hlands.one rfl
              have hshallow : ¬ levels < nesting json := by simp [← hrefused]
              have hset := rawSet_top runtime hvalue
              obtain ⟨hrest, hfills⟩ := @ih (runtime.rawSet after (-3)) (by rw [hset])
              exact ⟨by simp [hrest, hshallow], hfills⟩

section

variable (hroom : ∀ state n, runtime.checkStack state n)
include hroom

/-- `PushJson` refuses what is too deep, and nothing else. -/
theorem refuses_levels (levels : Nat) : Refuses runtime levels := by
  induction levels with
  | zero =>
      intro json state
      cases json with
      | array items => simpa [pushJson, hroom, nesting] using Lands.of_refused state
      | object fields => simpa [pushJson, hroom, nesting] using Lands.of_refused state
      | _ => simpa [pushJson, hroom, nesting] using Lands.of_push state _
  | succ levels ih =>
      intro json state
      cases json with
      | array items =>
          obtain ⟨hrefused, hfills⟩ := @pushItems_refuses F _ runtime levels ih items 1
            state.pushTable state.next state.stack rfl
          simpa [pushJson, hroom, runtime.newTable_eq, nesting, hrefused] using hfills.lands
      | object fields =>
          obtain ⟨hrefused, hfills⟩ := @pushFields_refuses F _ runtime levels ih fields
            state.pushTable state.next state.stack rfl
          simpa [pushJson, hroom, runtime.newTable_eq, nesting, hrefused] using hfills.lands
      | _ => simpa [pushJson, hroom, nesting] using Lands.of_push state _

omit [DecidableEq F] hroom in
theorem setTop_append {state after : State F} {above : List (Value F)}
    (h : after.stack = above ++ state.stack) :
    (after.setTop state.getTop).stack = state.stack := by
  simp [State.setTop, State.getTop, h]

omit [DecidableEq F] hroom in
theorem isTable_of_nesting {json : JsonValue F} (h : 0 < nesting json) : json.isTable := by
  cases json <;> first | rfl | simp [nesting] at h

theorem handBack_tooDeep {tools : Tools F} {result : ToolResult} {parsed : JsonValue F}
    (hisError : result.isError = false) (hparse : tools.parse result.content = some parsed)
    (hdeep : kMaxJsonNestingDepth < nesting parsed) (state : State F) :
    (handBack runtime tools result state).stack =
      .boolean false :: .string result.content :: state.stack := by
  obtain ⟨hrefused, hlands⟩ := refuses_levels hroom kMaxJsonNestingDepth parsed state
  have hisTable := isTable_of_nesting (Nat.zero_lt_of_lt hdeep)
  rw [handBack, hparse]
  simp only [hisError, hisTable, Bool.false_eq_true, not_false_eq_true, and_self, if_true]
  cases hpush : pushJson runtime kMaxJsonNestingDepth parsed state with
  | mk pushed after =>
      rw [hpush] at hrefused hlands
      obtain ⟨above, habove⟩ := hlands.above
      have hfalse : pushed = false := hrefused.mpr hdeep
      subst hfalse
      simp only [pushResult, State.push, setTop_append habove]

/-! ## The trampoline -/

structure TableAt (state : State F) (index : Int) (table : Nat) : Prop where
  pos : 0 < state.absIndex index
  le : (state.absIndex index).toNat ≤ state.stack.length
  value : state.valueAt index = .table table

/-- What a tool is called with: the table that is given, or no arguments. -/
def givenArguments (runtime : Runtime F) (state : State F) :
    Except ArgumentsError (JsonValue F) :=
  match state.getTop, state.valueAt 1 with
  | _ + 1, .table _ => (exec (toJson runtime kMaxJsonNestingDepth 1) ⟨state, []⟩).1
  | _, _ => .ok (.object [])

theorem toJson_unchanged {state : State F} {ancestors : List Nat} {index : Int} {table levels : Nat}
    (htable : TableAt state index table) {json : JsonValue F} {conversion : Conversion F}
    (h : exec (toJson runtime levels index) ⟨state, ancestors⟩ = (.ok json, conversion)) :
    conversion = ⟨state, ancestors⟩ ∧
      convertValue runtime state.tables levels ancestors (.table table) = .ok json := by
  obtain ⟨after, hexec, hafter⟩ :=
    gives_toJson hroom levels ⟨state, ancestors⟩ htable.pos htable.le
  rw [h, htable.value] at hexec
  obtain ⟨hjson, rfl⟩ := Prod.mk.inj hexec
  rw [htable.value] at hafter
  exact ⟨hafter json hjson.symm, hjson.symm⟩

theorem luaToolTrampoline_called {tools : Tools F} {toolName : Text} {state : State F}
    {arguments : JsonValue F} {result : ToolResult}
    (hgiven : givenArguments runtime state = .ok arguments) (htool : tools.createTool toolName)
    (hcall : tools.call toolName arguments = .ok result) :
    luaToolTrampoline runtime tools toolName state = handBack runtime tools result state := by
  rw [givenArguments] at hgiven
  rw [luaToolTrampoline]
  cases htop : state.getTop with
  | zero =>
      simp only [htop, Except.ok.injEq] at hgiven ⊢
      simp [htool, hgiven, hcall]
  | succ n =>
      cases hvalue : state.valueAt 1 with
      | table table =>
          simp only [htop, hvalue] at hgiven ⊢
          have htable : TableAt state 1 table := by
            rw [State.getTop] at htop
            refine ⟨by simp [State.absIndex], ?_, hvalue⟩
            simp [State.absIndex, htop]
          cases hexec : exec (toJson runtime kMaxJsonNestingDepth 1) ⟨state, []⟩ with
          | mk outcome conversion =>
              rw [hexec] at hgiven
              simp only at hgiven
              subst hgiven
              have hsame := (toJson_unchanged hroom htable hexec).1
              subst hsame
              simp [htool, hcall]
      | _ =>
          simp only [htop, hvalue, Except.ok.injEq] at hgiven ⊢
          simp [htool, hgiven, hcall]

end

/-! ## The bridge -/

/-- What comes through the bridge. -/
structure ValuesCross (runtime : Runtime F) : Prop where
  roundTrip : ∀ (json : JsonValue F) (state : State F), json.Crosses →
    nesting json ≤ kMaxJsonNestingDepth →
    ∃ value after, pushJson runtime kMaxJsonNestingDepth json state = (true, after) ∧
      after.stack = value :: state.stack ∧
      exec (toJson runtime kMaxJsonNestingDepth (-1)) ⟨after, []⟩ = (.ok json, ⟨after, []⟩)
  refused : ∀ (json : JsonValue F) (state : State F),
    (pushJson runtime kMaxJsonNestingDepth json state).1 = false ↔
      kMaxJsonNestingDepth < nesting json
  handedBack : ∀ (tools : Tools F) (toolName : Text) (state : State F) (arguments : JsonValue F)
    (result : ToolResult) (parsed : JsonValue F),
    givenArguments runtime state = .ok arguments → tools.createTool toolName →
    tools.call toolName arguments = .ok result → result.isError = false →
    tools.parse result.content = some parsed → kMaxJsonNestingDepth < nesting parsed →
    (luaToolTrampoline runtime tools toolName state).stack =
      .boolean false :: .string result.content :: state.stack
  /-- A table's conversion ends, and fails where a way down from it has a table twice or is too
  long. -/
  fails : ∀ (state : State F) (index : Int) (table : Nat), TableAt state index table →
    ∃ result conversion,
      exec (toJson runtime kMaxJsonNestingDepth index) ⟨state, []⟩ = (result, conversion) ∧
      (∀ error, result = .error error → IsMistake error) ∧
      ((∃ error, result = .error error) ↔
        ∃ way, IsWay state.tables (table :: way) ∧
          (¬ (table :: way).Nodup ∨ kMaxJsonNestingDepth < (table :: way).length))
  /-- Where it succeeds, at whatever depth, it changes nothing, and what it gives is an array
  of the entries in order just of a sequence. -/
  sequence : ∀ (levels : Nat) (ancestors : List Nat) (state : State F) (index : Int)
    (table : Nat) (json : JsonValue F) (conversion : Conversion F), TableAt state index table →
    exec (toJson runtime levels index) ⟨state, ancestors⟩ = (.ok json, conversion) →
    conversion = ⟨state, ancestors⟩ ∧
    ((∃ items, json = .array items) ↔ ∃ n, 1 ≤ n ∧ IsSequence (state.tables table) n) ∧
    ∀ items, json = .array items →
      IsSequence (state.tables table) items.length ∧
      ∀ i (hi : i < items.length), ∃ value,
        (.integer (1 + i), value) ∈ (state.tables table).entries ∧
        (exec (toJson runtime (levels - 1) (-1))
          ⟨state.push value, table :: ancestors⟩).1 = .ok items[i]

section

variable (hroom : ∀ state n, runtime.checkStack state n)
include hroom

theorem exec_toJson_top {state : State F} {value : Value F} {base : List (Value F)}
    (hstack : state.stack = value :: base) (levels : Nat) (ancestors : List Nat) :
    ∃ conversion, exec (toJson runtime levels (-1)) ⟨state, ancestors⟩ =
        (convertValue runtime state.tables levels ancestors value, conversion) ∧
      ∀ json, convertValue runtime state.tables levels ancestors value = .ok json →
        conversion = ⟨state, ancestors⟩ := by
  have htop : state.absIndex (-1) = base.length + 1 := by
    simp [State.absIndex, State.getTop, hstack]
  have hvalue : state.valueAt (-1) = value := by simp [State.valueAt, hstack]
  have hgives := @gives_toJson F _ runtime hroom levels ⟨state, ancestors⟩ (-1)
    (by simp only [htop]; omega) (by simp only [htop, hstack, List.length_cons]; omega)
  rw [hvalue] at hgives
  exact hgives

/-- With room on the stack, values come through the bridge unchanged. -/
theorem valuesCross_of_room : ValuesCross runtime where
  roundTrip := by
    intro json state hcrosses hnesting
    obtain ⟨after, hpush, value, hstack, hgrown, hstands⟩ :=
      suffices_levels hroom kMaxJsonNestingDepth json state hcrosses hnesting
    have hconvert := hstands.convert after.tables kMaxJsonNestingDepth [] (fun _ _ _ => rfl)
      hnesting (by simp)
    obtain ⟨conversion, hexec, hsame⟩ :=
      exec_toJson_top hroom hstack kMaxJsonNestingDepth []
    rw [hconvert, hsame json hconvert] at hexec
    exact ⟨value, after, hpush, hstack, hexec⟩
  refused := fun json state => (refuses_levels hroom kMaxJsonNestingDepth json state).1
  handedBack := by
    intro tools toolName state arguments result parsed hgiven htool hcall hisError hparse hdeep
    rw [luaToolTrampoline_called hroom hgiven htool hcall]
    exact handBack_tooDeep hroom hisError hparse hdeep state
  fails := by
    intro state index table htable
    obtain ⟨conversion, hexec, _⟩ := @gives_toJson F _ runtime hroom kMaxJsonNestingDepth
      ⟨state, []⟩ index htable.pos htable.le
    rw [htable.value] at hexec
    refine ⟨_, conversion, hexec, ?_, ?_⟩
    · exact convertValue_mistake runtime state.tables _ _ _
    · have hfails := fails_iff runtime state.tables kMaxJsonNestingDepth [] table
      simpa [Fails, Stops] using hfails
  sequence := by
    intro levels ancestors state index table json conversion htable h
    obtain ⟨hsame, hconvert⟩ := toJson_unchanged hroom htable h
    refine ⟨hsame, isArray_iff hconvert, ?_⟩
    rintro items rfl
    obtain ⟨hsequence, hitems⟩ := items_inOrder hconvert
    refine ⟨hsequence, ?_⟩
    intro i hi
    obtain ⟨value, hentry, hvalue⟩ := hitems i hi
    obtain ⟨after, hexec, _⟩ := @exec_toJson_top F _ runtime hroom (state.push value) value
      state.stack rfl (levels - 1) (table :: ancestors)
    refine ⟨value, hentry, ?_⟩
    rw [hexec]
    exact hvalue

end

end

/-! ## Keys that have no counterpart -/

/-- Entries in the order they were put in, and a stack that always grows. -/
def plainRuntime : Runtime Unit :=
  .ofOrder (fun _ entries => entries) (fun _ _ => .refl _) fun _ _ => true

theorem valuesCross_plainRuntime : ValuesCross plainRuntime :=
  valuesCross_of_room (by simp [plainRuntime, Runtime.ofOrder])

def loopUnder (key : Value Unit) (h : key ≠ .nil) : State Unit where
  stack := [.table 0]
  tables := fun _ => ⟨[(key, .table 0)], by simp, by simp [h]⟩
  next := 1

/-- One table is a value of another, whatever the key. -/
def Holds (tables : Nat → Table Unit) (outer inner : Nat) : Prop :=
  ∃ key, (key, .table inner) ∈ (tables outer).entries

/-- A table that is its own value under a key that is dropped is converted all the same; and a
conversion that fails leaves on the stack what was there when it did. -/
theorem toJson_loops :
    ¬ (∀ state : State Unit, state.stack = [.table 0] →
      ((∃ error, (exec (toJson plainRuntime kMaxJsonNestingDepth 1) ⟨state, []⟩).1 =
          .error error) ↔
        ∃ way, (0 :: way).IsChain (Holds state.tables) ∧
          (¬ (0 :: way).Nodup ∨ kMaxJsonNestingDepth < (0 :: way).length))) ∧
    ¬ (∀ state : State Unit, state.stack = [.table 0] →
      (exec (toJson plainRuntime kMaxJsonNestingDepth 1) ⟨state, []⟩).2.lua.stack =
        state.stack) := by
  constructor
  · intro h
    have hloop : Holds (loopUnder (.boolean true) (by simp)).tables 0 0 :=
      ⟨.boolean true, by simp [loopUnder]⟩
    obtain ⟨error, herror⟩ := (h (loopUnder (.boolean true) (by simp)) rfl).mpr
      ⟨[0], by simpa using hloop, .inl (by simp)⟩
    have hconverted : (exec (toJson plainRuntime kMaxJsonNestingDepth 1)
        ⟨loopUnder (.boolean true) (by simp), []⟩).1 = .ok (.object []) := rfl
    rw [hconverted] at herror
    cases herror
  · intro h
    have hleft := h (loopUnder (.integer 1) (by simp)) rfl
    revert hleft
    decide

end Haisos.LuaProcess
