import Haisos.Hsh.Text
import Haisos.Lua.Api
import Haisos.StateExcept

/-!
# Values across the Lua bridge

`PushJson`, `ToJson` and `LuaToolTrampoline` of `LuaProcess.cpp`.  The nesting level
is counted down: `levels` is how many levels a table may still be deep.
-/

namespace Haisos.LuaProcess

open Hsh (Text text natText intText)
open Lua StateExcept

/-- A JSON value over a type of floats.  An object is a map: its keys are sorted. -/
inductive JsonValue (F : Type) where
  | null
  | boolean (value : Bool)
  | integer (value : Int)
  | number (value : F)
  | string (value : Text)
  | array (items : List (JsonValue F))
  | object (fields : List (Text × JsonValue F))

namespace JsonValue

variable {F : Type}

def isTable : JsonValue F → Bool
  | .array _ => true
  | .object _ => true
  | _ => false

end JsonValue

def kMaxJsonNestingDepth : Nat := 100

/-- `get<int64_t>()`. -/
def toInt64 (n : Int) : Int := n.bmod (2 ^ 64)

variable {F : Type} [DecidableEq F]

/-! ## From JSON to Lua -/

section

variable (runtime : Runtime F)

mutual

/-- `PushJson`, `levels` of tables being left. -/
def pushJson : Nat → JsonValue F → State F → Bool × State F
  | levels, value, state =>
      if ¬ runtime.checkStack state 3 then (false, state)
      else
        match value with
        | .null => (true, state.push .nil)
        | .boolean b => (true, state.push (.boolean b))
        | .integer n => (true, state.push (.integer (toInt64 n)))
        | .number x => (true, state.push (.number x))
        | .string s => (true, state.push (.string s))
        | .array items =>
            if levels = 0 then (false, state)
            else pushItems (levels - 1) 1 items (runtime.newTable state)
        | .object fields =>
            if levels = 0 then (false, state)
            else pushFields (levels - 1) fields (runtime.newTable state)

def pushItems : Nat → Int → List (JsonValue F) → State F → Bool × State F
  | _, _, [], state => (true, state)
  | levels, i, item :: items, state =>
      match pushJson levels item state with
      | (false, state) => (false, state)
      | (true, state) => pushItems levels (i + 1) items (runtime.rawSetI state (-2) i)

def pushFields : Nat → List (Text × JsonValue F) → State F → Bool × State F
  | _, [], state => (true, state)
  | levels, (key, value) :: fields, state =>
      match pushJson levels value (state.push (.string key)) with
      | (false, state) => (false, state)
      | (true, state) => pushFields levels fields (runtime.rawSet state (-3))

end

end

/-! ## From Lua to JSON -/

/-- `LuaArgumentsError`; the last one stands for an iteration that does not end. -/
inductive ArgumentsError where
  | nestedTooDeeply | cycle | stackTooSmall | outOfFuel
  deriving DecidableEq, Repr

def ArgumentsError.what : ArgumentsError → Text
  | .nestedTooDeeply =>
      text "arguments nested too deeply (more than " ++ natText kMaxJsonNestingDepth ++
        text " levels of tables)"
  | .cycle => text "arguments contain a cycle (a table that contains itself)"
  | .stackTooSmall => text "arguments nested too deeply for the Lua stack"
  | .outOfFuel => []

/-- The Lua state, and the tables on the way down from the arguments. -/
structure Conversion (F : Type) where
  lua : State F
  ancestors : List Nat := []

abbrev Convert (F : Type) := ExceptT ArgumentsError (StateM (Conversion F))

def onLua {α : Type} (f : State F → α × State F) : Convert F α :=
  modifyGet fun conversion =>
    ((f conversion.lua).1, { conversion with lua := (f conversion.lua).2 })

def changeLua (f : State F → State F) : Convert F Unit :=
  modify fun conversion => { conversion with lua := f conversion.lua }

def askLua {α : Type} (f : State F → α) : Convert F α := do pure (f (← get).lua)

/-- What is not a table; what JSON has no counterpart for is null. -/
def scalarToJson : Value F → JsonValue F
  | .boolean b => .boolean b
  | .integer n => .integer n
  | .number x => .number x
  | .string s => .string s
  | _ => .null

/-- `object[key] = value`, the keys staying sorted. -/
def setKey (key : Text) (value : JsonValue F) :
    List (Text × JsonValue F) → List (Text × JsonValue F)
  | [] => [(key, value)]
  | (other, before) :: fields =>
      if key = other then (key, value) :: fields
      else if key < other then (key, value) :: (other, before) :: fields
      else (other, before) :: setKey key value fields

structure Entries (F : Type) where
  intEntries : List (Int × JsonValue F) := []
  object : List (Text × JsonValue F) := []
  hasOtherKeys : Bool := false

section

variable (runtime : Runtime F)

/-- The body of the loop: an entry of another type of key is dropped. -/
def readEntry (toJson : Convert F (JsonValue F)) (entries : Entries F) :
    Convert F (Entries F) := do
  match ← askLua fun state => state.valueAt (-2) with
  | .integer key => do
      let value ← toJson
      pure { entries with intEntries := entries.intEntries ++ [(key, value)] }
  | .string key => do
      let value ← toJson
      pure { entries with object := setKey key value entries.object, hasOtherKeys := true }
  | _ => pure { entries with hasOtherKeys := true }

def readEntries (toJson : Convert F (JsonValue F)) (index : Int) :
    Nat → Entries F → Convert F (Entries F)
  | 0, _ => throw .outOfFuel
  | fuel + 1, entries => do
      if ← onLua fun state => runtime.nextEntry state index then do
        let entries ← readEntry toJson entries
        changeLua fun state => state.pop 1
        readEntries toJson index fuel entries
      else pure entries

def isSequenceFrom (n : Int) : List (Int × JsonValue F) → Bool
  | [] => true
  | entry :: entries => entry.1 = n && isSequenceFrom (n + 1) entries

def Entries.finish (entries : Entries F) : JsonValue F :=
  let isSequence := !entries.hasOtherKeys && !entries.intEntries.isEmpty
  let sorted := entries.intEntries.mergeSort fun a b => a.1 ≤ b.1
  if isSequence && isSequenceFrom 1 sorted then .array (sorted.map Prod.snd)
  else
    .object ((if isSequence then sorted else entries.intEntries).foldl
      (fun object entry => setKey (intText entry.1) entry.2 object) entries.object)

/-- A table's conversion, `toJson` being that of the value on the top. -/
def tableToJson (toJson : Convert F (JsonValue F)) (table : Nat) (index : Int) :
    Convert F (JsonValue F) := do
  let conversion ← get
  if table ∈ conversion.ancestors then throw .cycle
  else if ¬ runtime.checkStack conversion.lua 3 then throw .stackTooSmall
  else do
    modify fun conversion => { conversion with ancestors := table :: conversion.ancestors }
    changeLua fun state => state.push .nil
    let entries ← readEntries runtime toJson index
      ((conversion.lua.tables table).entries.length + 1) {}
    modify fun conversion => { conversion with ancestors := conversion.ancestors.tail }
    pure entries.finish

/-- `ToJson`, `levels` of tables being left. -/
def toJson : Nat → Int → Convert F (JsonValue F)
  | 0, index => do
      match ← askLua fun state => state.valueAt index with
      | .table _ => throw .nestedTooDeeply
      | value => pure (scalarToJson value)
  | levels + 1, index => do
      let index ← askLua fun state => state.absIndex index
      match ← askLua fun state => state.valueAt index with
      | .table table => tableToJson runtime (toJson levels (-1)) table index
      | value => pure (scalarToJson value)

end

/-! ## A tool call -/

structure ToolResult where
  content : Text
  isError : Bool

/-- What the trampoline calls: the tools there are, and the parser of the library. -/
structure Tools (F : Type) where
  parse : Text → Option (JsonValue F)
  createTool : Text → Bool
  call : Text → JsonValue F → Except Text ToolResult

/-- A pair of a text and whether it is an error, on the stack. -/
def pushResult (state : State F) (content : Text) (isError : Bool) : State F :=
  (state.push (.string content)).push (.boolean isError)

/-- The end of the trampoline: JSON comes back as a table, if it is not nested too deeply. -/
def handBack (runtime : Runtime F) (tools : Tools F) (result : ToolResult) (state : State F) :
    State F :=
  let asText := pushResult state result.content result.isError
  match tools.parse result.content with
  | some parsed =>
      if ¬ result.isError ∧ parsed.isTable then
        match pushJson runtime kMaxJsonNestingDepth parsed state with
        | (true, pushed) => pushed.push (.boolean result.isError)
        | (false, pushed) =>
            pushResult (pushed.setTop state.getTop) result.content result.isError
      else asText
  | none => asText

/-- `LuaToolTrampoline`: the state it returns the two topmost values of. -/
def luaToolTrampoline (runtime : Runtime F) (tools : Tools F) (toolName : Text) (state : State F) :
    State F :=
  let callTool (arguments : JsonValue F) (state : State F) : State F :=
    if tools.createTool toolName then
      match tools.call toolName arguments with
      | .ok result => handBack runtime tools result state
      | .error what => pushResult state (text "tool call failed: " ++ what) true
    else pushResult state (text "unknown tool") true
  match state.getTop, state.valueAt 1 with
  | _ + 1, .table _ =>
      match exec (toJson runtime kMaxJsonNestingDepth 1) ⟨state, []⟩ with
      | (.ok arguments, conversion) => callTool arguments conversion.lua
      | (.error error, conversion) =>
          pushResult (conversion.lua.setTop 0) (toolName ++ text ": " ++ error.what) true
  | _, _ => callTool (.object []) state

end Haisos.LuaProcess
