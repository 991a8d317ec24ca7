import Haisos.Json
import Haisos.StateExcept

/-!
# Reading an LLM's reply

`ParseResponseJson` fills a response field by field and catches what throws on the way; what
was filled until then stays.
-/

namespace Haisos

structure LLMMessage where
  role : String := ""
  content : String := ""
  name : String := ""
  thinking : String := ""
  tool_call_id : String := ""
  toolCallsJson : List Json := []
  is_error : Bool := false

structure LLMResponse where
  message : LLMMessage := {}
  done : Bool := false
  done_reason : String := ""

namespace LLMCommunicator

open StateExcept

/-- The JSON library, and what the `n`-th `fetch_add` of a call returns, which depends on other
calls. -/
structure Library extends JsonLibrary where
  fetchAdd : Nat → Int

/-- What the `try` block changes; `fetched` counts the ids that the call has made. -/
structure Filling where
  response : LLMResponse
  fetched : Nat := 0

/-- The `try` block, whose only exception is the library's. -/
abbrev Fill := ExceptT Unit (StateM Filling)

def Filling.withMessage (s : Filling) (message : LLMMessage) : Filling :=
  { s with response := { s.response with message } }

def setMessage (change : LLMMessage → LLMMessage) : Fill Unit :=
  modify fun s => s.withMessage (change s.response.message)

def orThrow {α : Type} : Option α → Fill α
  | some value => pure value
  | none => throw ()

section

variable (lib : Library)

def errorDetail (errorNode : Json) : String :=
  match errorNode with
  | .string text => text
  | .object _ =>
      match lib.field errorNode "message" with
      | some (.string text) => text
      | _ => lib.dump errorNode
  | _ => lib.dump errorNode

/-- A field of `message`. -/
def messageField (parsed : Json) (key : String) : Option Json :=
  (lib.field parsed "message").bind (lib.field · key)

def fillRole (parsed : Json) : Fill Unit :=
  match messageField lib parsed "role" with
  | some role => do
      let role ← orThrow (lib.asString role)
      setMessage fun message => { message with role }
  | none => setMessage fun message => { message with role := "assistant" }

def setContent (contentNode : Json) : Fill Unit :=
  match contentNode with
  | .string content => setMessage fun message => { message with content }
  | _ => pure ()

def fillContent (parsed : Json) : Fill Unit :=
  match messageField lib parsed "content" with
  | some contentNode => do
      setContent contentNode
      match messageField lib parsed "thinking" with
      | some thinking => do
          let thinking ← orThrow (lib.asString thinking)
          setMessage fun message => { message with thinking }
      | none => pure ()
  | none =>
      match lib.field parsed "content" with
      | some contentNode => setContent contentNode
      | none => pure ()

def nextId : Fill String :=
  modifyGet fun s => ("call_" ++ toString (lib.fetchAdd s.fetched), { s with fetched := s.fetched + 1 })

def push (toolCall : Json) : Fill Unit :=
  setMessage fun message => { message with toolCallsJson := message.toolCallsJson ++ [toolCall] }

/-- The id the server gave, where it is a string and not empty. -/
def givenId (toolCall : Json) : Option String :=
  match lib.field toolCall "id" with
  | some (.string id) => if id.isEmpty then none else some id
  | _ => none

def takeToolCall (tc : Json) : Fill Unit :=
  match givenId lib tc with
  | some _ => push tc
  | none => do
      let id ← nextId lib
      let tc ← orThrow (lib.setField tc "id" (.string id))
      push tc

/-- The elements of `message.tool_calls`, where that is an array. -/
def toolCalls (parsed : Json) : List Json :=
  match messageField lib parsed "tool_calls" with
  | some (.array elements) => elements
  | _ => []

def holdsText (node : Option Json) (text : String) : Bool :=
  node.bind lib.asString == some text

def arguments (item : Json) : String :=
  match lib.field item "input" with
  | some input => lib.dump input
  | none => "\x7b\x7d"

/-- What a `tool_use` item is turned into. -/
def toolUse (id : String) (item : Json) : Json :=
  let arguments := ("arguments", Json.string (arguments lib item))
  let function :=
    match lib.field item "name" with
    | some name => [arguments, ("name", name)]
    | none => [arguments]
  .object [("function", .object function), ("id", .string id), ("type", .string "function")]

def isToolUse (item : Json) : Bool := holdsText lib (lib.field item "type") "tool_use"

/-- The `tool_use` items of `content`, where the reply stopped for them. -/
def toolUses (parsed : Json) : List Json :=
  if holdsText lib (lib.field parsed "stop_reason") "tool_use" then
    match lib.field parsed "content" with
    | some (.array items) => items.filter (isToolUse lib)
    | _ => []
  else []

def takeToolUse (item : Json) : Fill Unit := do
  let id ← nextId lib
  push (toolUse lib id item)

def fillToolCalls (parsed : Json) : Fill Unit := do
  (toolCalls lib parsed).forM (takeToolCall lib)
  -- only if none was found in the other format
  if (toolCalls lib parsed).isEmpty then (toolUses lib parsed).forM (takeToolUse lib) else pure ()

/-- What `done_reason` is taken from. -/
def reason (parsed : Json) : Option Json :=
  (lib.field parsed "done_reason").or (lib.field parsed "stop_reason")

def fillDone (parsed : Json) : Fill Unit :=
  match lib.field parsed "done" with
  | some (.boolean done) => modify fun s => { s with response := { s.response with done } }
  | _ => pure ()

def fillReason (parsed : Json) : Fill Unit :=
  match reason lib parsed with
  | some node => do
      let done_reason ← orThrow (lib.asString node)
      modify fun s => { s with response := { s.response with done_reason } }
  | none => pure ()

def fill (parsed : Json) : Fill Unit := do
  fillRole lib parsed
  fillContent lib parsed
  fillToolCalls lib parsed
  fillDone lib parsed
  fillReason lib parsed

def started : Filling := { response := { done := true } }

/-- What the `catch` block makes of what is filled. -/
def parseError (response : LLMResponse) : LLMResponse :=
  { message := { response.message with
      role := "assistant", content := "Error: Failed to parse LLM response" }
    done := true
    done_reason := "parse_error" }

def ParseResponseJson (jsonResponse : String) : LLMResponse :=
  match lib.parse jsonResponse with
  | none => parseError started.response
  | some parsed =>
      match lib.field parsed "error" with
      | some errorNode =>
          { message := { role := "assistant", content := "Error: " ++ errorDetail lib errorNode }
            done := true
            done_reason := "error" }
      | none =>
          match exec (fill lib parsed) started with
          | (.ok _, s) => s.response
          | (.error _, s) => parseError s.response

end

end LLMCommunicator

end Haisos
