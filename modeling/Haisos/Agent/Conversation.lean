import Haisos.Transition
import Haisos.LLMCommunicator.ParseResponse

/-!
# The conversation of an agent

The agent's thread, one outside event at a time: a command is taken, the LLM answers, the
console takes a text, a tool returns.  Each of them may fail as it likes, and a stop may be
requested between any two.
-/

namespace Haisos.Agent

section

variable (json : JsonLibrary)

/-- `StringField`: empty where there is no such field, or it is no string. -/
def StringField (object : Json) (key : String) : String :=
  ((json.field object key).bind json.asString).getD ""

def toolCallHolder (toolCall : Json) : Json :=
  match json.field toolCall "function" with
  | some function => if function.isObject then function else toolCall
  | none => toolCall

def ToolCallName (toolCall : Json) : String :=
  StringField json (toolCallHolder json toolCall) "name"

end

def IsErrorResponse (response : LLMResponse) : Bool :=
  response.done_reason == "error" || response.done_reason == "parse_error" ||
    response.done_reason == "http_error"

def SystemMessage (prompt : String) : LLMMessage := { role := "system", content := prompt }

def UserMessage (command : String) : LLMMessage :=
  { role := "user"
    content := "\n--- BEGIN USER INPUT ---\n" ++ command ++ "\n--- END USER INPUT ---\n" }

structure ToolResult where
  toolName : String
  content : String
  toolCallId : String
  isError : Bool

def ToolResultMessage (result : ToolResult) : LLMMessage :=
  { role := "tool"
    is_error := result.isError
    content := "\n--- BEGIN TOOL RESULT ---\n" ++ result.content ++ "\n--- END TOOL RESULT ---\n"
    name := result.toolName
    tool_call_id := result.toolCallId }

/-- What comes of creating and calling a tool; there is none, or it throws. -/
inductive ToolOutcome where
  | returned (content : String) (isError : Bool)
  | none
  | threw (what : String)

/-- What an agent is created with, and the JSON library. -/
structure Setup where
  systemPrompts : List String
  name : String
  interactive : Bool
  console : Bool
  json : JsonLibrary

/-- What `ExecuteToolCalls` is about: the round, the message, what is left of its calls, the results. -/
structure Executing where
  rounds : Nat
  message : LLMMessage
  rest : List Json
  toolResults : List ToolResult := []

inductive Phase where
  | popping
  | calling (rounds : Nat)
  | writing (rounds : Nat) (response : LLMResponse)
  | executing (state : Executing)
  | reporting (state : Executing) (toolName : String)
  | capped
  | finished

structure Talk where
  history : List LLMMessage
  phase : Phase := .popping
  stopRequested : Bool := false
  lastCommandFailed : Bool := false
  messageBuffer : String := ""
  commands : List String := []
  responses : List LLMMessage := []

/-- An event of the phase that the thread is in, or a stop request. -/
inductive TalkEvent where
  /-- `none` where the queue is closed, or taking from it throws. -/
  | pop (command : Option String)
  | call (response : Except String LLMResponse)
  | write (thrown : Option String)
  | tool (outcome : ToolOutcome)
  | requestStop

def MAX_LLM_ROUNDS : Nat := 20

namespace Talk

variable (setup : Setup)

def start : Talk := { history := setup.systemPrompts.map SystemMessage }

def append (s : Talk) (text : String) : Talk :=
  { s with messageBuffer := s.messageBuffer ++ "[" ++ setup.name ++ "] " ++ text ++ "\n" }

def commandOver (s : Talk) : Talk :=
  { s with phase := if setup.interactive then .popping else .finished }

def isAssistant (message : LLMMessage) : Bool := message.role == "assistant"

def isTool (message : LLMMessage) : Bool := message.role == "tool"

/-- Looked for from the end, as what follows the message asking for tools answers it. -/
def AnswerUnansweredToolCalls (history : List LLMMessage) (reason : String) : List LLMMessage :=
  match history.reverse.dropWhile fun message => !isAssistant message with
  | [] => history
  | assistant :: _ =>
      let answered := (history.reverse.takeWhile fun message => !isAssistant message).countP isTool
      history ++ (assistant.toolCallsJson.drop answered).map fun toolCall =>
        ToolResultMessage
          ⟨ToolCallName setup.json toolCall, reason, StringField setup.json toolCall "id", true⟩

def OnCommandFailed (s : Talk) (what : String) : Talk :=
  let s := { s with
    lastCommandFailed := true
    history := AnswerUnansweredToolCalls setup s.history
      ("Error: the command failed before this tool call was answered: " ++ what) }
  (s.append setup ("Error: the command failed: " ++ what)).commandOver setup

/-- The head of the loop of `ProcessCommand`, once `rounds` rounds are over. -/
def nextRound (s : Talk) (rounds : Nat) : Talk :=
  if rounds + 1 > MAX_LLM_ROUNDS then
    let s := { s with lastCommandFailed := true }
    if setup.console then { s with phase := .capped } else s.commandOver setup
  else { s with phase := .calling (rounds + 1) }

def ProcessCommand (s : Talk) (command : String) : Talk :=
  nextRound setup { s with
    lastCommandFailed := false
    history := s.history ++ [UserMessage command]
    commands := s.commands ++ [command] } 0

def toolsDone (s : Talk) (state : Executing) : Talk :=
  let s := { s with history := s.history ++ state.toolResults.map ToolResultMessage }
  if s.stopRequested then s.commandOver setup else nextRound setup s state.rounds

/-- The head of the loop of `ExecuteToolCalls`. -/
def execute (s : Talk) (state : Executing) : Talk :=
  if state.rest.isEmpty then s.toolsDone setup state else { s with phase := .executing state }

def push (s : Talk) (rounds : Nat) (response : LLMResponse) : Talk :=
  let s := if response.message.content.isEmpty then s else s.append setup response.message.content
  let s := { s with
    history := s.history ++ [response.message]
    responses := s.responses ++ [response.message] }
  if response.message.toolCallsJson.isEmpty then s.commandOver setup
  else s.execute setup { rounds, message := response.message, rest := response.message.toolCallsJson }

def respond (s : Talk) (rounds : Nat) (response : LLMResponse) : Talk :=
  let s := if IsErrorResponse response then { s with lastCommandFailed := true } else s
  if !response.message.content.isEmpty && setup.console then
    { s with phase := .writing rounds response }
  else s.push setup rounds response

def toolArguments (toolCall : Json) : Json :=
  match setup.json.field (toolCallHolder setup.json toolCall) "arguments" with
  | some (.string text) => (setup.json.parse text).getD (.object [])
  | some args => args
  | none => .object []

def refusal (s : Talk) (toolCall : Json) : Option String :=
  let toolName := ToolCallName setup.json toolCall
  let args := toolArguments setup toolCall
  if toolName.isEmpty then
    some "Error: the tool call names no tool (its name must be a non-empty string)"
  else if !(args.isNull || args.isObject) then
    let type := args.type_name
    let article := if type = "array" || type = "object" then "an " else "a "
    some ("Error: the arguments of tool " ++ toolName ++ " must be a JSON object, not " ++
      article ++ type)
  else if s.stopRequested then some "Error: the agent was asked to stop"
  else none

def answered (s : Talk) (state : Executing) (content : String) (isError : Bool) : Talk :=
  match state.rest with
  | [] => s
  | toolCall :: rest =>
      s.execute setup { state with
        rest
        toolResults := state.toolResults ++
          [⟨ToolCallName setup.json toolCall, content, StringField setup.json toolCall "id", isError⟩] }

/-- One pass of the loop of `ExecuteToolCalls`, up to the console. -/
def executeToolCall (s : Talk) (state : Executing) (toolCall : Json) (outcome : ToolOutcome) : Talk :=
  let toolName := ToolCallName setup.json toolCall
  match s.refusal setup toolCall with
  | some content => s.answered setup state content true
  | none =>
      match outcome with
      | .returned content isError => s.answered setup state content isError
      | .threw what =>
          s.answered setup state ("Error: tool " ++ toolName ++ " failed: " ++ what) true
      | .none =>
          if setup.console then { s with phase := .reporting state toolName }
          else (s.append setup ("Error: Unknown tool - " ++ toolName)).answered setup state
            ("Error: Unknown tool - " ++ toolName) true

def step : TalkEvent → Talk → Option Talk
  | .pop command, s =>
      match s.phase with
      | .popping =>
          match command with
          | none => some { s with phase := .finished }
          | some command =>
              some (if command.isEmpty then s else s.ProcessCommand setup command)
      | _ => none
  | .call response, s =>
      match s.phase with
      | .calling rounds =>
          match response with
          | .ok response => some (s.respond setup rounds response)
          | .error what => some (s.OnCommandFailed setup what)
      | _ => none
  | .write thrown, s =>
      match s.phase with
      | .writing rounds response =>
          match thrown with
          | none => some (s.push setup rounds response)
          | some what => some (s.OnCommandFailed setup what)
      | .reporting state toolName =>
          match thrown with
          | none => some ((s.append setup ("Error: Unknown tool - " ++ toolName)).answered setup state
              ("Error: Unknown tool - " ++ toolName) true)
          | some what => some (s.OnCommandFailed setup what)
      | .capped =>
          match thrown with
          | none => some (s.commandOver setup)
          | some what => some (s.OnCommandFailed setup what)
      | _ => none
  | .tool outcome, s =>
      match s.phase with
      | .executing state =>
          match state.rest with
          | toolCall :: _ => some (s.executeToolCall setup state toolCall outcome)
          | [] => none
      | _ => none
  | .requestStop, s => some { s with stopRequested := true }

end Talk

end Haisos.Agent
