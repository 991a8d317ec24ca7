import Mathlib.Data.List.Forall2
import Haisos.Agent.Conversation

/-!
# The conversation that is sent is well formed

Every message that asks for tools is followed by the results of its calls, whatever a command
was cut short by, as long as the repair finds the message that was cut short.
-/

namespace Haisos.Agent

structure Answers (json : JsonLibrary) (toolCall : Json) (message : LLMMessage) : Prop where
  role : message.role = "tool"
  id : message.tool_call_id = StringField json toolCall "id"
  name : message.name = ToolCallName json toolCall

/-- After each message with tool calls stand their results, and no other of that role. -/
def WellFormed (json : JsonLibrary) : List LLMMessage → Prop
  | [] => True
  | message :: rest =>
      (message.toolCallsJson ≠ [] → ∃ results after, rest = results ++ after ∧
        List.Forall₂ (Answers json) message.toolCallsJson results ∧
          ∀ next ∈ after.head?, next.role ≠ "tool") ∧ WellFormed json rest

/--
What a history is made of: the system prompts, and then each command, each response and any
number of results of tools, all of them as they came.
-/
inductive Spoken (systemPrompts : List String) :
    List String → List LLMMessage → List LLMMessage → Prop where
  | systemPrompts : Spoken systemPrompts [] [] (systemPrompts.map SystemMessage)
  | command {commands responses history} (command : String)
      (h : Spoken systemPrompts commands responses history) :
      Spoken systemPrompts (commands ++ [command]) responses (history ++ [UserMessage command])
  | response {commands responses history} (message : LLMMessage)
      (h : Spoken systemPrompts commands responses history) :
      Spoken systemPrompts commands (responses ++ [message]) (history ++ [message])
  | result {commands responses history} (result : ToolResult)
      (h : Spoken systemPrompts commands responses history) :
      Spoken systemPrompts commands responses (history ++ [ToolResultMessage result])

def FollowsOn (history : List LLMMessage) (message : LLMMessage) : Prop :=
  message.role = "tool" → ∀ last ∈ history.getLast?, last.role ≠ "tool"

/-! ## Lists of messages -/

variable {json : JsonLibrary}

theorem Spoken.results {systemPrompts commands : List String} {responses history : List LLMMessage}
    (h : Spoken systemPrompts commands responses history) (results : List ToolResult) :
    Spoken systemPrompts commands responses (history ++ results.map ToolResultMessage) := by
  induction results generalizing history with
  | nil => simpa using h
  | cons result results ih => simpa using ih (h.result result)

theorem Spoken.prompts_prefix {systemPrompts commands : List String}
    {responses history : List LLMMessage} (h : Spoken systemPrompts commands responses history) :
    systemPrompts.map SystemMessage <+: history := by
  induction h with
  | systemPrompts => exact List.prefix_rfl
  | command _ _ ih | response _ _ ih | result _ _ ih => exact ih.trans (List.prefix_append ..)

theorem role_of_answers {calls : List Json} {results : List LLMMessage}
    (h : List.Forall₂ (Answers json) calls results) : ∀ message ∈ results, message.role = "tool" := by
  induction h with
  | nil => exact nofun
  | cons hanswers _ ih =>
      intro message hmem
      rcases List.mem_cons.mp hmem with rfl | hmem
      · exact hanswers.role
      · exact ih message hmem

theorem WellFormed.append {history more : List LLMMessage} (h : WellFormed json history)
    (hmore : WellFormed json more) (hfollows : ∀ message ∈ more.head?, FollowsOn history message) :
    WellFormed json (history ++ more) := by
  induction history with
  | nil => exact hmore
  | cons message rest ih =>
      obtain ⟨hanswered, hrest⟩ := h
      constructor
      · intro hcalls
        obtain ⟨results, after, rfl, hresults, hnext⟩ := hanswered hcalls
        refine ⟨results, after ++ more, List.append_assoc .., hresults, ?_⟩
        cases after with
        | cons next after => exact hnext
        | nil =>
            -- the last of the results is a tool's, so that no tool's message may follow
            intro next hhead hrole
            obtain ⟨last, hlast⟩ : ∃ last, results.getLast? = some last := by
              cases hcases : results.getLast? with
              | some last => exact ⟨last, rfl⟩
              | none =>
                  rw [List.getLast?_eq_none_iff.mp hcases] at hresults
                  exact absurd (List.forall₂_nil_right_iff.mp hresults) hcalls
            refine hfollows next hhead hrole last ?_
              (role_of_answers hresults last (List.mem_of_getLast? hlast))
            rw [List.append_nil, List.getLast?_cons, hlast]
            rfl
      · refine ih hrest fun next hhead hrole last hlast => hfollows next hhead hrole last ?_
        rw [List.getLast?_cons, hlast]
        rfl

theorem wellFormed_of_no_calls {history : List LLMMessage}
    (h : ∀ message ∈ history, message.toolCallsJson = []) : WellFormed json history := by
  induction history with
  | nil => trivial
  | cons message rest ih =>
      obtain ⟨hmessage, hrest⟩ := List.forall_mem_cons.mp h
      exact ⟨fun hcalls => absurd hmessage hcalls, ih hrest⟩

/-- What `ToolResultMessage` makes of a result answers the call whose name and id it has. -/
def ResultOf (json : JsonLibrary) (toolCall : Json) (result : ToolResult) : Prop :=
  result.toolName = ToolCallName json toolCall ∧ result.toolCallId = StringField json toolCall "id"

theorem answers_of_results {calls : List Json} {results : List ToolResult}
    (h : List.Forall₂ (ResultOf json) calls results) :
    List.Forall₂ (Answers json) calls (results.map ToolResultMessage) := by
  rw [List.forall₂_map_right_iff]
  exact h.imp fun _ _ hresult => ⟨rfl, hresult.2, hresult.1⟩

theorem wellFormed_round {message : LLMMessage} {results : List ToolResult}
    (h : List.Forall₂ (ResultOf json) message.toolCallsJson results) :
    WellFormed json (message :: results.map ToolResultMessage) := by
  constructor
  · exact fun _ => ⟨_, [], (List.append_nil _).symm, answers_of_results h, nofun⟩
  · refine wellFormed_of_no_calls fun result hresult => ?_
    obtain ⟨_, -, rfl⟩ := List.mem_map.mp hresult
    rfl

theorem WellFormed.of_append {history more : List LLMMessage} (h : WellFormed json (history ++ more)) :
    WellFormed json more := by
  induction history with
  | nil => exact h
  | cons message rest ih => exact ih h.2

theorem WellFormed.append_round {history : List LLMMessage} {message : LLMMessage}
    {results : List ToolResult} (h : WellFormed json history) (hfollows : FollowsOn history message)
    (hresults : List.Forall₂ (ResultOf json) message.toolCallsJson results) :
    WellFormed json (history ++ [message] ++ results.map ToolResultMessage) := by
  rw [List.append_assoc]
  refine h.append (wellFormed_round hresults) ?_
  rintro _ ⟨⟩
  exact hfollows

theorem followsOn_of_ne {history : List LLMMessage} {message : LLMMessage}
    (h : message.role ≠ "tool") : FollowsOn history message := fun hrole => absurd hrole h

/-! ## The repair -/

namespace Talk

variable {setup : Setup}

theorem split_assistant (history : List LLMMessage) {assistant : LLMMessage}
    {before : List LLMMessage}
    (h : (history.reverse.dropWhile fun message => !isAssistant message) = assistant :: before) :
    history = before.reverse ++ assistant ::
      (history.reverse.takeWhile fun message => !isAssistant message).reverse := by
  have hsplit := List.takeWhile_append_dropWhile (p := fun message => !isAssistant message)
    (l := history.reverse)
  rw [h] at hsplit
  have hreverse := congrArg List.reverse hsplit
  rw [List.reverse_reverse] at hreverse
  refine hreverse.symm.trans ?_
  rw [List.reverse_append, List.reverse_cons, List.append_assoc, List.singleton_append]

theorem AnswerUnansweredToolCalls_of_wellFormed {history : List LLMMessage}
    (h : WellFormed setup.json history) (reason : String) :
    AnswerUnansweredToolCalls setup history reason = history := by
  rw [AnswerUnansweredToolCalls]
  split
  case h_1 => rfl
  case h_2 assistant before hsplit =>
    have hhistory := split_assistant history hsplit
    rw [hhistory] at h
    obtain ⟨hanswered, -⟩ := h.of_append
    have hall : assistant.toolCallsJson.length ≤
        (history.reverse.takeWhile fun message => !isAssistant message).countP isTool := by
      by_cases hcalls : assistant.toolCallsJson = []
      · rw [hcalls]
        exact Nat.zero_le _
      · obtain ⟨results, after, hafter, hresults, -⟩ := hanswered hcalls
        rw [← List.countP_reverse, hafter, List.countP_append, hresults.length_eq,
          List.countP_eq_length.mpr]
        · exact Nat.le_add_right _ _
        · intro message hmem
          rw [isTool, role_of_answers hresults message hmem]
          rfl
    dsimp only
    rw [List.drop_eq_nil_of_le hall, List.map_nil, List.append_nil]

theorem AnswerUnansweredToolCalls_of_open {before : List LLMMessage} {message : LLMMessage}
    (h : message.role = "assistant") (reason : String) :
    AnswerUnansweredToolCalls setup (before ++ [message]) reason =
      before ++ [message] ++ (message.toolCallsJson.map fun toolCall =>
        (⟨ToolCallName setup.json toolCall, reason, StringField setup.json toolCall "id", true⟩ :
          ToolResult)).map ToolResultMessage := by
  have hassistant : isAssistant message = true := by
    rw [isAssistant, h]
    rfl
  rw [AnswerUnansweredToolCalls, List.reverse_append, List.reverse_singleton,
    List.singleton_append, List.dropWhile_cons_of_neg (by simp [hassistant]),
    List.takeWhile_cons_of_neg (by simp [hassistant])]
  simp

theorem resultOf_repaired (calls : List Json) (reason : String) :
    List.Forall₂ (ResultOf json) calls (calls.map fun toolCall =>
      (⟨ToolCallName json toolCall, reason, StringField json toolCall "id", true⟩ :
        ToolResult)) := by
  rw [List.forall₂_map_right_iff, List.forall₂_same]
  exact fun _ _ => ⟨rfl, rfl⟩

/-! ## The agent's thread -/

structure Closed (setup : Setup) (s : Talk) : Prop where
  spoken : Spoken setup.systemPrompts s.commands s.responses s.history
  wellFormed : WellFormed setup.json s.history

structure Open (setup : Setup) (s : Talk) (state : Executing) : Prop where
  spoken : Spoken setup.systemPrompts s.commands s.responses s.history
  last : ∃ before, s.history = before ++ [state.message] ∧ WellFormed setup.json before ∧
    FollowsOn before state.message
  results : ∃ answered, state.message.toolCallsJson = answered ++ state.rest ∧
    List.Forall₂ (ResultOf setup.json) answered state.toolResults

def Sound (setup : Setup) (s : Talk) : Prop :=
  match s.phase with
  | .executing state | .reporting state _ => s.Open setup state
  | .writing _ response => s.Closed setup ∧ FollowsOn s.history response.message
  | _ => s.Closed setup

theorem Sound.same {s t : Talk} (h : s.Sound setup) (hphase : t.phase = s.phase)
    (hhistory : t.history = s.history) (hcommands : t.commands = s.commands)
    (hresponses : t.responses = s.responses) : t.Sound setup := by
  have hclosed (hs : s.Closed setup) : t.Closed setup := by
    refine ⟨?_, hhistory ▸ hs.wellFormed⟩
    rw [hcommands, hresponses, hhistory]
    exact hs.spoken
  have hopen (state : Executing) (hs : s.Open setup state) : t.Open setup state := by
    refine ⟨?_, hhistory ▸ hs.last, hs.results⟩
    rw [hcommands, hresponses, hhistory]
    exact hs.spoken
  rw [Sound] at h ⊢
  rw [hphase]
  split at h
  · exact hopen _ h
  · exact hopen _ h
  · exact ⟨hclosed h.1, hhistory ▸ h.2⟩
  · exact hclosed h

theorem sound_start : (start setup).Sound setup := by
  refine ⟨.systemPrompts, wellFormed_of_no_calls fun message hmem => ?_⟩
  obtain ⟨_, -, rfl⟩ := List.mem_map.mp hmem
  rfl

theorem Closed.commandOver {s : Talk} (h : s.Closed setup) : (s.commandOver setup).Sound setup := by
  rw [Talk.commandOver]
  split_ifs <;> exact ⟨h.spoken, h.wellFormed⟩

theorem Closed.nextRound {s : Talk} (h : s.Closed setup) (rounds : Nat) :
    (s.nextRound setup rounds).Sound setup := by
  rw [Talk.nextRound]
  split_ifs
  · exact ⟨h.spoken, h.wellFormed⟩
  · exact Closed.commandOver ⟨h.spoken, h.wellFormed⟩
  · exact ⟨h.spoken, h.wellFormed⟩

theorem Closed.ProcessCommand {s : Talk} (h : s.Closed setup) (command : String) :
    (s.ProcessCommand setup command).Sound setup := by
  refine Closed.nextRound ⟨h.spoken.command command, ?_⟩ 0
  refine h.wellFormed.append ?_ ?_
  · refine wellFormed_of_no_calls fun message hmem => ?_
    rw [List.mem_singleton.mp hmem]
    rfl
  · rintro _ ⟨⟩
    exact followsOn_of_ne (show "user" ≠ "tool" by decide)

theorem Open.toolsDone {s : Talk} {state : Executing} (h : s.Open setup state)
    (hrest : state.rest = []) : (s.toolsDone setup state).Sound setup := by
  have hclosed : Closed setup
      { s with history := s.history ++ state.toolResults.map ToolResultMessage } := by
    refine ⟨h.spoken.results _, ?_⟩
    obtain ⟨before, hhistory, hbefore, hfollows⟩ := h.last
    obtain ⟨answered, hcalls, hresults⟩ := h.results
    rw [hrest, List.append_nil] at hcalls
    change WellFormed setup.json (s.history ++ _)
    rw [hhistory]
    exact hbefore.append_round hfollows (hcalls ▸ hresults)
  rw [Talk.toolsDone]
  dsimp only
  split_ifs
  · exact hclosed.commandOver
  · exact hclosed.nextRound _

theorem Open.execute {s : Talk} {state : Executing} (h : s.Open setup state) :
    (s.execute setup state).Sound setup := by
  rw [Talk.execute]
  split_ifs with hrest
  · exact h.toolsDone (List.isEmpty_iff.mp hrest)
  · exact ⟨h.spoken, h.last, h.results⟩

theorem Closed.push {s : Talk} (h : s.Closed setup) (rounds : Nat) {response : LLMResponse}
    (hfollows : FollowsOn s.history response.message) :
    (s.push setup rounds response).Sound setup := by
  rw [Talk.push]
  -- the message buffer does not matter
  generalize hs' : (if response.message.content.isEmpty then s
    else s.append setup response.message.content) = s'
  have hsame : s'.history = s.history ∧ s'.commands = s.commands ∧ s'.responses = s.responses := by
    rw [← hs']
    split_ifs <;> exact ⟨rfl, rfl, rfl⟩
  have hspoken : Spoken setup.systemPrompts s'.commands (s'.responses ++ [response.message])
      (s'.history ++ [response.message]) := by
    rw [hsame.1, hsame.2.1, hsame.2.2]
    exact h.spoken.response response.message
  have hwellFormed : WellFormed setup.json s'.history := hsame.1 ▸ h.wellFormed
  have hfollows' : FollowsOn s'.history response.message := hsame.1 ▸ hfollows
  split_ifs with hcalls
  · refine Closed.commandOver ⟨hspoken, ?_⟩
    have hnone : List.Forall₂ (ResultOf setup.json) response.message.toolCallsJson [] := by
      rw [List.isEmpty_iff.mp hcalls]
      exact .nil
    simpa using hwellFormed.append_round hfollows' hnone
  · exact Open.execute ⟨hspoken, ⟨_, rfl, hwellFormed, hfollows'⟩, [], rfl, .nil⟩

theorem Closed.respond {s : Talk} (h : s.Closed setup) (rounds : Nat) {response : LLMResponse}
    (hfollows : FollowsOn s.history response.message) :
    (s.respond setup rounds response).Sound setup := by
  rw [Talk.respond]
  generalize hs' : (if IsErrorResponse response then { s with lastCommandFailed := true } else s) = s'
  have hsame : s'.history = s.history ∧ s'.commands = s.commands ∧ s'.responses = s.responses := by
    rw [← hs']
    split_ifs <;> exact ⟨rfl, rfl, rfl⟩
  have hclosed : s'.Closed setup := by
    refine ⟨?_, hsame.1 ▸ h.wellFormed⟩
    rw [hsame.1, hsame.2.1, hsame.2.2]
    exact h.spoken
  have hfollows' : FollowsOn s'.history response.message := hsame.1 ▸ hfollows
  split_ifs
  · exact ⟨⟨hclosed.spoken, hclosed.wellFormed⟩, hfollows'⟩
  · exact hclosed.push rounds hfollows'

theorem Open.answered {s : Talk} {state : Executing} (h : s.Open setup state) {toolCall : Json}
    {rest : List Json} (hrest : state.rest = toolCall :: rest) (content : String)
    (isError : Bool) : (s.answered setup state content isError).Sound setup := by
  rw [Talk.answered, hrest]
  dsimp only
  refine Open.execute ⟨h.spoken, h.last, ?_⟩
  obtain ⟨answered, hcalls, hresults⟩ := h.results
  refine ⟨answered ++ [toolCall], ?_, ?_⟩
  · change state.message.toolCallsJson = answered ++ [toolCall] ++ rest
    rw [hcalls, hrest, List.append_assoc, List.singleton_append]
  · exact List.rel_append hresults (.cons ⟨rfl, rfl⟩ .nil)

theorem Open.append {s : Talk} {state : Executing} (h : s.Open setup state) (text : String) :
    (s.append setup text).Open setup state := ⟨h.spoken, h.last, h.results⟩

theorem Open.executeToolCall {s : Talk} {state : Executing} (h : s.Open setup state)
    {toolCall : Json} {rest : List Json} (hrest : state.rest = toolCall :: rest)
    (outcome : ToolOutcome) : (s.executeToolCall setup state toolCall outcome).Sound setup := by
  rw [Talk.executeToolCall.eq_def]
  dsimp only
  split
  · exact h.answered hrest _ _
  · split
    · exact h.answered hrest _ _
    · exact h.answered hrest _ _
    · split_ifs
      · exact ⟨h.spoken, h.last, h.results⟩
      · exact (h.append _).answered hrest _ _

theorem Closed.OnCommandFailed {s : Talk} (h : s.Closed setup) (what : String) :
    (s.OnCommandFailed setup what).Sound setup := by
  rw [Talk.OnCommandFailed, AnswerUnansweredToolCalls_of_wellFormed h.wellFormed]
  exact Closed.commandOver ⟨h.spoken, h.wellFormed⟩

theorem Open.OnCommandFailed {s : Talk} {state : Executing} (h : s.Open setup state)
    (hrole : state.message.role = "assistant") (what : String) :
    (s.OnCommandFailed setup what).Sound setup := by
  obtain ⟨before, hhistory, hbefore, hfollows⟩ := h.last
  rw [Talk.OnCommandFailed, hhistory, AnswerUnansweredToolCalls_of_open hrole]
  refine Closed.commandOver ⟨?_, ?_⟩
  · have hspoken := h.spoken
    rw [hhistory] at hspoken
    exact hspoken.results _
  · exact hbefore.append_round hfollows (resultOf_repaired _ _)

/--
A console that throws between the tools throws in a round of an assistant's, and no response of
role "tool" comes right after the results of tools.
-/
def Repairable : TalkEvent → Talk → Prop
  | .call (.ok response), s => FollowsOn s.history response.message
  | .write (some _), s =>
      ∀ state toolName, s.phase = .reporting state toolName → state.message.role = "assistant"
  | _, _ => True

theorem Sound.step {s t : Talk} (h : s.Sound setup) {event : TalkEvent}
    (hstep : step setup event s = some t) (hrepairable : Repairable event s) : t.Sound setup := by
  have h' := h
  rw [Sound] at h'
  cases event with
  | pop command =>
      rw [Talk.step.eq_def] at hstep
      dsimp only at hstep
      split at hstep
      case h_2 => cases hstep
      case h_1 hphase =>
        rw [hphase] at h'
        split at hstep <;> cases hstep
        · exact ⟨h'.spoken, h'.wellFormed⟩
        · split_ifs
          · exact h
          · exact Closed.ProcessCommand h' _
  | call response =>
      rw [Talk.step.eq_def] at hstep
      dsimp only at hstep
      split at hstep
      case h_2 => cases hstep
      case h_1 rounds hphase =>
        rw [hphase] at h'
        split at hstep <;> cases hstep
        · exact Closed.respond h' rounds hrepairable
        · exact Closed.OnCommandFailed h' _
  | write thrown =>
      rw [Talk.step.eq_def] at hstep
      dsimp only at hstep
      split at hstep
      case h_1 rounds response hphase =>
        rw [hphase] at h'
        split at hstep <;> cases hstep
        · exact h'.1.push rounds h'.2
        · exact h'.1.OnCommandFailed _
      case h_2 state toolName hphase =>
        rw [hphase] at h'
        split at hstep <;> cases hstep
        · cases hrest : state.rest with
          | nil =>
              rw [Talk.answered, hrest]
              exact h.same rfl rfl rfl rfl
          | cons toolCall rest => exact (Open.append h' _).answered hrest _ _
        · exact Open.OnCommandFailed h' (hrepairable state toolName hphase) _
      case h_3 hphase =>
        rw [hphase] at h'
        split at hstep <;> cases hstep
        · exact Closed.commandOver h'
        · exact Closed.OnCommandFailed h' _
      case h_4 => cases hstep
  | tool outcome =>
      rw [Talk.step.eq_def] at hstep
      dsimp only at hstep
      split at hstep
      case h_2 => cases hstep
      case h_1 state hphase =>
        rw [hphase] at h'
        split at hstep <;> cases hstep
        exact Open.executeToolCall h' ‹_› outcome
  | requestStop =>
      cases hstep
      exact h.same rfl rfl rfl rfl

/-- What holds of the history that a call of the LLM is given. -/
structure Sent (setup : Setup) (s : Talk) : Prop where
  answered : WellFormed setup.json s.history
  prompts : setup.systemPrompts.map SystemMessage <+: s.history
  spoken : Spoken setup.systemPrompts s.commands s.responses s.history

theorem Sound.sent {s : Talk} (h : s.Sound setup) {rounds : Nat}
    (hcall : s.phase = .calling rounds) : s.Sent setup := by
  rw [Sound, hcall] at h
  exact ⟨h.wellFormed, h.spoken.prompts_prefix, h.spoken⟩

/-- Whatever was cut short, the next call is given a repaired history. -/
theorem run_sent {events : List TalkEvent} {s : Talk} {rounds : Nat}
    (hrun : Transition.run (step setup) events (start setup) = some s)
    (hrepairable : Transition.Meets (step setup) Repairable events (start setup))
    (hcall : s.phase = .calling rounds) : s.Sent setup :=
  (Transition.run_preserves_of_meets (P := Sound setup)
    (fun _ _ _ hstep hrepairable h => h.step hstep hrepairable) hrun hrepairable sound_start).sent
    hcall

/-! ## A round that is cut short -/

def talkative : Setup :=
  { systemPrompts := ["Be brief."], name := "agent", interactive := true, console := true
    json := .ofLists (fun _ => none) fun _ => "" }

def unknownCall : Json := .object [("id", .string "call_0"), ("name", .string "nope")]

/-- A response asks for a tool that there is not, and the console fails at saying so. -/
def cutShort (role : String) : List TalkEvent :=
  [.pop (some "first"),
    .call (.ok { message := { role, toolCallsJson := [unknownCall] } }),
    .tool .none, .write (some "broken pipe"), .pop (some "second")]

theorem run_sent_cutShort :
    ∃ s, Transition.run (step talkative) (cutShort "assistant") (start talkative) = some s ∧
      s.phase = .calling 1 ∧ s.history.length = 5 ∧ s.Sent talkative := by
  have hrepairable : Transition.Meets (step talkative) Repairable (cutShort "assistant")
      (start talkative) := by
    refine ⟨trivial, ?_⟩
    rintro _ ⟨⟩
    refine ⟨followsOn_of_ne (show "assistant" ≠ "tool" by decide), ?_⟩
    rintro _ ⟨⟩
    refine ⟨trivial, ?_⟩
    rintro _ ⟨⟩
    refine ⟨?_, fun _ _ => ⟨trivial, fun _ _ => trivial⟩⟩
    rintro _ _ ⟨⟩
    rfl
  obtain ⟨s, hrun, hphase, hlength⟩ :
      ∃ s, Transition.run (step talkative) (cutShort "assistant") (start talkative) = some s ∧
        s.phase = .calling 1 ∧ s.history.length = 5 := ⟨_, rfl, rfl, rfl⟩
  exact ⟨s, hrun, hphase, hlength, run_sent hrun hrepairable hphase⟩

/-- The response of a "model" is no assistant's: its tool call is sent without a result. -/
theorem not_sent_cutShort :
    ∃ s, Transition.run (step talkative) (cutShort "model") (start talkative) = some s ∧
      s.phase = .calling 1 ∧ ¬ s.Sent talkative := by
  refine ⟨_, rfl, rfl, fun hsent => ?_⟩
  have hanswered : WellFormed talkative.json [SystemMessage "Be brief.", UserMessage "first",
      { role := "model", toolCallsJson := [unknownCall] }, UserMessage "second"] := hsent.answered
  obtain ⟨-, -, hmodel, -⟩ := hanswered
  obtain ⟨results, after, hafter, hresults, -⟩ := hmodel (List.cons_ne_nil _ _)
  obtain ⟨result, rest, hanswers, -, rfl⟩ := List.forall₂_cons_left_iff.mp hresults
  rw [List.cons_append, List.cons.injEq] at hafter
  have hrole : (UserMessage "second").role = "tool" := hafter.1 ▸ hanswers.role
  exact absurd hrole (show "user" ≠ "tool" by decide)

end Talk

end Haisos.Agent
