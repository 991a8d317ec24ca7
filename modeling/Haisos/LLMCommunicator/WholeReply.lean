import Mathlib.Data.List.TakeWhile
import Haisos.LLMCommunicator.ParseResponse

/-!
# A reply is taken whole or not at all

What an exception in the middle of a reply leaves behind, and when that is nothing.
-/

namespace Haisos.LLMCommunicator

open StateExcept

variable (lib : Library)

/-! ## What is read of a reply -/

def readable (node : Option Json) : Bool := node.all fun node => (lib.asString node).isSome

def takable (tc : Json) : Bool := tc.isNull || tc.isObject

def callId (k : Nat) : String := "call_" ++ toString (lib.fetchAdd k)

def contentReadable (parsed : Json) : Bool :=
  (messageField lib parsed "content").isNone || readable lib (messageField lib parsed "thinking")

def thinkingOf (parsed : Json) : String :=
  if (messageField lib parsed "content").isNone then ""
  else ((messageField lib parsed "thinking").bind lib.asString).getD ""

/-- The call is an object with an id, the server's where it gave one. -/
def HasId (source call : Json) : Prop :=
  ∃ id, lib.field call "id" = some (.string id) ∧ id ≠ "" ∧ ∀ given, givenId lib source = some given → id = given

/-- A tool call of `message.tool_calls` is taken as it is, but for its id. -/
structure Kept (source call : Json) : Prop where
  hasId : HasId lib source call
  others : ∀ key, key ≠ "id" → lib.field call key = lib.field source key

/-- A `tool_use` item is taken with its name and its input. -/
structure KeptUse (source call : Json) : Prop where
  hasId : HasId lib source call
  name : (lib.field call "function").bind (lib.field · "name") = lib.field source "name"
  arguments : (lib.field call "function").bind (lib.field · "arguments") =
    some (.string (arguments lib source))

def TakenWhole (parsed : Json) (calls : List Json) : Prop :=
  if (toolCalls lib parsed).isEmpty then List.Forall₂ (KeptUse lib) (toolUses lib parsed) calls
  else List.Forall₂ (Kept lib) (toolCalls lib parsed) calls

/-- Whether the communicator itself reports the reply as an error or as unparsable. -/
def reported (jsonResponse : String) : Bool :=
  match lib.parse jsonResponse with
  | none => true
  | some parsed =>
      (lib.field parsed "error").isSome || !(exec (fill lib parsed) started).1.isOk

def WholeOrNothing (jsonResponse : String) : Prop :=
  let message := (ParseResponseJson lib jsonResponse).message
  if reported lib jsonResponse then
    ∃ detail, message = { role := "assistant", content := "Error: " ++ detail }
  else ∀ parsed, lib.parse jsonResponse = some parsed →
    TakenWhole lib parsed message.toolCallsJson

/-! ## The parts of the `try` block -/

theorem exec_orThrow {α : Type} (value : Option α) (s : Filling) :
    exec (orThrow value) s =
      match value with
      | some value => (.ok value, s)
      | none => (.error (), s) := by
  cases value <;> rfl

theorem exec_fillRole (parsed : Json) (s : Filling) :
    if readable lib (messageField lib parsed "role") then
      ∃ role, exec (fillRole lib parsed) s =
        (.ok (), s.withMessage { s.response.message with role })
    else exec (fillRole lib parsed) s = (.error (), s) := by
  rw [fillRole]
  cases hrole : messageField lib parsed "role" with
  | none => exact ⟨_, rfl⟩
  | some role =>
      simp only [readable, Option.all_some, exec_bind, exec_orThrow]
      cases lib.asString role with
      | none => rfl
      | some role => exact ⟨role, rfl⟩

theorem exec_setContent (contentNode : Json) (s : Filling) :
    ∃ content, exec (setContent contentNode) s =
      (.ok (), s.withMessage { s.response.message with content }) := by
  cases contentNode with
  | string content => exact ⟨content, rfl⟩
  | _ => exact ⟨s.response.message.content, rfl⟩

theorem exec_fillContent (parsed : Json) {s : Filling}
    (hthinking : s.response.message.thinking = "") :
    ∃ content, exec (fillContent lib parsed) s =
      if contentReadable lib parsed then
        (.ok (), s.withMessage { s.response.message with
          content, thinking := thinkingOf lib parsed })
      else (.error (), s.withMessage { s.response.message with content }) := by
  rw [fillContent, contentReadable, thinkingOf]
  cases messageField lib parsed "content" with
  | none =>
      cases lib.field parsed "content" with
      | none =>
          refine ⟨s.response.message.content, ?_⟩
          simp only [Option.isNone_none, Bool.true_or, if_true, ← hthinking]
          rfl
      | some contentNode =>
          obtain ⟨content, hcontent⟩ := exec_setContent contentNode s
          refine ⟨content, ?_⟩
          simp only [Option.isNone_none, Bool.true_or, if_true, ← hthinking]
          exact hcontent
  | some contentNode =>
      obtain ⟨content, hcontent⟩ := exec_setContent contentNode s
      refine ⟨content, ?_⟩
      simp only [exec_bind, hcontent, Option.isNone_some, Bool.false_or, Bool.false_eq_true,
        if_false]
      cases messageField lib parsed "thinking" with
      | none =>
          simp only [readable, Option.all_none, if_true, Option.bind_none, Option.getD_none,
            ← hthinking]
          rfl
      | some thinking =>
          simp only [readable, Option.all_some, exec_bind, exec_orThrow, Option.bind_some]
          obtain ⟨read, hread⟩ : ∃ read, lib.asString thinking = read := ⟨_, rfl⟩
          cases read with
          | none => simp only [hread, Option.isSome_none, Bool.false_eq_true, if_false]
          | some value =>
              simp only [hread, Option.isSome_some, if_true]
              rfl

def Filling.took (s : Filling) (calls : List Json) (fetched : Nat) : Filling :=
  { s.withMessage { s.response.message with
      toolCallsJson := s.response.message.toolCallsJson ++ calls } with fetched }

theorem exec_push (toolCall : Json) (s : Filling) :
    exec (push toolCall) s = (.ok (), s.took [toolCall] s.fetched) := rfl

theorem callId_ne_empty (k : Nat) : callId lib k ≠ "" := by
  intro h
  have hlength := congrArg String.length h
  rw [callId, String.length_append] at hlength
  have hcall : "call_".length = 5 := rfl
  rw [hcall, String.length_empty] at hlength
  omega

variable {lib} in
theorem givenId_eq_some {source : Json} {id : String} (h : givenId lib source = some id) :
    lib.field source "id" = some (.string id) ∧ id ≠ "" := by
  rw [givenId] at h
  split at h
  case h_1 given hfield =>
    split_ifs at h with hempty
    cases h
    refine ⟨hfield, ?_⟩
    rintro rfl
    exact hempty rfl
  case h_2 => cases h

variable {lib} in
theorem takable_of_givenId {source : Json} {id : String} (h : givenId lib source = some id) :
    takable source = true := by
  have hfield := (givenId_eq_some h).1
  cases hobject : source.isObject with
  | false =>
      rw [lib.field_of_not_object hobject] at hfield
      cases hfield
  | true => rw [takable, hobject, Bool.or_true]

theorem exec_takeToolCall (tc : Json) (s : Filling) :
    if takable tc then
      ∃ call fetched, exec (takeToolCall lib tc) s = (.ok (), s.took [call] fetched) ∧ Kept lib tc call
    else (exec (takeToolCall lib tc) s).1 = .error () ∧
      ∃ fetched, (exec (takeToolCall lib tc) s).2 = s.took [] fetched := by
  rw [takeToolCall]
  cases hgiven : givenId lib tc with
  | some id =>
      rw [takable_of_givenId hgiven, if_pos rfl]
      obtain ⟨hid, hne⟩ := givenId_eq_some hgiven
      refine ⟨tc, s.fetched, exec_push tc s, ⟨id, hid, hne, ?_⟩, fun _ _ => rfl⟩
      rintro given hsame
      exact Option.some.inj (hgiven.symm.trans hsame)
  | none =>
      simp only [nextId, exec_bind, exec_modifyGet, exec_orThrow]
      have hset := lib.isSome_setField tc "id"
        (.string ("call_" ++ toString (lib.fetchAdd s.fetched)))
      rw [takable]
      cases htc : lib.setField tc "id" (.string ("call_" ++ toString (lib.fetchAdd s.fetched))) with
      | none =>
          rw [htc] at hset
          rw [← hset]
          refine ⟨rfl, s.fetched + 1, ?_⟩
          simp only [Filling.took, List.append_nil]
          rfl
      | some call =>
          rw [htc] at hset
          rw [← hset]
          refine ⟨call, s.fetched + 1, rfl, ⟨_, lib.field_setField htc,
            callId_ne_empty lib s.fetched, ?_⟩, fun key hkey => lib.field_setField_of_ne htc hkey⟩
          rw [hgiven]
          exact nofun

theorem Filling.took_took (s : Filling) (calls calls' : List Json) (n n' : Nat) :
    (s.took calls n).took calls' n' = s.took (calls ++ calls') n' := by
  simp [Filling.took, Filling.withMessage]

/-- The loop over `message.tool_calls` stops at the first that can be given no id. -/
theorem exec_takeToolCalls (elements : List Json) (s : Filling) :
    ∃ calls fetched, (exec (elements.forM (takeToolCall lib)) s).2 = s.took calls fetched ∧
      List.Forall₂ (Kept lib) (elements.takeWhile takable) calls ∧
      (exec (elements.forM (takeToolCall lib)) s).1 =
        if elements.all takable then .ok () else .error () := by
  induction elements generalizing s with
  | nil =>
      refine ⟨[], s.fetched, ?_, .nil, rfl⟩
      simp [Filling.took, Filling.withMessage]
  | cons tc rest ih =>
      have hfirst := exec_takeToolCall lib tc s
      have hcons : (tc :: rest).forM (takeToolCall lib) =
          takeToolCall lib tc >>= fun _ => rest.forM (takeToolCall lib) := rfl
      rw [hcons]
      cases htakable : takable tc with
      | false =>
          rw [htakable, if_neg Bool.false_ne_true] at hfirst
          obtain ⟨herror, fetched, hfetched⟩ := hfirst
          have hexec : exec (takeToolCall lib tc) s = (.error (), s.took [] fetched) :=
            Prod.ext herror hfetched
          rw [exec_bind_error hexec]
          exact ⟨[], fetched, rfl, by simp [htakable], by simp [htakable]⟩
      | true =>
          rw [htakable, if_pos rfl] at hfirst
          obtain ⟨call, fetched, hexec, hkept⟩ := hfirst
          rw [exec_bind_ok hexec]
          obtain ⟨calls, fetched', hcalls, hall, hended⟩ := ih (s.took [call] fetched)
          refine ⟨call :: calls, fetched', ?_, ?_, ?_⟩
          · rw [hcalls, Filling.took_took]
            rfl
          · rw [List.takeWhile_cons, htakable, if_pos rfl]
            exact .cons hkept hall
          · rw [hended, List.all_cons, htakable, Bool.true_and]

theorem exec_takeToolUses (items : List Json) (s : Filling) :
    exec (items.forM (takeToolUse lib)) s =
      (.ok (), s.took (items.mapIdx fun k item => toolUse lib (callId lib (s.fetched + k)) item)
        (s.fetched + items.length)) := by
  induction items generalizing s with
  | nil => simp [Filling.took, Filling.withMessage]
  | cons item rest ih =>
      have hfirst : exec (takeToolUse lib item) s =
          (.ok (), s.took [toolUse lib (callId lib s.fetched) item] (s.fetched + 1)) := rfl
      have hcons : (item :: rest).forM (takeToolUse lib) =
          takeToolUse lib item >>= fun _ => rest.forM (takeToolUse lib) := rfl
      rw [hcons, exec_bind_ok hfirst, ih, Filling.took_took, List.mapIdx_cons,
        List.length_cons]
      simp [Filling.took, Nat.add_comm, Nat.add_left_comm]

/-- What is stored of the tool calls, until the first that can be given no id. -/
def Stored (parsed : Json) (calls : List Json) : Prop :=
  if (toolCalls lib parsed).isEmpty then
    calls = (toolUses lib parsed).mapIdx fun k item => toolUse lib (callId lib k) item
  else List.Forall₂ (Kept lib) ((toolCalls lib parsed).takeWhile takable) calls

theorem exec_fillToolCalls (parsed : Json) {s : Filling} (hfetched : s.fetched = 0) :
    ∃ calls fetched, exec (fillToolCalls lib parsed) s =
        (if (toolCalls lib parsed).all takable then .ok () else .error (), s.took calls fetched) ∧
      Stored lib parsed calls := by
  rw [fillToolCalls]
  unfold Stored
  cases hempty : (toolCalls lib parsed).isEmpty with
  | true =>
      simp only [List.isEmpty_iff.mp hempty, if_true]
      have huses := exec_takeToolUses lib (toolUses lib parsed) s
      simp only [hfetched, Nat.zero_add] at huses
      exact ⟨_, _, huses, rfl⟩
  | false =>
      simp only [Bool.false_eq_true, if_false]
      obtain ⟨calls, fetched, hcalls, hall, hended⟩ := exec_takeToolCalls lib (toolCalls lib parsed) s
      refine ⟨calls, fetched, ?_, hall⟩
      have hexec : exec ((toolCalls lib parsed).forM (takeToolCall lib)) s =
          (if (toolCalls lib parsed).all takable then .ok () else .error (), s.took calls fetched) :=
        Prod.ext hended hcalls
      split_ifs with htakable
      · rw [if_pos htakable] at hexec
        rw [exec_bind_ok hexec]
        rfl
      · rw [if_neg htakable] at hexec
        rw [exec_bind_error hexec]

theorem exec_fillDone (parsed : Json) (s : Filling) :
    ∃ s', exec (fillDone lib parsed) s = (.ok (), s') ∧ s'.response.message = s.response.message := by
  rw [fillDone]
  split
  · exact ⟨_, rfl, rfl⟩
  · exact ⟨s, rfl, rfl⟩

theorem exec_fillReason (parsed : Json) (s : Filling) :
    (exec (fillReason lib parsed) s).1 = (if readable lib (reason lib parsed) then .ok () else .error ()) ∧
      (exec (fillReason lib parsed) s).2.response.message = s.response.message := by
  rw [fillReason, readable]
  cases reason lib parsed with
  | none => exact ⟨rfl, rfl⟩
  | some node =>
      simp only [Option.all_some, exec_bind, exec_orThrow]
      obtain ⟨read, hread⟩ : ∃ read, lib.asString node = read := ⟨_, rfl⟩
      cases read with
      | none => simp only [hread, Option.isSome_none, Bool.false_eq_true, if_false, and_self]
      | some value =>
          simp only [hread, Option.isSome_some, if_true]
          exact ⟨rfl, rfl⟩

/-! ## The whole block -/

/-- Nothing is stored before the tool calls that an exception could leave behind. -/
def readsHead (parsed : Json) : Bool :=
  readable lib (messageField lib parsed "role") && contentReadable lib parsed

def readsRest (parsed : Json) : Bool :=
  (toolCalls lib parsed).all takable && readable lib (reason lib parsed)

theorem exec_fill (parsed : Json) :
    (exec (fill lib parsed) started).1 =
        (if readsHead lib parsed && readsRest lib parsed then .ok () else .error ()) ∧
      ∃ role content calls, (exec (fill lib parsed) started).2.response.message =
          { role, content, thinking := if readsHead lib parsed then thinkingOf lib parsed else ""
            toolCallsJson := calls } ∧
        if readsHead lib parsed then Stored lib parsed calls else calls = [] := by
  rw [fill, readsHead, readsRest]
  have hrole := exec_fillRole lib parsed started
  cases hreadable : readable lib (messageField lib parsed "role") with
  | false =>
      rw [hreadable, if_neg Bool.false_ne_true] at hrole
      rw [exec_bind_error hrole]
      exact ⟨rfl, _, _, _, rfl, rfl⟩
  | true =>
      rw [hreadable, if_pos rfl] at hrole
      obtain ⟨role, hrole⟩ := hrole
      rw [exec_bind_ok hrole]
      obtain ⟨content, hcontent⟩ := exec_fillContent lib parsed
        (s := started.withMessage { started.response.message with role }) rfl
      cases hcontentReadable : contentReadable lib parsed with
      | false =>
          rw [hcontentReadable, if_neg Bool.false_ne_true] at hcontent
          rw [exec_bind_error hcontent]
          exact ⟨rfl, _, _, _, rfl, rfl⟩
      | true =>
          rw [hcontentReadable, if_pos rfl] at hcontent
          rw [exec_bind_ok hcontent]
          obtain ⟨calls, fetched, hcalls, hstored⟩ := exec_fillToolCalls lib parsed
            (s := (started.withMessage { started.response.message with role }).withMessage
              { (started.withMessage { started.response.message with role }).response.message with
                content, thinking := thinkingOf lib parsed }) rfl
          cases htakable : (toolCalls lib parsed).all takable with
          | false =>
              rw [htakable, if_neg Bool.false_ne_true] at hcalls
              rw [exec_bind_error hcalls]
              exact ⟨rfl, _, _, calls, rfl, hstored⟩
          | true =>
              rw [htakable, if_pos rfl] at hcalls
              rw [exec_bind_ok hcalls]
              obtain ⟨s', hdone, hmessage⟩ := exec_fillDone lib parsed _
              rw [exec_bind_ok hdone]
              obtain ⟨hended, hsame⟩ := exec_fillReason lib parsed s'
              exact ⟨hended, role, content, calls, hsame.trans hmessage, hstored⟩

/-! ## When a reply is taken whole or not at all -/

/-- The ids that the server gave to `tool_use` items are the ones that are made up for them. -/
def KeepsIds (parsed : Json) : Prop :=
  (toolCalls lib parsed).isEmpty = true → ∀ (k : Nat) (item : Json) (given : String),
    (toolUses lib parsed)[k]? = some item → givenId lib item = some given → callId lib k = given

/-- What is stored before a reply turns out not to be readable to its end. -/
def storedFirst (parsed : Json) : List Json :=
  if (toolCalls lib parsed).isEmpty then toolUses lib parsed else (toolCalls lib parsed).takeWhile takable

def LeavesNothing (parsed : Json) : Prop := thinkingOf lib parsed = "" ∧ storedFirst lib parsed = []

def Clean (jsonResponse : String) : Prop :=
  ∀ parsed, lib.parse jsonResponse = some parsed → lib.field parsed "error" = none →
    readsHead lib parsed = true →
      if readsRest lib parsed then KeepsIds lib parsed else LeavesNothing lib parsed

theorem field_toolUse (id : String) (item : Json) :
    lib.field (toolUse lib id item) "id" = some (.string id) := by
  rw [toolUse, lib.field_object (by simp)]
  rfl

/-- The fields of a call's `function`, as a `tool_use` item has them. -/
theorem field_function (id : String) (item : Json) :
    (lib.field (toolUse lib id item) "function").bind (lib.field · "name") =
        lib.field item "name" ∧
      (lib.field (toolUse lib id item) "function").bind (lib.field · "arguments") =
        some (.string (arguments lib item)) := by
  rw [toolUse, lib.field_object (by simp)]
  cases lib.field item "name" with
  | none => exact ⟨lib.field_object (by simp) "name", lib.field_object (by simp) "arguments"⟩
  | some name => exact ⟨lib.field_object (by simp) "name", lib.field_object (by simp) "arguments"⟩

theorem keptUse_iff (id : String) (item : Json) (hid : id ≠ "") :
    KeptUse lib item (toolUse lib id item) ↔
      ∀ given, givenId lib item = some given → id = given := by
  refine ⟨fun h given hgiven => ?_, fun h => ?_⟩
  · obtain ⟨id', hfield, -, hsame⟩ := h.hasId
    cases (field_toolUse lib id item).symm.trans hfield
    exact hsame given hgiven
  · obtain ⟨hname, harguments⟩ := field_function lib id item
    exact ⟨⟨id, field_toolUse lib id item, hid, h⟩, hname, harguments⟩

theorem takenWhole_iff {parsed : Json} {calls : List Json} (hstored : Stored lib parsed calls)
    (htakable : (toolCalls lib parsed).all takable = true) :
    TakenWhole lib parsed calls ↔ KeepsIds lib parsed := by
  unfold Stored at hstored
  unfold TakenWhole KeepsIds
  cases hempty : (toolCalls lib parsed).isEmpty with
  | true =>
      rw [hempty, if_pos rfl] at hstored
      rw [if_pos rfl, hstored, List.forall₂_iff_get]
      simp only [List.length_mapIdx, true_and, List.get_eq_getElem, List.getElem_mapIdx,
        keptUse_iff lib _ _ (callId_ne_empty lib _), true_implies]
      constructor
      · intro h k item given hitem
        obtain ⟨hk, rfl⟩ := List.getElem?_eq_some_iff.mp hitem
        exact h k hk hk given
      · intro h k hk _ given
        exact h k _ given (List.getElem?_eq_getElem hk)
  | false =>
      have htake : (toolCalls lib parsed).takeWhile takable = toolCalls lib parsed :=
        List.takeWhile_eq_self_iff.mpr (List.all_eq_true.mp htakable)
      rw [hempty, if_neg Bool.false_ne_true, htake] at hstored
      rw [if_neg Bool.false_ne_true]
      exact ⟨fun _ => nofun, fun _ => hstored⟩

theorem stored_nil_iff {parsed : Json} {calls : List Json} (hstored : Stored lib parsed calls) :
    calls = [] ↔ storedFirst lib parsed = [] := by
  unfold Stored at hstored
  unfold storedFirst
  split_ifs at hstored ⊢ with hempty
  · rw [hstored, ← List.length_eq_zero_iff, List.length_mapIdx, List.length_eq_zero_iff]
  · rw [← List.length_eq_zero_iff, ← hstored.length_eq, List.length_eq_zero_iff]

theorem parseError_clean_iff (s : Filling) {role content thinking : String} {calls : List Json}
    (h : s.response.message = { role, content, thinking, toolCallsJson := calls }) :
    (∃ detail, (parseError s.response).message =
      { role := "assistant", content := "Error: " ++ detail }) ↔ thinking = "" ∧ calls = [] := by
  rw [parseError, h]
  constructor
  · rintro ⟨detail, hmessage⟩
    exact ⟨congrArg LLMMessage.thinking hmessage, congrArg LLMMessage.toolCallsJson hmessage⟩
  · rintro ⟨rfl, rfl⟩
    exact ⟨"Failed to parse LLM response", rfl⟩

/--
A reply is taken whole, or nothing of it is, exactly if what is stored before an exception is
nothing, and the ids that were given to `tool_use` items are the ones made up for them.
-/
theorem wholeOrNothing_iff_clean (jsonResponse : String) :
    WholeOrNothing lib jsonResponse ↔ Clean lib jsonResponse := by
  rw [WholeOrNothing, Clean, reported, ParseResponseJson]
  cases hparse : lib.parse jsonResponse with
  | none => exact ⟨fun _ _ h => (nomatch h), fun _ => ⟨"Failed to parse LLM response", rfl⟩⟩
  | some parsed =>
      simp only [Option.some.injEq, forall_eq']
      cases herror : lib.field parsed "error" with
      | some errorNode => exact ⟨fun _ => nofun, fun _ => ⟨errorDetail lib errorNode, rfl⟩⟩
      | none =>
          obtain ⟨hended, role, content, calls, hmessage, hstored⟩ := exec_fill lib parsed
          rcases hexec : exec (fill lib parsed) started with ⟨ended, s⟩
          rw [hexec] at hended hmessage
          dsimp only at hended hmessage
          simp only [Option.isSome_none, Bool.false_or, true_implies]
          cases hhead : readsHead lib parsed with
          | false =>
              simp only [hhead, Bool.false_and, Bool.false_eq_true, if_false] at hended hmessage hstored
              subst hended
              refine ⟨fun _ => nofun, fun _ => ?_⟩
              exact (parseError_clean_iff s hmessage).mpr ⟨rfl, hstored⟩
          | true =>
              simp only [hhead, Bool.true_and, if_true] at hended hmessage hstored
              cases hrest : readsRest lib parsed with
              | true =>
                  simp only [hrest, if_true] at hended
                  subst hended
                  have htakable := (Bool.and_eq_true_iff.mp hrest).1
                  have hwhole := takenWhole_iff lib hstored htakable
                  simpa [Except.isOk, Except.toBool, hmessage] using hwhole
              | false =>
                  simp only [hrest, Bool.false_eq_true, if_false] at hended
                  subst hended
                  have hclean := parseError_clean_iff s hmessage
                  rw [stored_nil_iff lib hstored] at hclean
                  simpa [Except.isOk, Except.toBool, LeavesNothing] using hclean

/-! ## A tool call that stays -/

/-- A reply whose `done_reason` is a number. -/
def numberedReason : Json :=
  .object [("done_reason", .number "1"),
    ("message", .object [("tool_calls", .array [.object [("name", .string "os_read_file")]])])]

def numberedReasonText : String :=
  "\x7b\"done_reason\":1,\"message\":\x7b\"tool_calls\":[\x7b\"name\":\"os_read_file\"\x7d]\x7d\x7d"

def numberedReasonLibrary : Library where
  toJsonLibrary := .ofLists
    (fun text => if text = numberedReasonText then some numberedReason else none) fun _ => ""
  fetchAdd k := k

/-- The reply is reported as unparsable, and its tool call is still there to be run. -/
theorem not_wholeOrNothing_numberedReason :
    reported numberedReasonLibrary numberedReasonText = true ∧
      ¬ WholeOrNothing numberedReasonLibrary numberedReasonText := by
  have hparse : numberedReasonLibrary.parse numberedReasonText = some numberedReason := by
    simp [numberedReasonLibrary, JsonLibrary.ofLists]
  have hreported : reported numberedReasonLibrary numberedReasonText = true := by
    rw [reported, hparse]
    rfl
  refine ⟨hreported, fun h => ?_⟩
  rw [WholeOrNothing, hreported, if_pos rfl] at h
  obtain ⟨detail, hmessage⟩ := h
  have hcalls := congrArg LLMMessage.toolCallsJson hmessage
  rw [ParseResponseJson, hparse] at hcalls
  cases hcalls

end Haisos.LLMCommunicator
