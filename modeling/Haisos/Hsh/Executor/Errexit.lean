import Haisos.Hsh.Executor.Discipline

/-!
# When `-e` ends the shell

`-e` is for a failure outside every tested context: of a simple command, of a
pipeline of stages or of a subshell.  `ExecuteAndOr` decides by the status of
its last pipeline alone, so a compound command there has to have its status
from such a failure; `ownsStatus` is when it does.
-/

namespace Haisos.Hsh

open StateExcept

variable {τ : Type}

/-! ## Statuses -/

mutual

/-- A status other than 0 of the list is that of a failure outside every tested context. -/
def itemsOwnStatus : CommandList HereDocument τ → Bool
  | [] => false
  | [item] => itemOwnsStatus item
  | _ :: item :: rest => itemsOwnStatus (item :: rest)

def itemOwnsStatus : ListItem HereDocument τ → Bool
  | .mk andOr background _ => background || andOrOwnsStatus none andOr

/-- After `&&` the status may be that of the pipeline before it. -/
def andOrOwnsStatus : Option AndOrOperator → AndOrList HereDocument τ → Bool
  | operator, .last pipeline => operator != some .and && pipelineOwnsStatus pipeline
  | _, .chain _ operator rest => andOrOwnsStatus (some operator) rest

def pipelineOwnsStatus : Pipeline HereDocument τ → Bool
  | .mk negated first rest _ => !negated && (!rest.isEmpty || commandOwnsStatus first)

def commandOwnsStatus : Command HereDocument τ → Bool
  | .simple _ | .functionDefinition _ _ _ _ => true
  | .compound body redirections _ =>
      body.isSubshell || (redirections.isEmpty && compoundOwnsStatus body)

def compoundOwnsStatus : Compound HereDocument τ → Bool
  | .subshell _ => true
  | .braceGroup items => itemsOwnStatus items
  | .ifCommand branches elseBody => branchesOwnStatus branches && elseOwnsStatus elseBody
  | .loop _ _ body => itemsOwnStatus body
  | .forCommand _ _ body => itemsOwnStatus body
  | .caseCommand _ items => casesOwnStatus items

def branchesOwnStatus : List (IfBranch HereDocument τ) → Bool
  | [] => true
  | .mk _ body :: rest => itemsOwnStatus body && branchesOwnStatus rest

def elseOwnsStatus : Option (CommandList HereDocument τ) → Bool
  | none => true
  | some body => itemsOwnStatus body

def casesOwnStatus : List (CaseItem HereDocument τ) → Bool
  | [] => true
  | .mk _ body :: rest => (body.isEmpty || itemsOwnStatus body) && casesOwnStatus rest

end

/-- The status that `-e` looks at: that of the last pipeline, unless it is negated. -/
def lastOwnsStatus : AndOrList HereDocument τ → Bool
  | .last pipeline => pipeline.negated || pipelineOwnsStatus pipeline
  | .chain _ _ rest => lastOwnsStatus rest

/-! ## Runs -/

def Event.failedByCount : Event τ → Bool
  | .ran _ status tested => status ≠ 0 && tested = 0
  | _ => false

/--
What a step has to be like for `-e` to decide right: an and-or list outside
every tested context owns the status of its last pipeline, `-n` skips nothing,
and a child hsh can be started.
-/
def Event.RegularByCount : Event τ → Prop
  | .enters andOr tested => tested = 0 → lastOwnsStatus andOr = true
  | .skipped => False
  | .background started => started = true
  | _ => True

def eventsSince (since : Nat) (trace : List (Event τ)) : List (Event τ) :=
  trace.take (trace.length - since)

/-- Each time `-e` ended the shell, something failed outside every tested context in the list. -/
def JustifiedByCount : List (Event τ) → Prop
  | [] => True
  | .errexit _ since :: trace =>
      (∃ event ∈ eventsSince since trace, event.failedByCount) ∧ JustifiedByCount trace
  | _ :: trace => JustifiedByCount trace

structure Grows (s s' : ExecState τ) : Prop where
  suffix : s.trace <:+ s'.trace
  justified : (∀ event ∈ s'.trace, event.RegularByCount) → JustifiedByCount s.trace →
    JustifiedByCount s'.trace

instance : Std.Refl (Grows (τ := τ)) := ⟨fun _ => ⟨List.suffix_rfl, fun _ h => h⟩⟩

instance : IsTrans (ExecState τ) Grows where
  trans _ _ _ h h' :=
    ⟨h.suffix.trans h'.suffix, fun hregular hs =>
      h'.justified hregular (h.justified (fun event hmem =>
        hregular event (h'.suffix.subset hmem)) hs)⟩

def FailedSince (s s' : ExecState τ) : Prop :=
  ∃ new, s'.trace = new ++ s.trace ∧ ∃ event ∈ new, event.failedByCount

theorem FailedSince.mono {s₀ s₁ s₂ s₃ : ExecState τ} (h : FailedSince s₁ s₂)
    (before : s₀.trace <:+ s₁.trace) (after : s₂.trace <:+ s₃.trace) : FailedSince s₀ s₃ := by
  obtain ⟨new, hnew, event, hmem, hfailure⟩ := h
  obtain ⟨first, hfirst⟩ := before
  obtain ⟨last, hlast⟩ := after
  refine ⟨last ++ new ++ first, ?_, event, ?_, hfailure⟩
  · rw [← hlast, hnew, ← hfirst]
    simp
  · simp [hmem]

def After (s₀ s : ExecState τ) : Prop := s₀.trace <:+ s.trace

/-- A status other than 0 is that of a failure, since `s₀`, outside every tested context. -/
def OwnedAfter (s₀ : ExecState τ) (status : Int) (s : ExecState τ) : Prop :=
  After s₀ s ∧ (status ≠ 0 → (∀ event ∈ s.trace, event.RegularByCount) → FailedSince s₀ s)

def OwnsStatus (m : Exec τ Int) : Prop := ∀ s₀, Ensures (After s₀) m (OwnedAfter s₀)

theorem OwnedAfter.grows {s₀ s s' : ExecState τ} {status : Int} (h : OwnedAfter s₀ status s)
    (hgrows : Grows s s') : OwnedAfter s₀ status s' := by
  refine ⟨h.1.trans hgrows.suffix, fun hstatus hregular => ?_⟩
  have hfailed := h.2 hstatus fun event hmem => hregular event (hgrows.suffix.subset hmem)
  exact hfailed.mono List.suffix_rfl hgrows.suffix

theorem ownedAfter_zero {s₀ s : ExecState τ} (h : After s₀ s) : OwnedAfter s₀ 0 s :=
  ⟨h, fun hzero => absurd rfl hzero⟩

theorem after_of_grows {α : Type} {m : Exec τ α} (hm : Respects Grows m) (s₀ : ExecState τ) :
    Ensures (After s₀) m fun _ => After s₀ :=
  hm.ensures fun _ _ _ hs hgrows => hs.trans hgrows.suffix

theorem OwnsStatus.bind_intro {α : Type} {m : Exec τ α} {f : α → Exec τ Int}
    (hm : Respects Grows m) (hf : ∀ a, OwnsStatus (f a)) : OwnsStatus (m >>= f) :=
  fun s₀ => Ensures.bind_intro (after_of_grows hm s₀) fun a => hf a s₀

theorem ownsStatus_zero : OwnsStatus (pure 0 : Exec τ Int) :=
  fun _ => Ensures.pure_intro fun _ h => ownedAfter_zero h

theorem ownsStatus_throw (failure : Failure) : OwnsStatus (throw failure : Exec τ Int) :=
  fun _ => Ensures.throw_intro

/-! ### What leaves the trace alone -/

theorem grows_of_trace_eq {s s' : ExecState τ} (h : s'.trace = s.trace) : Grows s s' :=
  ⟨h ▸ List.suffix_rfl, fun _ hs => h ▸ hs⟩

theorem grows_modify {f : ExecState τ → ExecState τ} (h : ∀ s, (f s).trace = s.trace) :
    Respects Grows (modify f : Exec τ Unit) :=
  Respects.modify_intro fun s => grows_of_trace_eq (h s)

theorem grows_consult {α : Type} (outcome : Nat → α) : Respects Grows (consult outcome : Exec τ α) :=
  Respects.modifyGet_intro fun _ => grows_of_trace_eq rfl

theorem grows_log {event : Event τ} (h : ∀ status since, event ≠ .errexit status since) :
    Respects Grows (log event) := by
  refine Respects.modify_intro fun s => ⟨List.suffix_cons _ _, fun _ hs => ?_⟩
  cases event with
  | errexit status since => exact absurd rfl (h status since)
  | _ => exact hs

theorem grows_inPart {α : Type} {m : Exec τ α} (hm : Respects Grows m) (place : Place)
    (node : Node τ) : Respects Grows (inPart place node m) := by
  refine Respects.bind_intro (grows_log fun _ _ => by simp) fun _ => ?_
  refine Respects.tryCatch_intro ?_ fun failure => ?_
  · exact Respects.bind_intro hm fun _ => Respects.bind_intro (grows_log fun _ _ => by simp)
      fun _ => Respects.pure_intro _
  · exact Respects.bind_intro (grows_log fun _ _ => by simp) fun _ => Respects.throw_intro _

/-- Wherever it is run, `m` lets the trace grow. -/
def GrowsIn {α : Type} (_ : Option (Node τ)) (_ : Nat) (m : Exec τ α) : Prop := Respects Grows m

theorem growsDiscipline {inner : Executor τ}
    (list : ∀ tested items, Respects Grows (inner.list tested items))
    (command : ∀ tested command, Respects Grows (inner.command tested command))
    (round : ∀ tested kind condition body status,
      Respects Grows (inner.round tested kind condition body status)) :
    PartDiscipline (fun {_} => GrowsIn) inner where
  pure _ := Respects.pure_intro _
  throw _ := Respects.throw_intro _
  bind := Respects.bind_intro
  tryCatch := Respects.tryCatch_intro
  get := Respects.get_intro
  consult := grows_consult
  modifies := grows_modify
  notes hnote := grows_log fun status since heq => by
    rw [heq] at hnote
    cases hnote
  ran _ _ := grows_log fun _ _ => by simp
  inPart _ _ hm := grows_inPart hm _ _
  starts hm := Respects.bind_intro (grows_log fun _ _ => by simp) fun _ => grows_inPart hm _ _
  list := list
  command := command
  round tested kind condition body status _ _ := round tested kind condition body status

/-! ## Execution -/

/-- What the proof of one level of execution takes from the level below. -/
structure Executor.Sound (inner : Executor τ) : Prop where
  parts : PartDiscipline (fun {_} => GrowsIn) inner
  round_grows : ∀ tested kind condition body status,
    Respects Grows (inner.round tested kind condition body status)
  list_owns : ∀ items, itemsOwnStatus items = true → OwnsStatus (inner.list 0 items)
  command_owns : ∀ command, commandOwnsStatus command = true → OwnsStatus (inner.command 0 command)
  round_owns : ∀ kind condition body status s₀, itemsOwnStatus body = true →
    Ensures (OwnedAfter s₀ status) (inner.round 0 kind condition body status) (OwnedAfter s₀)

section

variable (outcomes : Outcomes τ) {inner : Executor τ} (sound : inner.Sound)

include sound

theorem grows_list (place : Place) (tested : Nat) (items : CommandList HereDocument τ) :
    Respects Grows (inPart place (.list items) (inner.list tested items)) :=
  grows_inPart (sound.parts.list tested items) _ _

theorem grows_expand {α : Type} (tested : Nat) (expanded : Nat → Expanded τ α) :
    Respects Grows (expand inner tested expanded) :=
  show GrowsIn (some (.command (.simple {}))) tested (expand inner tested expanded) from
    sound.parts.expand tested expanded

theorem grows_matchesAny (tested : Nat) (subject : Text) (patterns : List Word) :
    Respects Grows (matchesAny outcomes inner tested subject patterns) :=
  show GrowsIn (some (.command (.simple {}))) tested _ from
    sound.parts.matchesAny outcomes tested subject patterns

theorem grows_executeSimpleCommand (tested : Nat) (command : SimpleCommand HereDocument) :
    Respects Grows (executeSimpleCommand outcomes inner tested command) :=
  show GrowsIn (some (.command (.simple command))) tested _ from
    sound.parts.executeSimpleCommand outcomes tested command

/-! ### What is run inside a scope -/

omit sound in
/-- A status that was owned before stays owned. -/
theorem ownedAfter_of_grows {α : Type} {m : Exec τ α} (hm : Respects Grows m)
    (s₀ : ExecState τ) (status : Int) :
    Ensures (OwnedAfter s₀ status) m fun _ => OwnedAfter s₀ status :=
  hm.ensures fun _ _ _ hs hgrows => hs.grows hgrows

omit sound in
theorem owns_cleanup {m : Exec τ Int} {cleanup failed : Exec τ Unit} (hgrows : Respects Grows m)
    (howns : OwnsStatus m) (hcleanup : Respects Grows cleanup) (hfailed : Respects Grows failed) :
    OwnsStatus (tryCatch (do
      let status ← m
      cleanup
      pure status) fun failure => do
        failed
        throw failure) := by
  intro s₀
  have hbody : Respects Grows (do
      let status ← m
      cleanup
      pure status) :=
    Respects.bind_intro hgrows fun _ => Respects.bind_intro hcleanup fun _ => Respects.pure_intro _
  refine Ensures.tryCatch_intro (After s₀) (Ensures.bind_intro (howns s₀) fun status => ?_)
    (fun s hs => hs.trans (hbody s).suffix) fun failure => ?_
  · exact Ensures.bind_intro (ownedAfter_of_grows hcleanup s₀ status) fun _ =>
      Ensures.pure_intro fun _ h => h
  · exact Ensures.bind_intro (after_of_grows hfailed s₀) fun _ => Ensures.throw_intro

omit sound in
theorem owns_inPart {m : Exec τ Int} (hgrows : Respects Grows m) (howns : OwnsStatus m)
    (place : Place) (node : Node τ) : OwnsStatus (inPart place node m) :=
  OwnsStatus.bind_intro (grows_log fun _ _ => by simp) fun _ =>
    owns_cleanup hgrows howns (grows_log fun _ _ => by simp) (grows_log fun _ _ => by simp)

omit sound in
theorem owns_inLoop {m : Exec τ Int} (hgrows : Respects Grows m) (howns : OwnsStatus m) :
    OwnsStatus (inLoop m) :=
  OwnsStatus.bind_intro (grows_modify fun _ => rfl) fun _ =>
    owns_cleanup hgrows howns (grows_modify fun _ => rfl) (grows_modify fun _ => rfl)

theorem owns_list {items : CommandList HereDocument τ} (place : Place)
    (h : itemsOwnStatus items = true) :
    OwnsStatus (inPart place (.list items) (inner.list 0 items)) :=
  owns_inPart (sound.parts.list 0 items) (sound.list_owns items h) _ _

/-! ### Compound commands -/

theorem owns_executeIf {elseBody : Option (CommandList HereDocument τ)}
    (helse : elseOwnsStatus elseBody = true) :
    ∀ branches, branchesOwnStatus branches = true →
      OwnsStatus (executeIf inner 0 elseBody branches)
  | [], _ => by
      cases elseBody with
      | none => exact ownsStatus_zero
      | some items =>
          rw [elseOwnsStatus] at helse
          exact owns_list sound _ helse
  | .mk condition body :: rest, h => by
      rw [branchesOwnStatus, Bool.and_eq_true] at h
      refine OwnsStatus.bind_intro (grows_list sound _ 1 condition) fun status => ?_
      split
      · exact owns_list sound _ h.1
      · exact owns_executeIf helse rest h.2

omit sound in
theorem owns_catchLoopControl {body : Exec τ Int} (hgrows : Respects Grows body)
    (howns : OwnsStatus body) (s₀ : ExecState τ) :
    Ensures (After s₀) (catchLoopControl body) fun ended s =>
      match ended with
      | .status status => OwnedAfter s₀ status s
      | .control _ => After s₀ s := by
  have hbody : Respects Grows (do pure (RoundEnd.status (← body))) :=
    Respects.bind_intro hgrows fun _ => Respects.pure_intro _
  refine Ensures.tryCatch_intro (After s₀)
    (Ensures.bind_intro (howns s₀) fun _ => Ensures.pure_intro fun _ h => h)
    (fun s hs => hs.trans (hbody s).suffix) fun failure => ?_
  cases failure with
  | loopControl isBreak levels =>
      dsimp only
      split
      · exact Ensures.throw_intro
      · exact Ensures.pure_intro fun _ h => h
  | exit | functionReturn | shellError | stopped | outOfFuel => exact Ensures.throw_intro

theorem grows_executeRound (tested : Nat) (kind : LoopKind)
    (condition body : CommandList HereDocument τ) (status : Int) :
    Respects Grows (executeRound inner tested kind condition body status) := by
  have hcondition : Stands (.command (.compound (.loop kind condition body) [] 0)) .condition
      (.list condition) := .condition [] 0 List.mem_cons_self
  have hbody : Stands (.command (.compound (.loop kind condition body) [] 0)) .body (.list body) :=
    .body [] 0 List.mem_cons_self
  exact sound.parts.executeRound tested hcondition hbody kind status

theorem owns_executeRound (kind : LoopKind) (condition : CommandList HereDocument τ)
    {body : CommandList HereDocument τ} (hbody : itemsOwnStatus body = true) (status : Int)
    (s₀ : ExecState τ) :
    Ensures (OwnedAfter s₀ status) (executeRound inner 0 kind condition body status)
      (OwnedAfter s₀) := by
  refine Ensures.bind_intro (ownedAfter_of_grows
    (sound.parts.catchLoopControl
      (show GrowsIn none 1 _ from grows_list sound _ 1 condition)) s₀ status) fun ended => ?_
  rcases ended with tests | _ | _
  · dsimp only
    split
    · have hround := owns_catchLoopControl (grows_list sound .body 0 body) (owns_list sound _ hbody) s₀
      refine Ensures.bind_intro (hround.consequence (fun _ h => h.1) fun _ _ h => h) fun ended => ?_
      rcases ended with status | _ | _
      · exact sound.round_owns kind condition body status s₀ hbody
      · exact (sound.round_owns kind condition body 0 s₀ hbody).consequence
          (fun _ h => ownedAfter_zero h) fun _ _ h => h
      · exact Ensures.pure_intro fun _ h => ownedAfter_zero h
    · exact Ensures.pure_intro fun _ h => h
  · exact sound.round_owns kind condition body status s₀ hbody
  · exact Ensures.pure_intro fun _ h => h

theorem owns_executeFor (var : Text) {body : CommandList HereDocument τ}
    (hbody : itemsOwnStatus body = true) (s₀ : ExecState τ) :
    ∀ status values,
      Ensures (OwnedAfter s₀ status) (executeFor outcomes inner 0 var body status values)
        (OwnedAfter s₀)
  | _, [] => Ensures.pure_intro fun _ h => h
  | status, _ :: values => by
      rw [executeFor]
      refine Ensures.bind_intro (ownedAfter_of_grows (grows_consult _) s₀ status) fun error => ?_
      have hraise : GrowsIn none 0 (raiseError error) := sound.parts.raiseError error
      refine Ensures.bind_intro (ownedAfter_of_grows hraise s₀ status) fun _ => ?_
      have hround := owns_catchLoopControl (grows_list sound .body 0 body) (owns_list sound _ hbody) s₀
      refine Ensures.bind_intro (hround.consequence (fun _ h => h.1) fun _ _ h => h) fun ended => ?_
      rcases ended with status | _ | _
      · exact owns_executeFor var hbody s₀ status values
      · exact (owns_executeFor var hbody s₀ 0 values).consequence
          (fun _ h => ownedAfter_zero h) fun _ _ h => h
      · exact Ensures.pure_intro fun _ h => ownedAfter_zero h

theorem owns_executeCase (subject : Text) :
    ∀ items, casesOwnStatus items = true → OwnsStatus (executeCase outcomes inner 0 subject items)
  | [], _ => ownsStatus_zero
  | .mk patterns body :: rest, h => by
      rw [casesOwnStatus, Bool.and_eq_true] at h
      refine OwnsStatus.bind_intro (grows_matchesAny outcomes sound 0 subject patterns)
        fun accepts => ?_
      split
      · split
        · exact ownsStatus_zero
        · rename_i hempty
          refine owns_list sound _ ?_
          simpa [hempty] using h.1
      · exact owns_executeCase subject rest h.2

omit sound in
theorem ownsStatus_of_zero {m : Exec τ Int}
    (h : ∀ s₀, Ensures (OwnedAfter s₀ 0) m (OwnedAfter s₀)) : OwnsStatus m :=
  fun s₀ => (h s₀).consequence (fun _ hs => ownedAfter_zero hs) fun _ _ hs => hs

theorem owns_executeCompound {body : Compound HereDocument τ} (hsubshell : body.isSubshell = false)
    (h : compoundOwnsStatus body = true) : OwnsStatus (executeCompound outcomes inner 0 body) := by
  cases body with
  | subshell items => cases hsubshell
  | braceGroup items =>
      rw [compoundOwnsStatus] at h
      exact owns_list sound _ h
  | ifCommand branches elseBody =>
      rw [compoundOwnsStatus, Bool.and_eq_true] at h
      exact owns_executeIf sound h.2 branches h.1
  | loop kind condition items =>
      rw [compoundOwnsStatus] at h
      exact owns_inLoop (sound.round_grows _ _ _ _ _) (ownsStatus_of_zero fun s₀ =>
        sound.round_owns kind condition items 0 s₀ h)
  | forCommand var words items =>
      rw [compoundOwnsStatus] at h
      have hstands : Stands (.command (.compound (.forCommand var words items) [] 0)) .body
          (.list items) := .body [] 0 List.mem_cons_self
      have hfor (values : List Text) := owns_inLoop
        (sound.parts.executeFor outcomes 0 hstands var 0 values) (ownsStatus_of_zero fun s₀ =>
          owns_executeFor outcomes sound var h s₀ 0 values)
      cases words with
      | none => exact OwnsStatus.bind_intro (grows_consult _) hfor
      | some words => exact OwnsStatus.bind_intro (grows_expand sound 0 _) hfor
  | caseCommand subject items =>
      rw [compoundOwnsStatus] at h
      exact OwnsStatus.bind_intro (grows_expand sound 0 _) fun subject =>
        owns_executeCase outcomes sound subject items h

omit sound in
theorem owns_logged {m : Exec τ Int} (hm : Respects Grows m) (what : Ran) :
    OwnsStatus (logged what 0 m) := by
  refine OwnsStatus.bind_intro hm fun status s₀ => ?_
  have hlog : Ensures (After s₀) (log (.ran what status 0)) fun _ => OwnedAfter s₀ status := by
    refine Ensures.modify_intro fun s hs => ⟨hs.trans (List.suffix_cons _ _), fun hstatus _ => ?_⟩
    obtain ⟨first, hfirst⟩ := hs
    exact ⟨.ran what status 0 :: first, by simp [← hfirst], .ran what status 0,
      List.mem_cons_self, by simp [Event.failedByCount, hstatus]⟩
  exact Ensures.bind_intro hlog fun _ => Ensures.pure_intro fun _ h => h

theorem owns_executeCommand {command : Command HereDocument τ}
    (h : commandOwnsStatus command = true) :
    OwnsStatus (executeCommand outcomes inner 0 command) := by
  refine OwnsStatus.bind_intro (grows_consult _) fun stop => ?_
  split
  · exact ownsStatus_throw _
  cases command with
  | simple simple =>
      exact owns_logged (grows_executeSimpleCommand outcomes sound 0 simple) .simpleCommand
  | functionDefinition name body =>
      exact OwnsStatus.bind_intro (grows_modify fun _ => rfl) fun _ => ownsStatus_zero
  | compound body redirections line =>
      rw [commandOwnsStatus, Bool.or_eq_true, Bool.and_eq_true] at h
      rw [executeKind]
      split
      · exact owns_logged (sound.parts.executeRedirected outcomes 0 body redirections line) .subshell
      · rename_i hsubshell
        obtain ⟨hredirections, hbody⟩ := h.resolve_left hsubshell
        rw [List.isEmpty_iff.mp hredirections]
        -- Without redirections nothing stands before the compound command.
        change OwnsStatus (executeCompound outcomes inner 0 body)
        exact owns_executeCompound outcomes sound (Bool.eq_false_of_not_eq_true hsubshell) hbody

/-! ### Pipelines -/

theorem owns_executeJoined {first : Command HereDocument τ} {rest : List (Command HereDocument τ)}
    (h : (!rest.isEmpty || commandOwnsStatus first) = true) :
    OwnsStatus (executeJoined outcomes inner 0 first rest) := by
  cases rest with
  | nil => exact owns_inPart (sound.parts.command 0 first) (sound.command_owns first h) _ _
  | cons second rest =>
      have hstages : GrowsIn (some (.pipeline (.mk false first (second :: rest) 0))) 0
          (executeStages outcomes inner 0 (first :: second :: rest)) :=
        sound.parts.executeStages outcomes 0
      exact owns_logged hstages .stages

theorem owns_executePipeline {pipeline : Pipeline HereDocument τ}
    (h : pipelineOwnsStatus pipeline = true) :
    OwnsStatus (executePipeline outcomes inner 0 pipeline) := by
  rcases pipeline with ⟨negated, first, rest, line⟩
  rw [pipelineOwnsStatus, Bool.and_eq_true, Bool.not_eq_true'] at h
  obtain ⟨rfl, h⟩ := h
  intro s₀
  refine Ensures.bind_intro (owns_executeJoined outcomes sound h s₀) fun status => ?_
  have hset : Respects Grows (modify fun s : ExecState τ =>
      { s with lastExitStatus := negate false status }) := grows_modify fun _ => rfl
  exact Ensures.bind_intro (ownedAfter_of_grows hset s₀ status) fun _ =>
    Ensures.pure_intro fun _ hs => hs

/-! ### Lists -/

theorem grows_pipelineIf (tested : Nat) (place : Place) (pipeline : Pipeline HereDocument τ)
    (run : Bool) : Respects Grows (unlessSkipped run (inPart place (.pipeline pipeline)
      (executePipeline outcomes inner tested pipeline))) :=
  have hpipeline : GrowsIn none tested (inPart place (.pipeline pipeline)
      (executePipeline outcomes inner tested pipeline)) :=
    grows_inPart (sound.parts.executePipeline outcomes tested pipeline) _ _
  sound.parts.unlessSkipped tested hpipeline run

theorem owns_pipeline (place : Place) {pipeline : Pipeline HereDocument τ}
    (h : pipelineOwnsStatus pipeline = true) :
    OwnsStatus (inPart place (.pipeline pipeline) (executePipeline outcomes inner 0 pipeline)) :=
  owns_inPart (sound.parts.executePipeline outcomes 0 pipeline) (owns_executePipeline outcomes sound h)
    _ _

omit sound in
theorem ensures_checkNoExec (s₀ : ExecState τ) :
    Ensures (After s₀) checkNoExec fun skips s =>
      After s₀ s ∧ (skips = true → ¬∀ event ∈ s.trace, event.RegularByCount) := by
  refine Ensures.bind_intro Ensures.get_intro fun s => ?_
  split
  · have hlog : Ensures (fun t => After s₀ t ∧ s = t) (log Event.skipped) fun _ t =>
        After s₀ t ∧ ¬∀ event ∈ t.trace, event.RegularByCount :=
      Ensures.modify_intro fun t ht =>
        ⟨ht.1.trans (List.suffix_cons _ _), fun hregular => hregular .skipped List.mem_cons_self⟩
    exact Ensures.bind_intro hlog fun _ => Ensures.pure_intro fun t ht => ⟨ht.1, fun _ => ht.2⟩
  · exact Ensures.pure_intro fun t ht => ⟨ht.1, by simp⟩

omit sound in
theorem owns_unlessSkipped {body : Exec τ Int} (h : OwnsStatus body) (run : Bool)
    (s₀ : ExecState τ) :
    Ensures (After s₀) (unlessSkipped run body) fun ended s =>
      After s₀ s ∧ (∀ status, ended = some status → OwnedAfter s₀ status s) ∧
        (ended = none → run = true → ¬∀ event ∈ s.trace, event.RegularByCount) := by
  unfold unlessSkipped
  cases run with
  | false => exact Ensures.pure_intro fun s hs => ⟨hs, by simp, by simp⟩
  | true =>
      refine Ensures.bind_intro (ensures_checkNoExec s₀) fun skips => ?_
      split
      · rename_i hskips
        exact Ensures.pure_intro fun s hs => ⟨hs.1, by simp, fun _ _ => hs.2 hskips⟩
      · refine Ensures.bind_intro ((h s₀).consequence (fun _ hs => hs.1) fun _ _ hs => hs)
          fun status => ?_
        refine Ensures.pure_intro fun s hs => ⟨hs.1, fun status' heq => ?_, by simp⟩
        cases heq
        exact hs

theorem owns_lastRan (s₀ : ExecState τ) :
    ∀ run status andOr, Ensures (After s₀) (executeChain outcomes inner 0 run status andOr)
      fun ended s => After s₀ s ∧ (ended.2 = true → andOr.lastNegated = false →
        lastOwnsStatus andOr = true → OwnedAfter s₀ ended.1 s)
  | run, status, .last pipeline => by
      rw [executeChain, AndOrList.lastNegated, lastOwnsStatus]
      by_cases howns : pipeline.negated = false ∧ pipelineOwnsStatus pipeline = true
      · obtain ⟨hnegated, hpipeline⟩ := howns
        simp only [hnegated, Bool.false_eq_true, if_false]
        refine Ensures.bind_intro (owns_unlessSkipped (owns_pipeline outcomes sound _ hpipeline)
          run s₀) fun ended => ?_
        refine Ensures.pure_intro fun s hs => ⟨hs.1, fun hran _ _ => ?_⟩
        obtain ⟨last, rfl⟩ := Option.isSome_iff_exists.mp hran
        exact hs.2.1 last rfl
      · refine Ensures.bind_intro (after_of_grows (grows_pipelineIf outcomes sound _ _ pipeline run)
          s₀) fun ended => ?_
        refine Ensures.pure_intro fun s hs => ⟨hs, fun _ hnegated hlast => ?_⟩
        exact absurd ⟨hnegated, by simpa [hnegated] using hlast⟩ howns
  | run, status, .chain pipeline operator rest => by
      rw [executeChain, AndOrList.lastNegated, lastOwnsStatus]
      exact Ensures.bind_intro (after_of_grows (grows_pipelineIf outcomes sound _ _ pipeline run) s₀)
        fun _ => owns_lastRan s₀ _ _ rest

theorem owns_executeChain (s₀ : ExecState τ) :
    ∀ operator run status andOr, andOrOwnsStatus operator andOr = true →
      (operator ≠ some .and → run = false → status = 0) →
      Ensures (After s₀) (executeChain outcomes inner 0 run status andOr)
        fun ended => OwnedAfter s₀ ended.1
  | operator, run, status, .last pipeline, h, hskipped => by
      rw [andOrOwnsStatus, Bool.and_eq_true, bne_iff_ne] at h
      obtain ⟨hoperator, hpipeline⟩ := h
      have hnegated : pipeline.negated = false := by
        rcases pipeline with ⟨negated, first, rest, line⟩
        rw [pipelineOwnsStatus, Bool.and_eq_true, Bool.not_eq_true'] at hpipeline
        exact hpipeline.1
      rw [executeChain]
      simp only [hnegated, Bool.false_eq_true, if_false]
      refine Ensures.bind_intro (owns_unlessSkipped (owns_pipeline outcomes sound _ hpipeline)
        run s₀) fun ended => ?_
      refine Ensures.pure_intro fun s hs => ?_
      cases ended with
      | some last => exact hs.2.1 last rfl
      | none =>
          refine ⟨hs.1, fun hstatus hregular => ?_⟩
          cases run with
          | true => exact absurd hregular (hs.2.2 rfl rfl)
          | false => exact absurd (hskipped hoperator rfl) hstatus
  | _, run, status, .chain pipeline operator rest, h, _ => by
      rw [andOrOwnsStatus] at h
      rw [executeChain]
      refine Ensures.bind_intro (after_of_grows (grows_pipelineIf outcomes sound _ _ pipeline run)
        s₀) fun ended => ?_
      refine owns_executeChain s₀ (some operator) _ _ rest h fun hoperator hcontinues => ?_
      cases operator with
      | and => exact absurd rfl hoperator
      | or => simpa [continues] using hcontinues

omit sound in
theorem exec_executeAndOr (tested : Nat) (andOr : AndOrList HereDocument τ) (s : ExecState τ) :
    exec (executeAndOr outcomes inner tested andOr) s =
      match exec (executeChain outcomes inner tested true s.lastExitStatus andOr)
          { s with trace := .enters andOr tested :: s.trace } with
      | (.error failure, t) => (.error failure, t)
      | (.ok (status, lastRan), t) =>
          if endsShell tested andOr t.options status lastRan then
            (.error (.exit status), { t with trace := .errexit status s.trace.length :: t.trace })
          else (.ok status, t) := by
  unfold executeAndOr
  rw [exec_bind_ok (exec_get s)]
  have hlog : exec (log (.enters andOr tested)) s =
      (.ok ⟨⟩, { s with trace := .enters andOr tested :: s.trace }) := rfl
  rw [exec_bind_ok hlog, exec_bind]
  rcases exec (executeChain outcomes inner tested true s.lastExitStatus andOr)
    { s with trace := .enters andOr tested :: s.trace } with ⟨_ | ⟨status, lastRan⟩, t⟩
  · rfl
  · dsimp only
    rw [exec_bind_ok (exec_get t)]
    split <;> rfl

omit sound in
theorem eventsSince_length (new old : List (Event τ)) :
    eventsSince old.length (new ++ old) = new := by
  simp [eventsSince]

/-- The decision of `-e` is justified by what failed since its list was entered. -/
theorem grows_executeAndOr (tested : Nat) (andOr : AndOrList HereDocument τ) :
    Respects Grows (executeAndOr outcomes inner tested andOr) := by
  intro s
  rw [exec_executeAndOr]
  let entered : ExecState τ := { s with trace := .enters andOr tested :: s.trace }
  have henter : Grows s entered := ⟨List.suffix_cons _ _, fun _ hs => hs⟩
  have hchain : Grows entered
      (exec (executeChain outcomes inner tested true s.lastExitStatus andOr) entered).2 :=
    sound.parts.executeChain outcomes tested true s.lastExitStatus andOr (fun _ => id) rfl entered
  have hlast := owns_lastRan outcomes sound s true s.lastExitStatus andOr entered henter.suffix
  rcases hrun : exec (executeChain outcomes inner tested true s.lastExitStatus andOr) entered with
    ⟨failure | ⟨status, lastRan⟩, t⟩
  · rw [hrun] at hchain
    exact IsTrans.trans _ _ _ henter hchain
  · rw [hrun] at hchain
    have hgrows : Grows s t := IsTrans.trans _ _ _ henter hchain
    dsimp only
    split
    · rename_i hends
      simp only [endsShell, Bool.and_eq_true, bne_iff_ne, Bool.not_eq_true', beq_iff_eq] at hends
      obtain ⟨⟨⟨⟨⟨hran, hstatus⟩, -⟩, -⟩, hnegated⟩, rfl⟩ := hends
      refine ⟨hgrows.suffix.trans (List.suffix_cons _ _), fun hregular hs => ?_⟩
      have hregular' : ∀ event ∈ t.trace, event.RegularByCount := fun event hmem =>
        hregular event (List.mem_cons_of_mem _ hmem)
      have howns : lastOwnsStatus andOr = true :=
        hregular' _ (hchain.suffix.subset List.mem_cons_self) rfl
      obtain ⟨new, hnew, hfailure⟩ :=
        ((hlast _ t hrun).2 hran hnegated howns).2 hstatus hregular'
      refine ⟨?_, hgrows.justified hregular' hs⟩
      rw [hnew, eventsSince_length]
      exact hfailure
    · exact hgrows

theorem owns_executeAndOr {andOr : AndOrList HereDocument τ}
    (h : andOrOwnsStatus none andOr = true) :
    OwnsStatus (executeAndOr outcomes inner 0 andOr) := by
  intro s₀
  refine Ensures.bind_intro Ensures.get_intro fun before => ?_
  have henter : Ensures (fun s => After s₀ s ∧ before = s) (log (.enters andOr 0)) fun _ =>
      After s₀ :=
    (grows_log fun _ _ => by simp).ensures fun _ _ _ hs hgrows => hs.1.trans hgrows.suffix
  refine Ensures.bind_intro henter fun _ => ?_
  refine Ensures.bind_intro (owns_executeChain outcomes sound s₀ none true _ andOr h
    fun _ hrun => by cases hrun) fun ended => ?_
  refine Ensures.bind_intro (Ensures.get_intro.consequence (fun _ hs => hs) fun _ _ hs => hs.1)
    fun after => ?_
  split
  · exact Ensures.bind_intro Ensures.trivial fun _ => Ensures.throw_intro
  · exact Ensures.pure_intro fun _ hs => hs

omit sound in
theorem owns_startBackgroundShell : OwnsStatus (startBackgroundShell outcomes) := by
  refine OwnsStatus.bind_intro (grows_consult _) fun started s₀ => ?_
  have hlog : Ensures (After s₀) (log (.background started)) fun _ s =>
      After s₀ s ∧ .background started ∈ s.trace :=
    Ensures.modify_intro fun _ hs => ⟨hs.trans (List.suffix_cons _ _), List.mem_cons_self⟩
  refine Ensures.bind_intro hlog fun _ => Ensures.pure_intro fun s hs => ?_
  refine ⟨hs.1, fun hstatus hregular => ?_⟩
  have hstarted : started = true := hregular _ hs.2
  exact absurd (by rw [hstarted]; rfl) hstatus

theorem owns_startBackground (andOr : AndOrList HereDocument τ) :
    OwnsStatus (startBackground outcomes inner 0 andOr) := by
  refine OwnsStatus.bind_intro Respects.get_intro fun s => ?_
  cases andOr with
  | chain => exact owns_startBackgroundShell outcomes
  | last pipeline =>
      dsimp only
      split
      · have hstages := sound.parts.backgroundStages outcomes 0 pipeline
        exact OwnsStatus.bind_intro (grows_log fun _ _ => by simp) fun _ =>
          owns_inPart (sound.parts.logged hstages .stages) (owns_logged hstages .stages) _ _
      · exact owns_startBackgroundShell outcomes

theorem grows_executeItem (tested : Nat) (item : ListItem HereDocument τ) :
    Respects Grows (executeItem outcomes inner tested item) := by
  refine grows_inPart ?_ _ _
  split
  · exact sound.parts.startBackground outcomes tested _
  · exact grows_executeAndOr outcomes sound tested _

theorem owns_executeItem {item : ListItem HereDocument τ} (h : itemOwnsStatus item = true) :
    OwnsStatus (executeItem outcomes inner 0 item) := by
  rcases item with ⟨andOr, background, sourceText⟩
  rw [itemOwnsStatus, Bool.or_eq_true] at h
  refine owns_inPart ?_ ?_ _ _
  · split
    · exact sound.parts.startBackground outcomes 0 _
    · exact grows_executeAndOr outcomes sound 0 _
  · split
    · exact owns_startBackground outcomes sound _
    · rename_i hbackground
      exact owns_executeAndOr outcomes sound (h.resolve_left hbackground)

theorem owns_executeItems :
    ∀ items status, itemsOwnStatus items = true →
      OwnsStatus (executeItems outcomes inner 0 status items)
  | [], _, h => by
      rw [itemsOwnStatus] at h
      cases h
  | item :: rest, status, h => by
      intro s₀
      refine Ensures.bind_intro (ensures_checkNoExec s₀) fun skips => ?_
      split
      · rename_i hskips
        have hrest : Respects Grows (executeItems outcomes inner 0 status rest) :=
          sound.parts.executeItems outcomes 0 (grows_executeAndOr outcomes sound 0) status rest
            fun _ => id
        refine hrest.ensures fun ended s s' hs hgrows => ?_
        refine ⟨hs.1.trans hgrows.suffix, fun _ hregular => ?_⟩
        exact absurd (fun event hmem => hregular event (hgrows.suffix.subset hmem)) (hs.2 hskips)
      · cases rest with
        | nil =>
            rw [itemsOwnStatus] at h
            refine Ensures.bind_intro (((owns_executeItem outcomes sound h) s₀).consequence
              (fun _ hs => hs.1) fun _ _ hs => hs) fun status => ?_
            exact Ensures.pure_intro fun _ hs => hs
        | cons next rest =>
            rw [itemsOwnStatus] at h
            refine Ensures.bind_intro ((after_of_grows (grows_executeItem outcomes sound 0 item)
              s₀).consequence (fun _ hs => hs.1) fun _ _ hs => hs) fun status => ?_
            exact owns_executeItems (next :: rest) status h s₀

theorem Executor.Sound.step :
    Executor.Sound
      { list := executeList outcomes inner
        command := executeCommand outcomes inner
        round := executeRound inner } where
  parts := growsDiscipline
    (fun tested items => sound.parts.executeList outcomes tested
      (grows_executeAndOr outcomes sound tested) items)
    (sound.parts.executeCommand outcomes) (grows_executeRound sound)
  round_grows := grows_executeRound sound
  list_owns items h :=
    OwnsStatus.bind_intro Respects.get_intro fun _ => owns_executeItems outcomes sound items _ h
  command_owns _ h := owns_executeCommand outcomes sound h
  round_owns kind condition _ status s₀ h := owns_executeRound sound kind condition h status s₀

end

/-! ## Whole runs -/

theorem executor_sound (outcomes : Outcomes τ) : ∀ fuel, (executor outcomes fuel).Sound
  | 0 =>
      { parts := growsDiscipline (fun _ _ => Respects.throw_intro _)
          (fun _ _ => Respects.throw_intro _) fun _ _ _ _ _ => Respects.throw_intro _
        round_grows := fun _ _ _ _ _ => Respects.throw_intro _
        list_owns := fun _ _ => ownsStatus_throw _
        command_owns := fun _ _ => ownsStatus_throw _
        round_owns := fun _ _ _ _ _ _ => Ensures.throw_intro }
  | fuel + 1 => (executor_sound outcomes fuel).step outcomes

/-- By the counter, `-e` ends the shell only for what failed outside every tested context. -/
theorem runScript_justifiedByCount (outcomes : Outcomes τ) (fuel : Nat)
    (script : List (CommandList HereDocument τ)) (s : ExecState τ) (hs : s.trace = [])
    (hregular : ∀ event ∈ (exec (runScript outcomes fuel script) s).2.trace,
      event.RegularByCount) :
    JustifiedByCount (exec (runScript outcomes fuel script) s).2.trace := by
  have hparts := (executor_sound outcomes fuel).parts
  have hstands (items : CommandList HereDocument τ) : StandsIn none .evaluated (.list items) := rfl
  have hgrows : GrowsIn none 0 (runScript outcomes fuel script) :=
    hparts.bind hparts.get fun _ => hparts.executeCommands 0 hstands rfl none _ script
  refine (hgrows s).justified hregular ?_
  rw [hs]
  exact True.intro

end Haisos.Hsh
