import Haisos.Hsh.Executor

/-!
# Parts of a program

Where each part of a program stands, as the program is written, and what holds of
every execution when it holds of the parts that execution is put together of.
-/

namespace Haisos.Hsh

open StateExcept

variable {τ : Type}

/-! ## Places -/

namespace AndOrList

def operands : AndOrList HereDocument τ → List (Pipeline HereDocument τ)
  | .last _ => []
  | .chain pipeline _ rest => pipeline :: rest.operands

def lastPipeline : AndOrList HereDocument τ → Pipeline HereDocument τ
  | .last pipeline => pipeline
  | .chain _ _ rest => rest.lastPipeline

end AndOrList

def IfBranch.condition : IfBranch HereDocument τ → CommandList HereDocument τ
  | .mk condition _ => condition

def IfBranch.body : IfBranch HereDocument τ → CommandList HereDocument τ
  | .mk _ body => body

namespace Compound

def conditions : Compound HereDocument τ → List (CommandList HereDocument τ)
  | .ifCommand branches _ => branches.map IfBranch.condition
  | .loop _ condition _ => [condition]
  | _ => []

def bodies : Compound HereDocument τ → List (CommandList HereDocument τ)
  | .braceGroup body | .subshell body | .loop _ _ body | .forCommand _ _ body => [body]
  | .ifCommand branches elseBody => branches.map IfBranch.body ++ elseBody.toList
  | .caseCommand _ items => items.map CaseItem.body

end Compound

inductive Stands : Node τ → Place → Node τ → Prop
  | item {items : CommandList HereDocument τ} {item : ListItem HereDocument τ} (h : item ∈ items)
      (hbackground : item.background = false) : Stands (.list items) .item (.andOr item.andOr)
  | background {items : CommandList HereDocument τ} {item : ListItem HereDocument τ}
      (h : item ∈ items) (hbackground : item.background = true) :
      Stands (.list items) .background (.andOr item.andOr)
  | operand {andOr : AndOrList HereDocument τ} {pipeline : Pipeline HereDocument τ}
      (h : pipeline ∈ andOr.operands) : Stands (.andOr andOr) .operand (.pipeline pipeline)
  | last {andOr : AndOrList HereDocument τ} (h : andOr.lastPipeline.negated = false) :
      Stands (.andOr andOr) .last (.pipeline andOr.lastPipeline)
  | negated {andOr : AndOrList HereDocument τ} (h : andOr.lastPipeline.negated = true) :
      Stands (.andOr andOr) .negated (.pipeline andOr.lastPipeline)
  | sole {pipeline : Pipeline HereDocument τ} {command : Command HereDocument τ}
      (h : pipeline.commands = [command]) : Stands (.pipeline pipeline) .sole (.command command)
  | stage {pipeline : Pipeline HereDocument τ} {position : Nat} {command : Command HereDocument τ}
      (h : pipeline.commands[position]? = some command) :
      Stands (.pipeline pipeline) (.stage position) (.command command)
  | condition {compound : Compound HereDocument τ} {items : CommandList HereDocument τ}
      (redirections : List (Redirection HereDocument)) (line : Nat) (h : items ∈ compound.conditions) :
      Stands (.command (.compound compound redirections line)) .condition (.list items)
  | body {compound : Compound HereDocument τ} {items : CommandList HereDocument τ}
      (redirections : List (Redirection HereDocument)) (line : Nat) (h : items ∈ compound.bodies) :
      Stands (.command (.compound compound redirections line)) .body (.list items)
  | substitution (command : Command HereDocument τ) (items : CommandList HereDocument τ) :
      Stands (.command command) .substitution (.list items)
  | evaluated (command : Command HereDocument τ) (items : CommandList HereDocument τ) :
      Stands (.command command) .evaluated (.list items)
  | called (command : Command HereDocument τ) (node : Node τ) :
      Stands (.command command) .called node

def StandsIn : Option (Node τ) → Place → Node τ → Prop
  | none, place, _ => place = .evaluated
  | some around, place, node => Stands around place node

theorem stands_lastPlace (andOr : AndOrList HereDocument τ) :
    Stands (.andOr andOr) (lastPlace andOr.lastPipeline) (.pipeline andOr.lastPipeline) := by
  rw [lastPlace]
  split
  · rename_i h
    exact .negated h
  · rename_i h
    exact .last (Bool.eq_false_of_not_eq_true h)

theorem stands_itemPlace {items : CommandList HereDocument τ} {item : ListItem HereDocument τ}
    (h : item ∈ items) : Stands (.list items) (itemPlace item) (.andOr item.andOr) := by
  rw [itemPlace]
  split
  · rename_i hbackground
    exact .background h hbackground
  · rename_i hbackground
    exact .item h (Bool.eq_false_of_not_eq_true hbackground)

def Place.isTested : Place → Bool
  | .operand | .negated | .condition => true
  | _ => false

theorem isTested_itemPlace (item : ListItem HereDocument τ) :
    (itemPlace item).isTested = false := by
  rw [itemPlace]
  split <;> rfl

def Event.isNote : Event τ → Bool
  | .skipped | .background _ | .expands _ | .told _ | .waited _ _ | .job _ | .rejected | .jumps _ =>
      true
  | _ => false

/-! ## What holds of every execution -/

/--
`H` holds of computations in a part of the program, so many tested contexts deep: of those
that execution is put together of, and of those it comes back to.
-/
structure PartDiscipline (H : {α : Type} → Option (Node τ) → Nat → Exec τ α → Prop)
    (inner : Executor τ) : Prop where
  pure : ∀ {α : Type} {node tested} (a : α), H node tested (Pure.pure a)
  throw : ∀ {α : Type} {node tested} failure, H node tested (MonadExcept.throw failure : Exec τ α)
  bind : ∀ {α β : Type} {node tested} {m : Exec τ α} {f : α → Exec τ β}, H node tested m →
    (∀ a, H node tested (f a)) → H node tested (m >>= f)
  tryCatch : ∀ {α : Type} {node tested} {m : Exec τ α} {handler : Failure → Exec τ α},
    H node tested m → (∀ failure, H node tested (handler failure)) →
    H node tested (tryCatchThe Failure m handler)
  get : ∀ {node tested}, H node tested (MonadState.get : Exec τ (ExecState τ))
  consult : ∀ {α : Type} {node tested} (outcome : Nat → α), H node tested (Hsh.consult outcome)
  modifies : ∀ {node tested} {f : ExecState τ → ExecState τ}, (∀ s, (f s).trace = s.trace) →
    H node tested (modify f)
  notes : ∀ {node tested} {event : Event τ}, event.isNote = true → H node tested (log event)
  ran : ∀ {node tested} what status, H node tested (log (.ran what status tested))
  inPart : ∀ {α : Type} {node place part tested inside} {m : Exec τ α}, StandsIn node place part →
    (inside = 0 → tested = 0 ∧ place.isTested = false) → H (some part) inside m →
    H node tested (inPart place part m)
  starts : ∀ {pipeline tested} {m : Exec τ Int}, H (some (.pipeline pipeline)) tested m →
    H (some (.andOr (.last pipeline))) tested (do
      log (.starts pipeline tested)
      Hsh.inPart (lastPlace pipeline) (.pipeline pipeline) m)
  list : ∀ tested items, H (some (.list items)) tested (inner.list tested items)
  command : ∀ tested command, H (some (.command command)) tested (inner.command tested command)
  round : ∀ {node} tested kind condition body status, Stands node .condition (.list condition) →
    Stands node .body (.list body) →
    H (some node) tested (inner.round tested kind condition body status)

namespace PartDiscipline

variable {H : {α : Type} → Option (Node τ) → Nat → Exec τ α → Prop} {inner : Executor τ}
  (discipline : PartDiscipline H inner) (outcomes : Outcomes τ)

include discipline

/-! ### Scopes -/

section

variable {node : Option (Node τ)} {tested : Nat}

theorem raiseError (error : Option ShellError) : H node tested (Hsh.raiseError error) := by
  cases error with
  | none => exact discipline.pure ()
  | some error => exact discipline.throw _

theorem checkNoExec : H node tested (Hsh.checkNoExec : Exec τ Bool) := by
  refine discipline.bind discipline.get fun s => ?_
  split
  · exact discipline.bind (discipline.notes rfl) fun _ => discipline.pure _
  · exact discipline.pure _

theorem tell (status : Int) : H node tested (Hsh.tell status) :=
  discipline.bind (discipline.notes rfl) fun _ => discipline.pure _

theorem jump (failure : Failure) : H node tested (Hsh.jump failure) :=
  discipline.bind (discipline.notes rfl) fun _ => discipline.throw _

theorem logged {m : Exec τ Int} (hm : H node tested m) (what : Ran) :
    H node tested (Hsh.logged what tested m) :=
  discipline.bind hm fun status => discipline.bind (discipline.ran what status) fun _ =>
    discipline.pure _

theorem runSubshell {body : Exec τ Int} (h : H node tested body) :
    H node tested (Hsh.runSubshell body) := by
  refine discipline.bind discipline.get fun saved => ?_
  have hrestore : H node tested (modify saved.restoreSubshell : Exec τ Unit) :=
    discipline.modifies fun s => rfl
  refine discipline.tryCatch ?_ fun failure => ?_
  · exact discipline.bind h fun _ => discipline.bind hrestore fun _ => discipline.pure _
  · refine discipline.bind hrestore fun _ => ?_
    cases failure with
    | exit | functionReturn | loopControl | shellError => exact discipline.pure _
    | stopped | outOfFuel => exact discipline.throw _

theorem withStartInsteadOfWait {α : Type} (flag : Bool) {body : Exec τ α}
    (h : H node tested body) : H node tested (Hsh.withStartInsteadOfWait flag body) := by
  refine discipline.bind discipline.get fun saved => ?_
  refine discipline.bind (discipline.modifies fun _ => rfl) fun _ => ?_
  refine discipline.tryCatch ?_ fun failure => ?_
  · exact discipline.bind h fun _ => discipline.bind (discipline.modifies fun _ => rfl) fun _ =>
      discipline.pure _
  · exact discipline.bind (discipline.modifies fun _ => rfl) fun _ => discipline.throw _

theorem inLoop {body : Exec τ Int} (h : H node tested body) : H node tested (Hsh.inLoop body) := by
  refine discipline.bind (discipline.modifies fun _ => rfl) fun _ => ?_
  refine discipline.tryCatch ?_ fun failure => ?_
  · exact discipline.bind h fun _ => discipline.bind (discipline.modifies fun _ => rfl) fun _ =>
      discipline.pure _
  · exact discipline.bind (discipline.modifies fun _ => rfl) fun _ => discipline.throw _

theorem catchLoopControl {body : Exec τ Int} (h : H node tested body) :
    H node tested (Hsh.catchLoopControl body) := by
  refine discipline.tryCatch (discipline.bind h fun _ => discipline.pure _) fun failure => ?_
  cases failure with
  | loopControl isBreak levels =>
      dsimp only
      split
      · exact discipline.throw _
      · exact discipline.pure _
  | exit | functionReturn | shellError | stopped | outOfFuel => exact discipline.throw _

theorem inFunction {body : Exec τ Int} (h : H node tested body) :
    H node tested (Hsh.inFunction body) := by
  refine discipline.bind discipline.get fun saved => ?_
  refine discipline.bind (discipline.modifies fun _ => rfl) fun _ => ?_
  refine discipline.tryCatch ?_ fun failure => ?_
  · exact discipline.bind h fun _ => discipline.bind (discipline.modifies fun _ => rfl) fun _ =>
      discipline.pure _
  · refine discipline.bind (discipline.modifies fun _ => rfl) fun _ => ?_
    cases failure with
    | functionReturn => exact discipline.pure _
    | exit | loopControl | shellError | stopped | outOfFuel => exact discipline.throw _

theorem inDotScript {body : Exec τ Int} (h : H node tested body) :
    H node tested (Hsh.inDotScript body) := by
  refine discipline.bind (discipline.modifies fun _ => rfl) fun _ => ?_
  refine discipline.tryCatch ?_ fun failure => ?_
  · exact discipline.bind h fun _ => discipline.bind (discipline.modifies fun _ => rfl) fun _ =>
      discipline.pure _
  · refine discipline.bind (discipline.modifies fun _ => rfl) fun _ => ?_
    cases failure with
    | functionReturn => exact discipline.pure _
    | exit | loopControl | shellError | stopped | outOfFuel => exact discipline.throw _

theorem mapM {α β : Type} {f : α → Exec τ β} {as : List α} (h : ∀ a ∈ as, H node tested (f a)) :
    H node tested (as.mapM f) := by
  induction as with
  | nil =>
      rw [List.mapM_nil]
      exact discipline.pure _
  | cons a as ih =>
      rw [List.mapM_cons]
      refine discipline.bind (h a List.mem_cons_self) fun b => ?_
      exact discipline.bind (ih fun a hmem => h a (List.mem_cons_of_mem _ hmem)) fun _ =>
        discipline.pure _

/-! ### Programs -/

theorem waitForChild {f : Int → Exec τ Int} (hf : ∀ status, H node tested (f status)) :
    H node tested (do
      match ← Hsh.consult outcomes.waitForChild with
      | none => MonadExcept.throw .stopped
      | some status => f status : Exec τ Int) := by
  refine discipline.bind (discipline.consult _) fun status => ?_
  cases status
  · exact discipline.throw _
  · exact hf _

theorem runProgram (fields : List Text) : H node tested (Hsh.runProgram outcomes fields) := by
  refine discipline.bind (discipline.consult _) fun start => ?_
  cases start with
  | readOnlyAssignment error => exact discipline.throw _
  | notStarted status => exact discipline.tell _
  | started =>
      refine discipline.bind discipline.get fun s => ?_
      split
      · exact discipline.bind (discipline.modifies fun _ => rfl) fun _ => discipline.tell _
      · exact discipline.waitForChild outcomes discipline.tell

theorem waitForStages (stages : List StageEnd) :
    H node tested (Hsh.waitForStages outcomes stages) := by
  refine discipline.mapM fun stage _ => ?_
  rcases stage with ⟨⟨status, _ | _⟩, position⟩
  · exact discipline.pure _
  · exact discipline.waitForChild outcomes fun status =>
      discipline.bind (discipline.notes rfl) fun _ => discipline.pure _

theorem startBackgroundShell : H node tested (Hsh.startBackgroundShell outcomes) :=
  discipline.bind (discipline.consult _) fun _ =>
    discipline.bind (discipline.notes rfl) fun _ => discipline.pure _

end

/-! ### Commands -/

section

variable {command : Command HereDocument τ}

theorem commandPart {α : Type} {place : Place} {part : Node τ} {tested : Nat} {m : Exec τ α}
    (hstands : Stands (.command command) place part) (hplace : place.isTested = false)
    (hm : H (some part) tested m) : H (some (.command command)) tested (Hsh.inPart place part m) :=
  discipline.inPart hstands (fun h => ⟨h, hplace⟩) hm

variable (tested : Nat)

theorem noteStatus : H (some (.command command)) tested (Hsh.noteStatus : Exec τ Unit) :=
  discipline.bind discipline.get fun _ => discipline.notes rfl

theorem runSubstitutions : ∀ programs,
    H (some (.command command)) tested (Hsh.runSubstitutions inner tested programs)
  | [] => discipline.pure _
  | program :: rest => by
      rw [Hsh.runSubstitutions]
      refine discipline.bind (discipline.modifies fun _ => rfl) fun _ => ?_
      have hrest (status : Int) : H (some (.command command)) tested (do
          modify fun s => { s with lastExitStatus := status }
          Hsh.noteStatus
          Hsh.runSubstitutions inner tested rest) :=
        discipline.bind (discipline.modifies fun _ => rfl) fun _ =>
          discipline.bind (discipline.noteStatus tested) fun _ => runSubstitutions rest
      cases program with
      | none =>
          exact discipline.bind (discipline.notes rfl) fun _ =>
            discipline.bind (discipline.pure _) hrest
      | some items =>
          have hpart := discipline.commandPart (.substitution command items) rfl
            (discipline.list tested items)
          exact discipline.bind (discipline.withStartInsteadOfWait false
            (discipline.runSubshell hpart)) hrest

theorem expand {α : Type} (expanded : Nat → Expanded τ α) :
    H (some (.command command)) tested (Hsh.expand inner tested expanded) := by
  refine discipline.bind (discipline.consult _) fun expanded => ?_
  refine discipline.bind (discipline.noteStatus tested) fun _ => ?_
  refine discipline.bind (discipline.runSubstitutions tested _) fun _ => ?_
  cases expanded.value
  · exact discipline.throw _
  · exact discipline.pure _

theorem redirect (redirections : List (Redirection HereDocument)) :
    H (some (.command command)) tested (Hsh.redirect outcomes inner tested redirections) := by
  cases redirections with
  | nil => exact discipline.pure _
  | cons redirection rest => exact discipline.expand tested _

theorem executeCommands {node : Option (Node τ)} {place : Place}
    (hstands : ∀ items, StandsIn node place (.list items)) (hplace : place.isTested = false)
    (error : Option ShellError) :
    ∀ status commands, H node tested (Hsh.executeCommands inner tested place error status commands)
  | _, [] => discipline.bind (discipline.raiseError error) fun _ => discipline.pure _
  | _, items :: rest => discipline.bind
      (discipline.inPart (hstands _) (fun h => ⟨h, hplace⟩) (discipline.list tested items))
      fun status => executeCommands hstands hplace error status rest

theorem runBuiltin (fields : List Text) :
    H (some (.command command)) tested (Hsh.runBuiltin outcomes inner tested fields) := by
  refine discipline.bind (discipline.consult _) fun outcome => ?_
  cases outcome with
  | status => exact discipline.tell _
  | setOptions =>
      exact discipline.bind (discipline.modifies fun _ => rfl) fun _ => discipline.tell _
  | breakContinue =>
      refine discipline.bind discipline.get fun s => ?_
      split
      · exact discipline.tell _
      · exact discipline.jump _
  | returnWith =>
      refine discipline.bind discipline.get fun s => ?_
      split <;> exact discipline.jump _
  | exitWith => exact discipline.jump _
  | fails | stops => exact discipline.throw _
  | evaluates commands error =>
      have hstands (items : CommandList HereDocument τ) :
          StandsIn (some (.command command)) .evaluated (.list items) := .evaluated command items
      exact discipline.bind (discipline.notes rfl) fun _ =>
        discipline.executeCommands tested hstands rfl error 0 commands
  | sources commands error =>
      have hstands (items : CommandList HereDocument τ) :
          StandsIn (some (.command command)) .called (.list items) := .called command _
      exact discipline.bind (discipline.notes rfl) fun _ =>
        discipline.inDotScript (discipline.executeCommands tested hstands rfl error 0 commands)

theorem assignThen {m : Exec τ Int} (hm : H (some (.command command)) tested m)
    (names : List Text) : H (some (.command command)) tested (do
      Hsh.raiseError (← Hsh.consult (outcomes.assign · names))
      m) :=
  discipline.bind (discipline.consult _) fun error =>
    discipline.bind (discipline.raiseError error) fun _ => hm

theorem runFields (names : List Text) (name : Text) (arguments : List Text) :
    H (some (.command command)) tested
      (Hsh.runFields outcomes inner tested names name arguments) := by
  have hbuiltin := discipline.assignThen outcomes tested
    (show H (some (.command command)) tested _ from
      discipline.runBuiltin outcomes tested (name :: arguments)) names
  unfold Hsh.runFields
  split
  · exact hbuiltin
  · refine discipline.bind discipline.get fun s => ?_
    cases s.functions name with
    | some body =>
        have hpart := discipline.commandPart (.called command (.command body)) rfl
          (discipline.command tested body)
        exact discipline.assignThen outcomes tested (discipline.inFunction hpart) names
    | none =>
        dsimp only
        split
        · exact hbuiltin
        · exact discipline.runProgram outcomes _

theorem executeSimpleCommand (simple : SimpleCommand HereDocument) :
    H (some (.command command)) tested
      (Hsh.executeSimpleCommand outcomes inner tested simple) := by
  refine discipline.bind discipline.get fun s => ?_
  refine discipline.bind (discipline.expand tested _) fun fields => ?_
  refine discipline.bind discipline.checkNoExec fun skips => ?_
  split
  · exact discipline.bind discipline.get fun _ => discipline.pure _
  · refine discipline.bind (discipline.redirect outcomes tested _) fun error => ?_
    cases error with
    | some message =>
        dsimp only
        split
        · exact discipline.throw _
        · exact discipline.tell _
    | none =>
        refine discipline.bind (discipline.expand tested _) fun _ => ?_
        cases fields with
        | nil =>
            refine discipline.bind (discipline.consult _) fun error => ?_
            refine discipline.bind (discipline.raiseError error) fun _ => ?_
            exact discipline.bind discipline.get fun _ => discipline.pure _
        | cons name arguments => exact discipline.runFields outcomes tested _ name arguments

end

/-! ### Compound commands -/

section

variable {node : Node τ} (tested : Nat)

theorem conditionPart {condition : CommandList HereDocument τ}
    (h : Stands node .condition (.list condition)) :
    H (some node) tested
      (Hsh.inPart .condition (.list condition) (inner.list (tested + 1) condition)) :=
  discipline.inPart h (fun hzero => absurd hzero (Nat.succ_ne_zero _)) (discipline.list _ condition)

theorem bodyPart {body : CommandList HereDocument τ} (h : Stands node .body (.list body)) :
    H (some node) tested (Hsh.inPart .body (.list body) (inner.list tested body)) :=
  discipline.inPart h (fun hzero => ⟨hzero, rfl⟩) (discipline.list _ body)

theorem executeIf {elseBody : Option (CommandList HereDocument τ)}
    (helse : ∀ items ∈ elseBody, Stands node .body (.list items)) :
    ∀ branches : List (IfBranch HereDocument τ),
      (∀ branch ∈ branches, Stands node .condition (.list branch.condition)) →
      (∀ branch ∈ branches, Stands node .body (.list branch.body)) →
      H (some node) tested (Hsh.executeIf inner tested elseBody branches)
  | [], _, _ => by
      cases elseBody with
      | none => exact discipline.pure _
      | some items => exact discipline.bodyPart tested (helse items rfl)
  | .mk condition body :: rest, hconditions, hbodies => by
      refine discipline.bind (discipline.conditionPart tested
        (hconditions _ List.mem_cons_self)) fun status => ?_
      split
      · exact discipline.bodyPart tested (hbodies _ List.mem_cons_self)
      · exact executeIf helse rest (fun branch hmem => hconditions branch (List.mem_cons_of_mem _ hmem))
          fun branch hmem => hbodies branch (List.mem_cons_of_mem _ hmem)

theorem executeRound {condition body : CommandList HereDocument τ}
    (hcondition : Stands node .condition (.list condition))
    (hbody : Stands node .body (.list body)) (kind : LoopKind) (status : Int) :
    H (some node) tested (Hsh.executeRound inner tested kind condition body status) := by
  have hround (status : Int) := discipline.round tested kind condition body status hcondition hbody
  refine discipline.bind (discipline.catchLoopControl
    (discipline.conditionPart tested hcondition)) fun ended => ?_
  rcases ended with tests | _ | _
  · dsimp only
    split
    · refine discipline.bind (discipline.catchLoopControl (discipline.bodyPart tested hbody))
        fun ended => ?_
      rcases ended with status | _ | _
      · exact hround _
      · exact hround _
      · exact discipline.pure _
    · exact discipline.pure _
  · exact hround _
  · exact discipline.pure _

theorem executeFor {body : CommandList HereDocument τ} (hbody : Stands node .body (.list body))
    (var : Text) : ∀ status values,
      H (some node) tested (Hsh.executeFor outcomes inner tested var body status values)
  | _, [] => discipline.pure _
  | _, _ :: values => by
      rw [Hsh.executeFor]
      refine discipline.bind (discipline.consult _) fun error => ?_
      refine discipline.bind (discipline.raiseError error) fun _ => ?_
      refine discipline.bind (discipline.catchLoopControl (discipline.bodyPart tested hbody))
        fun ended => ?_
      rcases ended with status | _ | _
      · exact executeFor hbody var status values
      · exact executeFor hbody var 0 values
      · exact discipline.pure _

end

section

variable {command : Command HereDocument τ} (tested : Nat)

theorem matchesAny (subject : Text) :
    ∀ patterns, H (some (.command command)) tested
      (Hsh.matchesAny outcomes inner tested subject patterns)
  | [] => discipline.pure _
  | pattern :: rest => by
      refine discipline.bind (discipline.expand tested _) fun accepts => ?_
      split
      · exact discipline.pure _
      · exact matchesAny subject rest

theorem executeCase (subject : Text) :
    ∀ items : List (CaseItem HereDocument τ),
      (∀ item ∈ items, Stands (.command command) .body (.list item.body)) →
      H (some (.command command)) tested (Hsh.executeCase outcomes inner tested subject items)
  | [], _ => discipline.pure _
  | .mk patterns body :: rest, hbodies => by
      refine discipline.bind (discipline.matchesAny outcomes tested subject patterns)
        fun accepts => ?_
      split
      · split
        · exact discipline.pure _
        · exact discipline.bodyPart tested (hbodies _ List.mem_cons_self)
      · exact executeCase subject rest fun item hmem => hbodies item (List.mem_cons_of_mem _ hmem)

theorem executeCompound (body : Compound HereDocument τ)
    (redirections : List (Redirection HereDocument)) (line : Nat) :
    H (some (.command (.compound body redirections line))) tested
      (Hsh.executeCompound outcomes inner tested body) := by
  have hbody {items : CommandList HereDocument τ} (h : items ∈ body.bodies) :
      Stands (.command (.compound body redirections line)) .body (.list items) :=
    .body redirections line h
  have hcondition {items : CommandList HereDocument τ} (h : items ∈ body.conditions) :
      Stands (.command (.compound body redirections line)) .condition (.list items) :=
    .condition redirections line h
  cases body with
  | braceGroup items => exact discipline.bodyPart tested (hbody List.mem_cons_self)
  | subshell items =>
      exact discipline.runSubshell (discipline.bodyPart tested (hbody List.mem_cons_self))
  | ifCommand branches elseBody =>
      refine discipline.executeIf tested (fun items hmem => hbody ?_) branches
        (fun branch hmem => hcondition (List.mem_map_of_mem hmem)) fun branch hmem => hbody ?_
      · exact List.mem_append_right _ (Option.mem_toList.mpr hmem)
      · exact List.mem_append_left _ (List.mem_map_of_mem hmem)
  | loop kind condition items =>
      exact discipline.inLoop (discipline.round tested kind condition items 0
        (hcondition List.mem_cons_self) (hbody List.mem_cons_self))
  | forCommand var words items =>
      have hfor (values : List Text) := discipline.inLoop
        (discipline.executeFor outcomes tested (hbody List.mem_cons_self) var 0 values)
      cases words with
      | none => exact discipline.bind (discipline.consult _) hfor
      | some words => exact discipline.bind (discipline.expand tested _) hfor
  | caseCommand subject items =>
      exact discipline.bind (discipline.expand tested _) fun subject =>
        discipline.executeCase outcomes tested subject items fun item hmem =>
          hbody (List.mem_map_of_mem hmem)

theorem executeRedirected (body : Compound HereDocument τ)
    (redirections : List (Redirection HereDocument)) (line : Nat) :
    H (some (.command (.compound body redirections line))) tested
      (Hsh.executeRedirected outcomes inner tested body redirections) := by
  refine discipline.bind (discipline.redirect outcomes tested _) fun error => ?_
  split
  · exact discipline.tell _
  · exact discipline.executeCompound outcomes tested body redirections line

theorem executeKind : ∀ command,
    H (some (.command command)) tested (Hsh.executeKind outcomes inner tested command)
  | .simple simple =>
      discipline.logged (discipline.executeSimpleCommand outcomes tested simple) .simpleCommand
  | .functionDefinition _ _ _ _ =>
      discipline.bind (discipline.modifies fun _ => rfl) fun _ => discipline.pure _
  | .compound body redirections line => by
      have hbody := discipline.executeRedirected outcomes tested body redirections line
      rw [Hsh.executeKind]
      split
      · exact discipline.logged hbody .subshell
      · exact hbody

theorem executeCommand (command : Command HereDocument τ) :
    H (some (.command command)) tested (Hsh.executeCommand outcomes inner tested command) := by
  refine discipline.bind (discipline.consult _) fun stop => ?_
  split
  · exact discipline.throw _
  · exact discipline.executeKind outcomes tested command

/-! ### Pipelines -/

variable {pipeline : Pipeline HereDocument τ}

theorem executePass (child : Bool) (isChild : Command HereDocument τ → Bool) :
    H (some (.pipeline pipeline)) tested (Hsh.executePass inner tested child
      (pipeline.commands.map fun command => (command, isChild command))) := by
  refine discipline.mapM fun stage hmem => ?_
  rcases stage with ⟨⟨command, childStage⟩, position⟩
  have hstage : pipeline.commands[position]? = some command := by
    have hget := List.mem_zipIdx_iff_getElem?.mp hmem
    rw [List.getElem?_map, Option.map_eq_some_iff] at hget
    obtain ⟨_, hget, heq⟩ := hget
    cases heq
    exact hget
  dsimp only
  split
  · refine discipline.bind (discipline.modifies fun _ => rfl) fun _ => ?_
    have hpart : H (some (.pipeline pipeline)) tested
        (Hsh.inPart (.stage position) (.command command) (inner.command tested command)) :=
      discipline.inPart (.stage hstage) (fun hzero => ⟨hzero, rfl⟩)
        (discipline.command tested command)
    refine discipline.bind (discipline.runSubshell
      (discipline.withStartInsteadOfWait child hpart)) fun _ => ?_
    exact discipline.bind discipline.get fun _ => discipline.pure _
  · exact discipline.pure _

theorem executeStages :
    H (some (.pipeline pipeline)) tested
      (Hsh.executeStages outcomes inner tested pipeline.commands) := by
  refine discipline.bind discipline.get fun s => ?_
  refine discipline.bind (discipline.consult _) fun made => ?_
  split
  · refine discipline.bind (discipline.executePass tested true _) fun children => ?_
    refine discipline.bind (discipline.executePass tested false _) fun inShell => ?_
    exact discipline.bind (discipline.waitForStages outcomes children) fun _ => discipline.pure _
  · exact discipline.tell _

theorem executePipeline : ∀ pipeline : Pipeline HereDocument τ,
    H (some (.pipeline pipeline)) tested (Hsh.executePipeline outcomes inner tested pipeline)
  | .mk negated first rest line => by
      have hjoined : H (some (.pipeline (.mk negated first rest line))) tested
          (Hsh.executeJoined outcomes inner tested first rest) := by
        cases rest with
        | nil =>
            exact discipline.inPart (.sole rfl) (fun hzero => ⟨hzero, rfl⟩)
              (discipline.command tested first)
        | cons second rest => exact discipline.logged (discipline.executeStages outcomes tested) _
      exact discipline.bind hjoined fun _ =>
        discipline.bind (discipline.modifies fun _ => rfl) fun _ => discipline.pure _

/-! ### Lists -/

omit outcomes in
theorem unlessSkipped {node : Option (Node τ)} {body : Exec τ Int} (h : H node tested body)
    (run : Bool) : H node tested (Hsh.unlessSkipped run body) := by
  unfold Hsh.unlessSkipped
  split
  · refine discipline.bind discipline.checkNoExec fun skips => ?_
    split
    · exact discipline.pure _
    · exact discipline.bind h fun _ => discipline.pure _
  · exact discipline.pure _

theorem executeChain {andOr : AndOrList HereDocument τ} :
    ∀ run status (rest : AndOrList HereDocument τ),
      (∀ pipeline ∈ rest.operands, pipeline ∈ andOr.operands) →
      rest.lastPipeline = andOr.lastPipeline →
      H (some (.andOr andOr)) tested (Hsh.executeChain outcomes inner tested run status rest)
  | run, status, .last pipeline, _, hlast => by
      obtain rfl : pipeline = andOr.lastPipeline := hlast
      have hstands : StandsIn (some (.andOr andOr)) (lastPlace andOr.lastPipeline)
          (.pipeline andOr.lastPipeline) := stands_lastPlace andOr
      refine discipline.bind (discipline.unlessSkipped tested (discipline.inPart hstands
        (fun hzero => ?_) (discipline.executePipeline outcomes _ _)) run) fun _ =>
          discipline.pure _
      rw [lastPlace]
      cases hnegated : andOr.lastPipeline.negated with
      | true =>
          rw [hnegated, if_pos rfl] at hzero
          exact absurd hzero (Nat.succ_ne_zero _)
      | false =>
          rw [hnegated, if_neg (by decide)] at hzero
          exact ⟨hzero, rfl⟩
  | run, status, .chain pipeline _ rest, hoperands, hlast => by
      have hstands : StandsIn (some (.andOr andOr)) .operand (.pipeline pipeline) :=
        .operand (hoperands pipeline List.mem_cons_self)
      refine discipline.bind (discipline.unlessSkipped tested (discipline.inPart hstands
        (fun hzero => absurd hzero (Nat.succ_ne_zero _))
        (discipline.executePipeline outcomes _ _)) run) fun _ => ?_
      exact executeChain _ _ rest (fun p hmem => hoperands p (List.mem_cons_of_mem _ hmem)) hlast

theorem backgroundStages (pipeline : Pipeline HereDocument τ) :
    H (some (.pipeline pipeline)) tested (do
      if ← Hsh.consult outcomes.pipesMade then
        let stages ← Hsh.executePass inner tested true
          (pipeline.commands.map fun command => (command, true))
        log (.job (stages.any (·.2)))
        Pure.pure (if stages.any (·.2) then 0 else (stages.getLast?.map (·.1)).getD 0)
      else Hsh.tell 2 : Exec τ Int) := by
  refine discipline.bind (discipline.consult _) fun made => ?_
  split
  · refine discipline.bind (discipline.executePass tested true _) fun _ => ?_
    exact discipline.bind (discipline.notes rfl) fun _ => discipline.pure _
  · exact discipline.tell _

theorem startBackground : ∀ andOr : AndOrList HereDocument τ,
    H (some (.andOr andOr)) tested (Hsh.startBackground outcomes inner tested andOr)
  | .chain _ _ _ => discipline.bind discipline.get fun _ => discipline.startBackgroundShell outcomes
  | .last pipeline => by
      refine discipline.bind discipline.get fun s => ?_
      dsimp only
      split
      · exact discipline.starts
          (discipline.logged (discipline.backgroundStages outcomes tested pipeline) .stages)
      · exact discipline.startBackgroundShell outcomes

variable (handOr : ∀ andOr, H (some (.andOr andOr)) tested
  (Hsh.executeAndOr outcomes inner tested andOr))

include handOr

theorem executeItems {items : CommandList HereDocument τ} :
    ∀ status (rest : CommandList HereDocument τ), (∀ item ∈ rest, item ∈ items) →
      H (some (.list items)) tested (Hsh.executeItems outcomes inner tested status rest)
  | _, [], _ => discipline.pure _
  | status, item :: rest, hitems => by
      have hrest (status : Int) := executeItems status rest fun item hmem =>
        hitems item (List.mem_cons_of_mem _ hmem)
      refine discipline.bind discipline.checkNoExec fun skips => ?_
      split
      · exact hrest status
      · refine discipline.bind (discipline.inPart (stands_itemPlace (hitems item List.mem_cons_self))
          (fun hzero => ⟨hzero, isTested_itemPlace item⟩) ?_) hrest
        split
        · exact discipline.startBackground outcomes tested _
        · exact handOr _

theorem executeList (items : CommandList HereDocument τ) :
    H (some (.list items)) tested (Hsh.executeList outcomes inner tested items) :=
  discipline.bind discipline.get fun _ =>
    discipline.executeItems outcomes tested handOr _ items fun _ => id

end

end PartDiscipline

end Haisos.Hsh
