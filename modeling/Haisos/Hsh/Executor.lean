import Haisos.Hsh.Stages

/-!
# The executor

`Shell::ExecuteList` and what it calls.  What words expand to, how redirections
end and what builtins and programs do are the run's `Outcomes`, any assignment
of them; the control flow, the statuses and `-e` are the shell's.

The tested contexts of `-e` are counted in `m_errexitSuppressed`, which every
method that raises it puts back: the count is an argument, `tested`.  The trace
knows nothing of it: it tells which part of the program is run, and where.
-/

namespace Haisos.Hsh

variable {τ : Type}

/-! ## Outcomes -/

/--
What an expansion comes to: the programs of the command substitutions it runs,
in order (`none` for a text that does not parse), and then its value.
-/
structure Expanded (τ α : Type) where
  substitutions : List (Option (CommandList HereDocument τ)) := []
  value : Except ShellError α

/-- What a builtin does. -/
inductive BuiltinOutcome (τ : Type) where
  | status (status : Int)
  | setOptions (options : ShellOptions) (status : Int)
  | breakContinue (isBreak : Bool) (levels : Nat)
  | returnWith (status : Int)
  | exitWith (status : Int)
  | fails (error : ShellError)
  | stops
  /-- `eval`: the complete commands of the text, and the syntax error it ends in, if any. -/
  | evaluates (commands : List (CommandList HereDocument τ)) (error : Option ShellError)
  /-- `.`, likewise. -/
  | sources (commands : List (CommandList HereDocument τ)) (error : Option ShellError)

/-- How a program starts. -/
inductive ProgramStart where
  | started
  | notStarted (status : Int)
  | readOnlyAssignment (error : ShellError)
  deriving DecidableEq, Repr

/-- What the run meets at each time it looks: an assignment of outcomes to the commands. -/
structure Outcomes (τ : Type) where
  stopRequested : Nat → Bool
  words : Nat → List Word → Expanded τ (List Text)
  subject : Nat → Word → Expanded τ Text
  patternMatches : Nat → Word → Text → Expanded τ Bool
  /-- The error to report, if any. -/
  redirections : Nat → List (Redirection HereDocument) → Expanded τ (Option Text)
  assignmentValues : Nat → List Assignment → Expanded τ Unit
  /-- `AssignVariable`, of assignments or of a loop's variable: the fatal error, if any. -/
  assign : Nat → List Text → Option ShellError
  builtin : Nat → List Text → BuiltinOutcome τ
  program : Nat → List Text → ProgramStart
  waitForChild : Nat → Option Int
  positional : Nat → List Text
  pipesMade : Nat → Bool
  /-- Whether a child hsh for a background item could be started. -/
  shellStarted : Nat → Bool

/-! ## State -/

/-- A part of the program that is run on its own. -/
inductive Node (τ : Type) where
  | list (items : CommandList HereDocument τ)
  | andOr (andOr : AndOrList HereDocument τ)
  | pipeline (pipeline : Pipeline HereDocument τ)
  | command (command : Command HereDocument τ)

/-- Where a part stands in the one around it. -/
inductive Place where
  /-- A list's and-or list, and one before a `&`. -/
  | item | background
  /-- A pipeline that another follows, the last one, and the last one behind a `!`. -/
  | operand | last | negated
  /-- A pipeline's only command. -/
  | sole
  /-- One of the stages of a pipeline, counted from 0. -/
  | stage (position : Nat)
  /-- A list of an `if`, `while` or `until` that decides, and one that is run. -/
  | condition | body
  | substitution
  /-- A complete command of a script, or of a text that `eval` runs. -/
  | evaluated
  /-- What a function or `.` runs: a `return` ends it. -/
  | called
  deriving DecidableEq, Repr

/-- What a command was that ended with a status. -/
inductive Ran where
  | simpleCommand | stages | subshell
  deriving DecidableEq, Repr

/-- What happened in a run. -/
inductive Event (τ : Type) where
  | opens (place : Place) (node : Node τ)
  /-- The part came to its end; a failure led out of it. -/
  | closes | quits
  /-- `ExecuteAndOr` was entered, `tested` contexts deep. -/
  | enters (andOr : AndOrList HereDocument τ) (tested : Nat)
  /-- A pipeline of programs is started in the background. -/
  | starts (pipeline : Pipeline HereDocument τ) (tested : Nat)
  /-- A simple command, a pipeline of stages or a subshell ended. -/
  | ran (what : Ran) (status : Int) (tested : Nat)
  /-- A check of `-n` found it on. -/
  | skipped
  /-- A child hsh was to be started for a background item. -/
  | background (started : Bool)
  /-- `ExecuteAndOr` threw for `-e`; its list was entered after `since` events. -/
  | errexit (status : Int) (since : Nat)
  /-- Words are expanded: `$?` is `status`. -/
  | expands (status : Int)
  /-- What a program or a builtin ended with, or what stands for it after an error. -/
  | told (status : Int)
  /-- The program that a stage left was waited for. -/
  | waited (position : Nat) (status : Int)
  /-- A pipeline was to be started in the background: whether a program was. -/
  | job (started : Bool)
  /-- The text of a command substitution does not parse. -/
  | rejected
  /-- `break`, `continue`, `return` or `exit`. -/
  | jumps (failure : Failure)

structure ExecState (τ : Type) where
  options : ShellOptions := {}
  lastExitStatus : Int := 0
  functions : Text → Option (Command HereDocument τ) := fun _ => none
  loopDepth : Nat := 0
  functionDepth : Nat := 0
  dotDepth : Nat := 0
  substitutionCount : Nat := 0
  /-- `m_startInsteadOfWait` is set, and what it points at is. -/
  startInsteadOfWait : Bool := false
  stageStarted : Bool := false
  /-- How often the run has looked at its outcomes. -/
  clock : Nat := 0
  /-- The latest first. -/
  trace : List (Event τ) := []

abbrev Exec (τ : Type) := ExceptT Failure (StateM (ExecState τ))

def consult {α : Type} (outcome : Nat → α) : Exec τ α :=
  modifyGet fun s => (outcome s.clock, { s with clock := s.clock + 1 })

def log (event : Event τ) : Exec τ Unit := modify fun s => { s with trace := event :: s.trace }

/-- Runs the part `node` of the program. -/
def inPart {α : Type} (place : Place) (node : Node τ) (body : Exec τ α) : Exec τ α := do
  log (.opens place node)
  tryCatch (do
    let result ← body
    log .closes
    pure result) fun failure => do
      log .quits
      throw failure

/-- The status of what is no part of the program. -/
def tell (status : Int) : Exec τ Int := do
  log (.told status)
  pure status

/-- A `break`, `continue`, `return` or `exit`. -/
def jump (failure : Failure) : Exec τ Int := do
  log (.jumps failure)
  throw failure

/-- Runs `body` and logs how it ended. -/
def logged (what : Ran) (tested : Nat) (body : Exec τ Int) : Exec τ Int := do
  let status ← body
  log (.ran what status tested)
  pure status

/-- `NoExec`. -/
def checkNoExec : Exec τ Bool := do
  let s ← get
  if s.options.noexec && !s.options.interactive then
    log .skipped
    pure true
  else pure false

def raiseError : Option ShellError → Exec τ Unit
  | some error => throw (.shellError error)
  | none => pure ()

/-- What `SubshellScope` puts back. -/
def ExecState.restoreSubshell (saved s : ExecState τ) : ExecState τ :=
  { s with
    options := saved.options
    lastExitStatus := saved.lastExitStatus
    functions := saved.functions
    loopDepth := saved.loopDepth
    functionDepth := saved.functionDepth
    dotDepth := saved.dotDepth }

/-- `RunSubshell`. -/
def runSubshell (body : Exec τ Int) : Exec τ Int := do
  let saved ← get
  tryCatch (do
    let status ← body
    modify saved.restoreSubshell
    pure (status % 256)) fun failure => do
      modify saved.restoreSubshell
      match failure with
      | .exit status | .functionReturn status => pure (status % 256)
      | .loopControl _ _ => pure 0
      | .shellError _ => pure 2
      | failure => throw failure

/-- Runs `body` with the flag of `m_startInsteadOfWait` as given, and puts it back. -/
def withStartInsteadOfWait {α : Type} (flag : Bool) (body : Exec τ α) : Exec τ α := do
  let saved ← get
  let restore : Exec τ Unit :=
    modify fun s => { s with startInsteadOfWait := saved.startInsteadOfWait }
  modify fun s => { s with startInsteadOfWait := flag }
  tryCatch (do
    let result ← body
    restore
    pure result) fun failure => do
      restore
      throw failure

/-- Runs `body` one loop deeper. -/
def inLoop (body : Exec τ Int) : Exec τ Int := do
  modify fun s => { s with loopDepth := s.loopDepth + 1 }
  tryCatch (do
    let status ← body
    modify fun s => { s with loopDepth := s.loopDepth - 1 }
    pure status) fun failure => do
      modify fun s => { s with loopDepth := s.loopDepth - 1 }
      throw failure

/-- How a round of a loop went on: with a status, or by a `break` or `continue` of this loop. -/
inductive RoundEnd where
  | status (status : Int)
  | control (isBreak : Bool)
  deriving DecidableEq, Repr

/-- Catches a `break` or `continue`: one that names more loops goes on to the next. -/
def catchLoopControl (body : Exec τ Int) : Exec τ RoundEnd :=
  tryCatch (do pure (.status (← body))) fun failure =>
    match failure with
    | .loopControl isBreak levels =>
        if levels > 1 then throw (.loopControl isBreak (levels - 1)) else pure (.control isBreak)
    | failure => throw failure

/-- The frame of `CallFunction`: its loops are counted on their own, and a `return` ends it. -/
def inFunction (body : Exec τ Int) : Exec τ Int := do
  let saved ← get
  let restore : Exec τ Unit := modify fun s =>
    { s with loopDepth := saved.loopDepth, functionDepth := s.functionDepth - 1 }
  modify fun s => { s with loopDepth := 0, functionDepth := s.functionDepth + 1 }
  tryCatch (do
    let status ← body
    restore
    pure status) fun failure => do
      restore
      match failure with
      | .functionReturn status => pure status
      | failure => throw failure

/-- The frame of a dot script. -/
def inDotScript (body : Exec τ Int) : Exec τ Int := do
  let restore : Exec τ Unit := modify fun s => { s with dotDepth := s.dotDepth - 1 }
  modify fun s => { s with dotDepth := s.dotDepth + 1 }
  tryCatch (do
    let status ← body
    restore
    pure status) fun failure => do
      restore
      match failure with
      | .functionReturn status => pure status
      | failure => throw failure

/-- The end of `ExecuteSimpleCommand`: a program is waited for, or only started. -/
def runProgram (outcomes : Outcomes τ) (fields : List Text) : Exec τ Int := do
  match ← consult (outcomes.program · fields) with
  | .readOnlyAssignment error => throw (.shellError error)
  | .notStarted status => tell status
  | .started =>
      if (← get).startInsteadOfWait then do
        modify fun s => { s with stageStarted := true }
        tell 0
      else
        match ← consult outcomes.waitForChild with
        | none => throw .stopped
        | some status => tell status

/-- How a stage ended: its status, and whether it left a child to wait for. -/
abbrev StageEnd := Int × Bool

/-- Pass 3. -/
def waitForStages (outcomes : Outcomes τ) (stages : List StageEnd) : Exec τ (List Int) :=
  stages.zipIdx.mapM fun ((status, started), position) => do
    if started then
      match ← consult outcomes.waitForChild with
      | none => throw .stopped
      | some status => do
          log (.waited position status)
          pure status
    else pure status

/-- `StartBackgroundShell`. -/
def startBackgroundShell (outcomes : Outcomes τ) : Exec τ Int := do
  let started ← consult outcomes.shellStarted
  log (.background started)
  pure (if started then 0 else 2)

/-- What a pipeline makes of its status. -/
def negate (negated : Bool) (status : Int) : Int :=
  if negated then if status = 0 then 1 else 0 else status

def continues (operator : AndOrOperator) (status : Int) : Bool :=
  match operator with
  | .and => status = 0
  | .or => status ≠ 0

/-- Whether the condition's status asks for another round. -/
def LoopKind.again : LoopKind → Int → Bool
  | .whileLoop, status => status = 0
  | .untilLoop, status => status ≠ 0

def Compound.isSubshell : Compound HereDocument τ → Bool
  | .subshell _ => true
  | _ => false

def AndOrList.lastNegated : AndOrList HereDocument τ → Bool
  | .last pipeline => pipeline.negated
  | .chain _ _ rest => rest.lastNegated

/-! ## Execution -/

/--
What execution comes back to for the commands inside a command: lists, single
commands and the next round of a loop, each so many tested contexts deep.
-/
structure Executor (τ : Type) where
  list : Nat → CommandList HereDocument τ → Exec τ Int
  command : Nat → Command HereDocument τ → Exec τ Int
  round : Nat → LoopKind → CommandList HereDocument τ → CommandList HereDocument τ → Int →
    Exec τ Int

section

variable (outcomes : Outcomes τ) (inner : Executor τ)

/-! ### Expansions -/

/-- What `$?` is from here on. -/
def noteStatus : Exec τ Unit := do
  log (.expands (← get).lastExitStatus)

/-- `RunCommandSubstitution`, of each text in turn. -/
def runSubstitutions (tested : Nat) : List (Option (CommandList HereDocument τ)) → Exec τ Unit
  | [] => pure ()
  | program :: rest => do
      modify fun s => { s with substitutionCount := s.substitutionCount + 1 }
      let status ←
        match program with
        | none => do
            log .rejected
            pure 2
        | some items =>
            withStartInsteadOfWait false
              (runSubshell (inPart .substitution (.list items) (inner.list tested items)))
      modify fun s => { s with lastExitStatus := status }
      noteStatus
      runSubstitutions tested rest

/-- The expansions of the run. -/
def expand {α : Type} (tested : Nat) (expanded : Nat → Expanded τ α) : Exec τ α := do
  let expanded ← consult expanded
  noteStatus
  runSubstitutions inner tested expanded.substitutions
  match expanded.value with
  | .ok value => pure value
  | .error error => throw (.shellError error)

/-- The error that redirections end in, if any. -/
def redirect (tested : Nat) : List (Redirection HereDocument) → Exec τ (Option Text)
  | [] => pure none
  | redirection :: rest => expand inner tested (outcomes.redirections · (redirection :: rest))

/-! ### Simple commands -/

/-- One complete command of a text after another, then the syntax error the text ends in. -/
def executeCommands (tested : Nat) (place : Place) (error : Option ShellError) :
    Int → List (CommandList HereDocument τ) → Exec τ Int
  | status, [] => do
      raiseError error
      pure status
  | _, items :: rest => do
      let status ← inPart place (.list items) (inner.list tested items)
      executeCommands tested place error status rest

def runBuiltin (tested : Nat) (fields : List Text) : Exec τ Int := do
  match ← consult (outcomes.builtin · fields) with
  | .status status => tell status
  | .setOptions options status => do
      modify fun s => { s with options }
      tell status
  | .breakContinue isBreak levels => do
      let s ← get
      if s.loopDepth = 0 then tell 0
      else jump (.loopControl isBreak (min levels s.loopDepth))
  | .returnWith status => do
      let s ← get
      if s.functionDepth > 0 || s.dotDepth > 0 then jump (.functionReturn (status % 256))
      else jump (.exit (status % 256))
  | .exitWith status => jump (.exit (status % 256))
  | .fails error => throw (.shellError error)
  | .stops => throw .stopped
  | .evaluates commands error => do
      log (.told 0)
      executeCommands inner tested .evaluated error 0 commands
  | .sources commands error => do
      log (.told 0)
      inDotScript (executeCommands inner tested .called error 0 commands)

/-- The end of `ExecuteSimpleCommand`: special builtin, function, regular builtin, program. -/
def runFields (tested : Nat) (names : List Text) (name : Text) (arguments : List Text) :
    Exec τ Int := do
  let fields := name :: arguments
  if isSpecialBuiltin name then do
    raiseError (← consult (outcomes.assign · names))
    runBuiltin outcomes inner tested fields
  else
    match (← get).functions name with
    | some body => do
        raiseError (← consult (outcomes.assign · names))
        inFunction (inPart .called (.command body) (inner.command tested body))
    | none =>
        if (findShellBuiltin name).isSome then do
          raiseError (← consult (outcomes.assign · names))
          runBuiltin outcomes inner tested fields
        else runProgram outcomes fields

/-- `ExecuteSimpleCommand`. -/
def executeSimpleCommand (tested : Nat) (command : SimpleCommand HereDocument) : Exec τ Int := do
  let substitutions := (← get).substitutionCount
  let fields ← expand inner tested (outcomes.words · command.words)
  if ← checkNoExec then pure (← get).lastExitStatus
  else
    match ← redirect outcomes inner tested command.redirections with
    | some message =>
        if (fields.head?.map isSpecialBuiltin).getD false then throw (.shellError { message })
        else tell 2
    | none => do
        expand inner tested (outcomes.assignmentValues · command.assignments)
        let names := command.assignments.map (·.name)
        match fields with
        | [] => do
            raiseError (← consult (outcomes.assign · names))
            let s ← get
            pure (if s.substitutionCount ≠ substitutions then s.lastExitStatus else 0)
        | name :: arguments => runFields outcomes inner tested names name arguments

/-! ### Compound commands -/

/-- `ExecuteIf`: the conditions are tested contexts. -/
def executeIf (tested : Nat) (elseBody : Option (CommandList HereDocument τ)) :
    List (IfBranch HereDocument τ) → Exec τ Int
  | .mk condition body :: rest => do
      let status ← inPart .condition (.list condition) (inner.list (tested + 1) condition)
      if status = 0 then inPart .body (.list body) (inner.list tested body)
      else executeIf tested elseBody rest
  | [] =>
      match elseBody with
      | some items => inPart .body (.list items) (inner.list tested items)
      | none => pure 0

/-- A round of `ExecuteLoop`, with the status of the one before. -/
def executeRound (tested : Nat) (kind : LoopKind) (condition body : CommandList HereDocument τ)
    (status : Int) : Exec τ Int := do
  match ← catchLoopControl
      (inPart .condition (.list condition) (inner.list (tested + 1) condition)) with
  | .control true => pure status
  | .control false => inner.round tested kind condition body status
  | .status tests =>
      if kind.again tests then
        match ← catchLoopControl (inPart .body (.list body) (inner.list tested body)) with
        | .status status => inner.round tested kind condition body status
        | .control true => pure 0
        | .control false => inner.round tested kind condition body 0
      else pure status

/-- `ExecuteFor`, likewise. -/
def executeFor (tested : Nat) (var : Text) (body : CommandList HereDocument τ) :
    Int → List Text → Exec τ Int
  | status, [] => pure status
  | _, _ :: values => do
      raiseError (← consult (outcomes.assign · [var]))
      match ← catchLoopControl (inPart .body (.list body) (inner.list tested body)) with
      | .status status => executeFor tested var body status values
      | .control true => pure 0
      | .control false => executeFor tested var body 0 values

/-- The patterns of an item: those after the first that matches stay unexpanded. -/
def matchesAny (tested : Nat) (subject : Text) : List Word → Exec τ Bool
  | [] => pure false
  | pattern :: rest => do
      let accepts ← expand inner tested (outcomes.patternMatches · pattern subject)
      if accepts then pure true else matchesAny tested subject rest

/-- `ExecuteCase`: the first item with a pattern that matches runs. -/
def executeCase (tested : Nat) (subject : Text) : List (CaseItem HereDocument τ) → Exec τ Int
  | [] => pure 0
  | .mk patterns body :: rest => do
      let accepts ← matchesAny outcomes inner tested subject patterns
      if accepts then
        if body.isEmpty then pure 0 else inPart .body (.list body) (inner.list tested body)
      else executeCase tested subject rest

def executeCompound (tested : Nat) : Compound HereDocument τ → Exec τ Int
  | .braceGroup items => inPart .body (.list items) (inner.list tested items)
  | .subshell items =>
      runSubshell (inPart .body (.list items) (inner.list tested items))
  | .ifCommand branches elseBody => executeIf inner tested elseBody branches
  | .loop kind condition items => inLoop (inner.round tested kind condition items 0)
  | .forCommand var words items => do
      let values ←
        match words with
        | some words => expand inner tested (outcomes.words · words)
        | none => consult outcomes.positional
      inLoop (executeFor outcomes inner tested var items 0 values)
  | .caseCommand subject items => do
      let subject ← expand inner tested (outcomes.subject · subject)
      executeCase outcomes inner tested subject items

/-- A compound command with its redirections: one that fails is an error of status 2. -/
def executeRedirected (tested : Nat) (body : Compound HereDocument τ)
    (redirections : List (Redirection HereDocument)) : Exec τ Int := do
  let error ← redirect outcomes inner tested redirections
  if error.isSome then tell 2 else executeCompound outcomes inner tested body

def executeKind (tested : Nat) : Command HereDocument τ → Exec τ Int
  | .simple simple => logged .simpleCommand tested (executeSimpleCommand outcomes inner tested simple)
  | .functionDefinition name body _ _ => do
      modify fun s =>
        { s with functions := fun other => if other = name then some body else s.functions other }
      pure 0
  | .compound body redirections _ =>
      if body.isSubshell then
        logged .subshell tested (executeRedirected outcomes inner tested body redirections)
      else executeRedirected outcomes inner tested body redirections

/-- `ExecuteCommand`. -/
def executeCommand (tested : Nat) (command : Command HereDocument τ) : Exec τ Int := do
  if ← consult outcomes.stopRequested then throw .stopped
  else executeKind outcomes inner tested command

/-! ### Pipelines -/

/-- `RunStage`: with `start`, a child is started and not waited for. -/
def executeStage (tested : Nat) (start : Bool) (position : Nat) (command : Command HereDocument τ) :
    Exec τ StageEnd := do
  modify fun s => { s with stageStarted := false }
  let status ← runSubshell (withStartInsteadOfWait start
    (inPart (.stage position) (.command command) (inner.command tested command)))
  pure (status, start && (← get).stageStarted)

/-- Passes 1 (`child`) and 2: how each stage of the pass ended. -/
def executePass (tested : Nat) (child : Bool) (stages : List (Command HereDocument τ × Bool)) :
    Exec τ (List StageEnd) :=
  stages.zipIdx.mapM fun ((command, childStage), position) =>
    if childStage = child then executeStage inner tested child position command
    else pure (0, false)

/-- `ExecutePipelinedStages`. -/
def executeStages (tested : Nat) (commands : List (Command HereDocument τ)) : Exec τ Int := do
  let functions := (← get).functions
  let stages := commands.map fun command =>
    (command, isChildStage (fun name => (functions name).isSome) command)
  if ← consult outcomes.pipesMade then do
    let children ← executePass inner tested true stages
    let inShell ← executePass inner tested false stages
    let waited ← waitForStages outcomes children
    let lastIsChild := (stages.getLast?.map (·.2)).getD false
    pure ((if lastIsChild then waited else inShell.map (·.1)).getLast?.getD 0)
  else tell 2

/-- The commands of a pipeline. -/
def executeJoined (tested : Nat) (first : Command HereDocument τ) :
    List (Command HereDocument τ) → Exec τ Int
  | [] => inPart .sole (.command first) (inner.command tested first)
  | second :: rest =>
      logged .stages tested (executeStages outcomes inner tested (first :: second :: rest))

/-- `ExecutePipeline`. -/
def executePipeline (tested : Nat) : Pipeline HereDocument τ → Exec τ Int
  | .mk negated first rest _ => do
      let status ← executeJoined outcomes inner tested first rest
      modify fun s => { s with lastExitStatus := negate negated status }
      pure (negate negated status)

/-! ### Lists -/

/-- Where the last pipeline of an and-or list stands. -/
def lastPlace (pipeline : Pipeline HereDocument τ) : Place :=
  if pipeline.negated then .negated else .last

/-- Runs `body` unless a pipeline is not to run, or `-n` is on. -/
def unlessSkipped (run : Bool) (body : Exec τ Int) : Exec τ (Option Int) := do
  if run then
    if ← checkNoExec then pure none else pure (some (← body))
  else pure none

/-- The pipelines of `ExecuteAndOr`: the status, and whether the last one ran. -/
def executeChain (tested : Nat) : Bool → Int → AndOrList HereDocument τ → Exec τ (Int × Bool)
  | run, status, .last pipeline => do
      let tested := if pipeline.negated then tested + 1 else tested
      let ended ← unlessSkipped run (inPart (lastPlace pipeline) (.pipeline pipeline)
        (executePipeline outcomes inner tested pipeline))
      pure (ended.getD status, ended.isSome)
  | run, status, .chain pipeline operator rest => do
      let ended ← unlessSkipped run (inPart .operand (.pipeline pipeline)
        (executePipeline outcomes inner (tested + 1) pipeline))
      let status := ended.getD status
      executeChain tested (continues operator status) status rest

/-- Whether `ExecuteAndOr` ends the shell for `-e`. -/
def endsShell (tested : Nat) (andOr : AndOrList HereDocument τ) (options : ShellOptions)
    (status : Int) (lastRan : Bool) : Bool :=
  lastRan && status != 0 && options.errexit && !options.interactive && !andOr.lastNegated &&
    tested == 0

/-- `ExecuteAndOr`. -/
def executeAndOr (tested : Nat) (andOr : AndOrList HereDocument τ) : Exec τ Int := do
  let before ← get
  log (.enters andOr tested)
  let (status, lastRan) ← executeChain outcomes inner tested true before.lastExitStatus andOr
  let after ← get
  if endsShell tested andOr after.options status lastRan then do
    log (.errexit status before.trace.length)
    throw (.exit status)
  else pure status

/-- `StartBackgroundPipeline`: a job when a process was started, else the last stage's status. -/
def startBackgroundPipeline (tested : Nat) (pipeline : Pipeline HereDocument τ) :
    Exec τ Int := do
  log (.starts pipeline tested)
  inPart (lastPlace pipeline) (.pipeline pipeline) (logged .stages tested do
    if ← consult outcomes.pipesMade then
      let stages ← executePass inner tested true
        (pipeline.commands.map fun command => (command, true))
      log (.job (stages.any (·.2)))
      pure (if stages.any (·.2) then 0 else (stages.getLast?.map (·.1)).getD 0)
    else tell 2)

/-- `StartBackground`: a pipeline of programs is started, anything else is run by a child hsh. -/
def startBackground (tested : Nat) (andOr : AndOrList HereDocument τ) : Exec τ Int := do
  let functions := (← get).functions
  match andOr with
  | .last pipeline =>
      if pipeline.commands.all (isChildStage fun name => (functions name).isSome) then
        startBackgroundPipeline outcomes inner tested pipeline
      else startBackgroundShell outcomes
  | .chain _ _ _ => startBackgroundShell outcomes

/-- Where an item stands in its list. -/
def itemPlace (item : ListItem HereDocument τ) : Place :=
  if item.background then .background else .item

def executeItem (tested : Nat) (item : ListItem HereDocument τ) : Exec τ Int :=
  inPart (itemPlace item) (.andOr item.andOr)
    (if item.background then startBackground outcomes inner tested item.andOr
    else executeAndOr outcomes inner tested item.andOr)

/-- The loop of `ExecuteList`. -/
def executeItems (tested : Nat) : Int → CommandList HereDocument τ → Exec τ Int
  | status, [] => pure status
  | status, item :: rest => do
      if ← checkNoExec then executeItems tested status rest
      else
        let status ← executeItem outcomes inner tested item
        executeItems tested status rest

/-- `ExecuteList`. -/
def executeList (tested : Nat) (items : CommandList HereDocument τ) : Exec τ Int := do
  executeItems outcomes inner tested (← get).lastExitStatus items

end

/-! ### Runs -/

/-- Execution to the depth `fuel`. -/
def executor (outcomes : Outcomes τ) : Nat → Executor τ
  | 0 =>
      { list := fun _ _ => throw .outOfFuel
        command := fun _ _ => throw .outOfFuel
        round := fun _ _ _ _ _ => throw .outOfFuel }
  | fuel + 1 =>
      { list := executeList outcomes (executor outcomes fuel)
        command := executeCommand outcomes (executor outcomes fuel)
        round := executeRound (executor outcomes fuel) }

/-- The loop of `Shell::Run`, over the complete commands of a script. -/
def runScript (outcomes : Outcomes τ) (fuel : Nat) (script : List (CommandList HereDocument τ)) :
    Exec τ Int := do
  executeCommands (executor outcomes fuel) 0 .evaluated none (← get).lastExitStatus script

/-- What `Shell::Run` makes of an `exit`, and of an error. -/
def run (outcomes : Outcomes τ) (fuel : Nat) (script : List (CommandList HereDocument τ)) :
    Exec τ Int :=
  tryCatch (runScript outcomes fuel script) fun failure =>
    match failure with
    | .exit status => pure (status % 256)
    | .shellError _ => pure 2
    | failure => throw failure

end Haisos.Hsh
