import Haisos.Hsh.Executor
import Haisos.Hsh.Shell.Builtins

/-!
# Execution

`Shell::ExecuteList` and what it calls, down to the descriptors.  What execution
comes back to for the commands inside a command is a parameter, as it is in
`Haisos.Hsh.Executor`.
-/

namespace Haisos.Hsh.Shell

open StateExcept

variable {ω D P : Type}

/-! ## Scopes -/

/-- Runs `body` with the depths changed by `enter`, and by `leave` when it ends. -/
def withDepths {α : Type} (enter leave : Depths → Depths) (body : Sh ω D P α) : Sh ω D P α := do
  modifyDepths enter
  ensuring body (modifyDepths leave)

/-- `TestedContext`. -/
def inTestedContext {α : Type} : Sh ω D P α → Sh ω D P α :=
  withDepths (fun depths => { depths with errexitSuppressed := depths.errexitSuppressed + 1 })
    fun depths => { depths with errexitSuppressed := depths.errexitSuppressed - 1 }

/-- Runs `body` one loop deeper. -/
def inLoop {α : Type} (body : Sh ω D P α) : Sh ω D P α := do
  happens .loopStarted
  withDepths (fun depths => { depths with loops := depths.loops + 1 })
    (fun depths => { depths with loops := depths.loops - 1 })
    (ensuring body (happens .loopEnded))

/-- Catches a `break` or `continue`: one that names more loops goes on to the next. -/
def catchLoopControl (body : Sh ω D P Int) : Sh ω D P RoundEnd :=
  tryCatch (do pure (.status (← body))) fun failure =>
    match failure with
    | .loopControl isBreak levels =>
        if levels > 1 then throw (.loopControl isBreak (levels - 1)) else pure (.control isBreak)
    | failure => throw failure

def catchReturn (body : Sh ω D P Int) : Sh ω D P Int :=
  tryCatch body fun failure =>
    match failure with
    | .functionReturn status => pure status
    | failure => throw failure

/-- The frame of `CallFunction`. -/
def inFunction (positional : List Text) (body : Sh ω D P Int) : Sh ω D P Int := do
  let kept := (← getState).positional
  let loops := (← getMembers).depths.loops
  modifyState fun state => { state with positional }
  happens .functionEntered
  withDepths (fun depths => { depths with loops := 0, functions := depths.functions + 1 })
    (fun depths => { depths with loops, functions := depths.functions - 1 })
    (ensuring (catchReturn body) do
      happens .functionLeft
      modifyState fun state => { state with positional := kept })

def inDotScript (body : Sh ω D P Int) : Sh ω D P Int :=
  withDepths (fun depths => { depths with dots := depths.dots + 1 })
    (fun depths => { depths with dots := depths.dots - 1 }) (catchReturn body)

/-- Runs `body` with `m_startInsteadOfWait` as given, and puts it back. -/
def withStartInsteadOfWait {α : Type} (stage : Option Nat) (body : Sh ω D P α) : Sh ω D P α := do
  let kept := (← getMembers).startInsteadOfWait
  modifyMembers fun members => { members with startInsteadOfWait := stage }
  ensuring body (modifyMembers fun members => { members with startInsteadOfWait := kept })

section

variable (machine : Machine ω D P)

/--
A `RedirectionScope`: `body` tells whether its redirections are to be kept.  An error
of a redirection goes to `failed`, with nothing left applied.
-/
def redirectionScope (host : Host (Members ω D P)) (redirections : List (Redirection HereDocument))
    (failed : Text → Sh ω D P Int) (body : Sh ω D P (Int × Bool)) : Sh ω D P Int := do
  match ← applyRedirections (shellFiles machine) host redirections [] with
  | (some error, _) => failed error
  | (none, saved) => do
      match ← attempt body with
      | .ok (status, true) => pure status
      | .ok (status, false) => do
          restoreSlots (shellFiles machine) saved
          pure status
      | .error failure => do
          restoreSlots (shellFiles machine) saved
          throw failure

def redirected (host : Host (Members ω D P)) (redirections : List (Redirection HereDocument))
    (failed : Text → Sh ω D P Int) (body : Sh ω D P (Int × Bool)) : Sh ω D P Int := do
  modifyMembers fun members =>
    { members with named := redirections.flatMap namedSlots ++ members.named }
  redirectionScope machine host redirections failed body

variable [DecidableEq D] [DecidableEq P]

def addedChildren (kept jobs : List (Job P)) : List P :=
  (jobs.filter fun job => !kept.any fun other => other.pid = job.pid).flatMap Job.processes

/-- `SubshellScope`'s destructor, for the world in which the scope was made. -/
def leaveSubshell (before : World (Members ω D P)) : Sh ω D P Unit := do
  let members := before.outside
  modifyMembers fun now =>
    { (addedChildren members.jobs now.jobs).foldl (fun now child => forgetLiveChild child now) now with
      jobs := members.jobs
      functions := members.functions
      depths :=
        { members.depths with subshells := now.depths.subshells - 1 } }
  restoreSubshell (system machine) before.state members.files.workingDirectory.1
    ((List.range maxDescriptors).map fun fd => (fd, (tableOf members).getDescriptor fd))

/-- What `RunSubshell` makes of how its body ended. -/
def subshellStatus : Except Failure Int → Sh ω D P Int
  | .ok status => pure (status % 256)
  | .error (.exit status) => pure (status % 256)
  | .error (.functionReturn status) => pure (status % 256)
  | .error (.loopControl _ _) => pure 0
  | .error (.shellError error) => do
      reportError machine error
      pure 2
  | .error failure => throw failure

def runSubshell (body : Sh ω D P Int) : Sh ω D P Int := do
  let before ← get
  happens .subshellEntered
  modifyDepths fun depths => { depths with subshells := depths.subshells + 1 }
  let ended ← attempt body
  leaveSubshell machine before
  happens .subshellLeft
  subshellStatus machine ended

end

/-! ## Execution -/

/-- What execution comes back to: lists, commands, and the next round of a loop. -/
structure Inner (ω D P : Type) where
  list : CommandList HereDocument Text → Sh ω D P Int
  command : Command HereDocument Text → Sh ω D P Int
  round : LoopKind → CommandList HereDocument Text → CommandList HereDocument Text → Int →
    Sh ω D P Int

section

variable [DecidableEq D] [DecidableEq P] (machine : Machine ω D P) (knowledge : Knowledge ω D)
  (parse : ParseText) (inner : Inner ω D P)

/-! ### Subshells -/

/-- What `RunSubshell` is given to run. -/
inductive SubshellBody (D : Type) where
  /-- The list of a `( )`. -/
  | list (items : CommandList HereDocument Text)
  | substitution (items : CommandList HereDocument Text) (writeEnd : D)
  /-- A stage of a pipeline; `started` is where a child that is not waited for is left. -/
  | stage (command : Command HereDocument Text) (input output : Option D) (started : Option Nat)

def SubshellBody.run : SubshellBody D → Sh ω D P Int
  | .list items => inner.list items
  | .substitution items writeEnd => do
      let _ ← placeDescriptor (shellFiles machine) standardOutput (some writeEnd)
      inner.list items
  | .stage command input output started => do
      let _ ← placeDescriptor (shellFiles machine) standardInput input
      let _ ← placeDescriptor (shellFiles machine) standardOutput output
      withStartInsteadOfWait started (inner.command command)

/-! ### Command substitutions -/

def readOutput (readEnd : D) : Sh ω D P Text := do
  match ← perform (Members.onOutside (machine.readWhole readEnd)) with
  | .done output => pure output
  | .interrupted => throw .stopped
  | .failed output => pure output

def runCommandSubstitution (source : Text) (line : Nat) : Sh ω D P CommandSubstitutionResult := do
  modifyMembers fun members => { members with substitutionCount := members.substitutionCount + 1 }
  let parsed := parse false source line
  match parsed.error with
  | some error => do
      writeErr machine (formatShellError (← getState).arg0 error.line error.message)
      pure { exitStatus := 2 }
  | none => do
      let (readEnd, writeEnd) ← perform (Members.onOutside machine.createUnboundedPipe)
      let status ← withStartInsteadOfWait none (runSubshell machine
        ((SubshellBody.substitution parsed.commands.flatten writeEnd).run machine inner))
      pure { output := ← readOutput machine readEnd, exitStatus := status }

/-- The shell as an `IExpansionHost`: a subshell leaves the state as it was. -/
def shellHost : Host (Members ω D P) where
  runCommandSubstitution source line state members :=
    let (result, world) :=
      exec (runCommandSubstitution machine parse inner source line) ⟨state, members⟩
    (result, world.outside)
  pathnames members :=
    { readDirectory := fun path =>
        machine.readDirectory (members.files.resolvePath path) members.files.outside
      pathExists := fun path =>
        (machine.stat (members.files.resolvePath path) members.files.outside).isSome }

/-! ### Builtins that run commands -/

/-- One complete command of a text after another, then the syntax error the text ends in. -/
def runCommands (failed : ShellError → Sh ω D P Int) (error : Option ShellError) :
    Int → List (CommandList HereDocument Text) → Sh ω D P Int
  | status, [] =>
      match error with
      | some error => failed error
      | none => pure status
  | _, items :: rest => do
      let status ← inner.list items
      runCommands failed error status rest

def builtinEval (arguments : List Text) : Sh ω D P Int := do
  let source := joinWith [' '] arguments
  if source.isEmpty then pure 0
  else do
    let parsed := parse false source (← getMembers).currentLine
    runCommands inner (fun error => fail (text "eval: " ++ error.message)) parsed.error 0
      parsed.commands

/-- The path of a dot script: one with a `/` is used as given. -/
def dotPath (file : Text) : Sh ω D P Text := do
  if file.contains '/' then do
    if (← look ((system machine).stat file)).isNone then fail (text ".: " ++ file ++ text ": not found")
    pure file
  else do
    match ← look (lookUpCommand (system machine) file (← getState)) with
    | .found path => pure path
    | _ => fail (text ".: " ++ file ++ text ": not found")

def dotText (file : Text) : Sh ω D P Text := do
  let path ← dotPath machine file
  let cannotOpen : Sh ω D P Text := do
    let reason ← look (openFailureReason (shellFiles machine) path false)
    fail (text ".: cannot open " ++ file ++ text ": " ++ reason)
  match ← perform ((system machine).openFile path .readOnly) with
  | none => cannotOpen
  | some descriptor => do
      match ← perform (Members.onOutside (machine.readWhole descriptor)) with
      | .done source => pure source
      | _ => cannotOpen

def builtinDot (arguments : List Text) : Sh ω D P Int := do
  match arguments with
  | [] => pure 0
  | file :: _ => do
      let parsed := parse false (← dotText machine file) 1
      inDotScript (runCommands inner
        (fun error => throw (.shellError { error with message := file ++ text ": " ++ error.message }))
        parsed.error 0 parsed.commands)

def runBuiltin (name : Text) (arguments : List Text) : Sh ω D P Int :=
  if name = text "." then builtinDot machine parse inner arguments
  else if name = text "break" then builtinBreakContinue true arguments
  else if name = text "cd" then builtinCd machine arguments
  else if name = text "continue" then builtinBreakContinue false arguments
  else if name = text "eval" then builtinEval parse inner arguments
  else if name = text "exec" then builtinExec machine arguments
  else if name = text "exit" then builtinExit arguments
  else if name = text "export" then builtinExportReadonly machine knowledge false arguments
  else if name = text "false" then pure 1
  else if name = text "read" then builtinRead machine arguments
  else if name = text "readonly" then builtinExportReadonly machine knowledge true arguments
  else if name = text "return" then builtinReturn arguments
  else if name = text "set" then builtinSet machine knowledge arguments
  else if name = text "shift" then builtinShift arguments
  else if name = text "test" ∨ name = text "[" then
    builtinTest machine knowledge (name :: arguments)
  else if name = text "unset" then builtinUnset arguments
  else if name = text "wait" then builtinWait machine arguments
  else pure 0

/-- `builtin->run`. -/
def callBuiltin (name : Text) (arguments : List Text) : Sh ω D P Int := do
  happens (.builtinStarted name arguments)
  runBuiltin machine knowledge parse inner name arguments

/-! ### Simple commands -/

/-- The trace of `-x`, to the standard error from before the redirections. -/
def traceCommand (traceErr : Option D) (assignments : List (Text × Text)) (fields : List Text) :
    Sh ω D P Unit := do
  let state ← getState
  if state.options.xtrace then writeTo machine traceErr (traceLine state assignments fields)

/-- `ShellAssignmentRestore`. -/
structure AssignmentRestore where
  name : Text
  value : Option Text
  exported : Bool

/-- The assignments for one command; what is to be put back, the latest first. -/
def assignSaving : List AssignmentRestore → List (Text × Text) → Sh ω D P (List AssignmentRestore)
  | restore, [] => pure restore
  | restore, (name, value) :: rest => do
      let entry := (← getState).vars.entry name
      assignVariable name value
      assignSaving ({ name, value := entry.value, exported := entry.exported } :: restore) rest

def restoreAssignment (restore : AssignmentRestore) (vars : ShellVariables) : ShellVariables :=
  let put :=
    match restore.value with
    | some value => (vars.set restore.name value).getD vars
    | none => (vars.unset restore.name).getD vars
  if restore.exported then put.markExported restore.name else put

def restoreAssignments (restore : List AssignmentRestore) : Sh ω D P Unit :=
  modifyState fun state =>
    { state with vars := restore.foldl (fun vars saved => restoreAssignment saved vars) state.vars }

/-- Whether `exec` has asked to keep the redirections; the mark is taken off. -/
def takeKeepRedirections : Sh ω D P Bool := do
  let keep := (← getMembers).keepRedirections
  modifyMembers fun members => { members with keepRedirections := false }
  pure keep

def callFunction (function : FunctionDefinition) (arguments : List Text) : Sh ω D P Int :=
  inFunction arguments (inner.command function.body)

def runProgram (traceErr : Option D) (name : Text) (arguments : List Text)
    (assignments : List (Text × Text)) : Sh ω D P Int := do
  let state ← getState
  match assignments.find? fun assignment => (state.vars.entry assignment.1).readonly with
  | some (name, _) => fail (name ++ text ": is read only")
  | none => do
      traceCommand machine traceErr assignments (name :: arguments)
      match ← look (lookUpCommand (system machine) name state) with
      | .notFound => do
          report machine (name ++ text ": not found")
          pure 127
      | .notRunnable => do
          report machine (name ++ text ": Permission denied")
          pure 126
      | .found path => do
          match ← startChild machine path arguments assignments with
          | none => do
              report machine (name ++ text ": Permission denied")
              pure 126
          | some child => do
              match (← getMembers).startInsteadOfWait with
              | some stage => do
                  modifyMembers fun members =>
                    { members with stageChildren := members.stageChildren.set stage (some child) }
                  pure 0
              | none => waitForChild machine child

/-- A regular builtin or a function: the assignments are for the command only. -/
def runWithAssignments (traceErr : Option D) (assignments : List (Text × Text)) (name : Text)
    (arguments : List Text) (run : Sh ω D P Int) : Sh ω D P (Int × Bool) := do
  let restore ← assignSaving [] assignments
  traceCommand machine traceErr assignments (name :: arguments)
  let status ← run
  let keep ← takeKeepRedirections
  restoreAssignments restore
  pure (status, keep)

def runFields (traceErr : Option D) (assignments : List (Text × Text)) (name : Text)
    (arguments : List Text) : Sh ω D P (Int × Bool) := do
  if isSpecialBuiltin name then do
    assignAll assignments
    traceCommand machine traceErr assignments (name :: arguments)
    let status ← callBuiltin machine knowledge parse inner name arguments
    pure (status, ← takeKeepRedirections)
  else
    match (← getMembers).functions.lookup name with
    | some function =>
        runWithAssignments machine traceErr assignments name arguments
          (callFunction inner function arguments)
    | none =>
        if (findShellBuiltin name).isSome then
          runWithAssignments machine traceErr assignments name arguments
            (callBuiltin machine knowledge parse inner name arguments)
        else do
          pure (← runProgram machine traceErr name arguments assignments, false)

def expandAssignments (assignments : List Assignment) : Sh ω D P (List (Text × Text)) :=
  assignments.mapM fun assignment => do
    pure (assignment.name,
      ← expandAssignmentValue (shellHost machine parse inner) assignment.value)

/-- After the redirections of `ExecuteSimpleCommand`. -/
def runSimpleCommand (command : SimpleCommand HereDocument) (substitutions : Nat)
    (traceErr : Option D) (fields : List Text) : Sh ω D P (Int × Bool) := do
  let assignments ← expandAssignments machine parse inner command.assignments
  match fields with
  | [] => do
      assignAll assignments
      traceCommand machine traceErr assignments []
      let count := (← getMembers).substitutionCount
      let last := (← getState).lastExitStatus
      pure (if count ≠ substitutions then last else 0, false)
  | name :: arguments =>
      runFields machine knowledge parse inner traceErr assignments name arguments

def failedRedirection (fields : List Text) (error : Text) : Sh ω D P Int := do
  if (fields.head?.map isSpecialBuiltin).getD false then fail error
  report machine error
  pure 2

def executeSimpleCommand (command : SimpleCommand HereDocument) : Sh ω D P Int := do
  modifyMembers fun members => { members with currentLine := command.line }
  let substitutions := (← getMembers).substitutionCount
  let fields ← expandWords (shellHost machine parse inner) command.words
  let state ← getState
  if noExec state then pure state.lastExitStatus
  else do
    let traceErr ← look ((system machine).getDescriptor standardError)
    redirected machine (shellHost machine parse inner) command.redirections
      (failedRedirection machine fields)
      (runSimpleCommand machine knowledge parse inner command substitutions traceErr fields)

/-! ### Compound commands -/

/-- `ExecuteIf`: the conditions are tested contexts. -/
def executeIf (elseBody : Option (CommandList HereDocument Text)) :
    List (IfBranch HereDocument Text) → Sh ω D P Int
  | .mk condition body :: rest => do
      let status ← inTestedContext (inner.list condition)
      if status = 0 then inner.list body else executeIf elseBody rest
  | [] =>
      match elseBody with
      | some items => inner.list items
      | none => pure 0

/-- A round of `ExecuteLoop`, with the status of the one before. -/
def executeRound (kind : LoopKind) (condition body : CommandList HereDocument Text)
    (status : Int) : Sh ω D P Int := do
  happens .roundStarted
  match ← catchLoopControl (inTestedContext (inner.list condition)) with
  | .control true => pure status
  | .control false => inner.round kind condition body status
  | .status tests =>
      if kind.again tests then
        match ← catchLoopControl (inner.list body) with
        | .status status => inner.round kind condition body status
        | .control true => pure 0
        | .control false => inner.round kind condition body 0
      else pure status

/-- The loop of `ExecuteFor`, likewise: a round starts by looking for the next word. -/
def executeFor (var : Text) (body : CommandList HereDocument Text) :
    Int → List Text → Sh ω D P Int
  | status, [] => do
      happens .roundStarted
      pure status
  | _, value :: values => do
      happens .roundStarted
      assignVariable var value
      match ← catchLoopControl (inner.list body) with
      | .status status => executeFor var body status values
      | .control true => pure 0
      | .control false => executeFor var body 0 values

/-- The patterns of an item: those after the first that matches stay unexpanded. -/
def matchesAny (subject : Text) : List Word → Sh ω D P Bool
  | [] => pure false
  | pattern :: rest => do
      let expanded ← expandPattern (shellHost machine parse inner) pattern
      if matchPattern expanded subject then pure true else matchesAny subject rest

/-- `ExecuteCase`: the first item with a pattern that matches runs. -/
def executeCase (subject : Text) : List (CaseItem HereDocument Text) → Sh ω D P Int
  | [] => pure 0
  | .mk patterns body :: rest => do
      if ← matchesAny machine parse inner subject patterns then
        if body.isEmpty then pure 0 else inner.list body
      else executeCase subject rest

def executeCompound : Compound HereDocument Text → Sh ω D P Int
  | .braceGroup items => inner.list items
  | .subshell items => runSubshell machine ((SubshellBody.list items).run machine inner)
  | .ifCommand branches elseBody => executeIf inner elseBody branches
  | .loop kind condition body => inLoop (inner.round kind condition body 0)
  | .forCommand var words body => do
      let values ←
        match words with
        | some words => expandWords (shellHost machine parse inner) words
        | none => do pure (← getState).positional
      inLoop (executeFor inner var body 0 values)
  | .caseCommand subject items => do
      let subject ← expandToString (shellHost machine parse inner) subject
      executeCase machine parse inner subject items

/-- `m_functions`, with a definition entered in the order of the names. -/
def insertFunction (name : Text) (function : FunctionDefinition) :
    List (Text × FunctionDefinition) → List (Text × FunctionDefinition)
  | [] => [(name, function)]
  | (other, kept) :: rest =>
      if other = name then (name, function) :: rest
      else if name < other then (name, function) :: (other, kept) :: rest
      else (other, kept) :: insertFunction name function rest

def executeKind : Command HereDocument Text → Sh ω D P Int
  | .simple simple => executeSimpleCommand machine knowledge parse inner simple
  | .functionDefinition name body sourceText line => do
      modifyMembers fun members =>
        { members with
          currentLine := line
          functions := insertFunction name { body, sourceText } members.functions }
      pure 0
  | .compound body redirections line => do
      modifyMembers fun members => { members with currentLine := line }
      redirected machine (shellHost machine parse inner) redirections
        (fun error => do
          report machine error
          pure 2)
        (do pure (← executeCompound machine parse inner body, false))

def executeCommand (command : Command HereDocument Text) : Sh ω D P Int := do
  throwIfStopRequested machine
  happens .commandStarted
  executeKind machine knowledge parse inner command

/-! ### Pipelines -/

/-- How a stage ended: its status, and the child that was started, if any. -/
structure StageEnd (P : Type) where
  status : Int := 0
  child : Option P := none

/-- `RunStage`; a `started` stage may leave a child to wait for. -/
def runStage (started : Bool) (command : Command HereDocument Text) (input output : Option D) :
    Sh ω D P (StageEnd P) := do
  let stage := (← getMembers).stageChildren.length
  modifyMembers fun members => { members with stageChildren := members.stageChildren ++ [none] }
  let status ← runSubshell machine
    ((SubshellBody.stage command input output (if started then some stage else none)).run machine
      inner)
  pure { status, child := ((← getMembers).stageChildren[stage]?).join }

/-- The end of a pipe that a stage is given, or what its slot holds. -/
def stageEnd (fd : Nat) (pipe : Option (StagePipe D)) (pipeEnd : StagePipe D → Option D) :
    Sh ω D P (Option D) :=
  match pipe with
  | none => look ((system machine).getDescriptor fd)
  | some pipe => pure (pipeEnd pipe)

/-- Pass 1 (`child`) or 2: `left` is the pipe that the first of these stages reads from. -/
def runPass (child : Bool) :
    List (Command HereDocument Text × Bool) → Option (StagePipe D) → List (StagePipe D) →
      Sh ω D P (List (StageEnd P))
  | [], _, _ => pure []
  | (command, childStage) :: rest, left, pipes => do
      if childStage = child then
        let input ← stageEnd machine standardInput left StagePipe.readEnd
        let output ← stageEnd machine standardOutput pipes.head? StagePipe.writeEnd
        let ended ← runStage machine inner child command input output
        modifyMembers ((system machine).release (left.bind StagePipe.readEnd))
        modifyMembers ((system machine).release (pipes.head?.bind StagePipe.writeEnd))
        pure (ended :: (← runPass child rest pipes.head? pipes.tail))
      else pure ({} :: (← runPass child rest pipes.head? pipes.tail))

def waitForStages : List (StageEnd P) → Sh ω D P (List Int)
  | [] => pure []
  | ended :: rest => do
      let status ←
        match ended.child with
        | some child => waitForChild machine child
        | none => pure ended.status
      pure (status :: (← waitForStages rest))

def classify (commands : List (Command HereDocument Text)) :
    Sh ω D P (List (Command HereDocument Text × Bool)) := do
  let functions := (← getMembers).functions
  pure (commands.map fun command =>
    (command, isChildStage (fun name => (functions.lookup name).isSome) command))

def executePipelinedStages (commands : List (Command HereDocument Text)) : Sh ω D P Int := do
  let stages ← classify commands
  match ← createStagePipes (system machine) false (stages.map (·.2)) with
  | none => do
      report machine (text "Pipe call failed")
      pure 2
  | some pipes => do
      let children ← runPass machine inner true stages none pipes
      let inShell ← runPass machine inner false stages none pipes
      let waited ← waitForStages machine children
      let lastIsChild := (stages.getLast?.map (·.2)).getD false
      pure ((if lastIsChild then waited else inShell.map (·.status)).getLast?.getD 0)

def executePipeline : Pipeline HereDocument Text → Sh ω D P Int
  | .mk negated first rest line => do
      let status ←
        match rest with
        | [] => inner.command first
        | _ => do
            modifyMembers fun members => { members with currentLine := line }
            executePipelinedStages machine inner (first :: rest)
      modifyState fun state => { state with lastExitStatus := negate negated status }
      pure (negate negated status)

/-! ### Background lists -/

/-- The stages of a background pipeline, which all are programs: what each left. -/
def startBackgroundStages :
    List (Command HereDocument Text) → Option D → List (StagePipe D) → Sh ω D P (List (StageEnd P))
  | [], _, _ => pure []
  | command :: rest, input, pipes => do
      let output ← stageEnd machine standardOutput pipes.head? StagePipe.writeEnd
      let ended ← runStage machine inner true command input output
      modifyMembers ((system machine).release input)
      modifyMembers ((system machine).release (pipes.head?.bind StagePipe.writeEnd))
      pure (ended :: (← startBackgroundStages rest (pipes.head?.bind StagePipe.readEnd) pipes.tail))

def startBackgroundPipeline (commands : List (Command HereDocument Text)) : Sh ω D P Int := do
  match ← createStagePipes (system machine) false (commands.map fun _ => true) with
  | none => do
      report machine (text "Pipe call failed")
      pure 2
  | some pipes => do
      let input ← perform (Members.onOutside machine.createNullInput)
      let ended ← startBackgroundStages machine inner commands (some input) pipes
      match ended.filterMap StageEnd.child with
      | [] => pure ((ended.getLast?.map StageEnd.status).getD 0)
      | processes => do
          recordJob machine { processes, pid := (processes.getLast?.map machine.processId).getD 0 }
          pure 0

/-- `BackgroundScript`: the functions as they were written, then the list. -/
def backgroundScript (functions : List (Text × FunctionDefinition)) (sourceText : Text) : Text :=
  functions.flatMap (fun function => function.2.sourceText ++ ['\n']) ++ sourceText ++ ['\n']

/-- The options among `e u f x C a` that are on, as an argument. -/
def backgroundOptions (options : ShellOptions) : List Text :=
  let letters := [(options.nounset, 'u'), (options.allexport, 'a'), (options.noclobber, 'C'),
    (options.xtrace, 'x'), (options.noglob, 'f'), (options.errexit, 'e')].filterMap
      fun (on, letter) => if on then some letter else none
  if letters.isEmpty then [] else ['-' :: letters]

def startBackgroundShell (sourceText : Text) : Sh ω D P Int := do
  let state ← getState
  let members ← getMembers
  let arguments := backgroundOptions state.options ++
    [text "-c", backgroundScript members.functions sourceText, state.arg0] ++ state.positional
  let keptIn ← look ((system machine).getDescriptor standardInput)
  let nullInput ← perform (Members.onOutside machine.createNullInput)
  let _ ← placeDescriptor (shellFiles machine) standardInput (some nullInput)
  let child ← startChild machine machine.shellPath arguments []
  let _ ← placeDescriptor (shellFiles machine) standardInput keptIn
  match child with
  | none => do
      report machine (text "fork: Resource temporarily unavailable")
      pure 2
  | some child => do
      recordJob machine { processes := [child], pid := machine.processId child }
      pure 0

def startBackground (andOr : AndOrList HereDocument Text) (sourceText : Text) : Sh ω D P Int := do
  match andOr with
  | .last pipeline => do
      let stages ← classify pipeline.commands
      if stages.all (·.2) then startBackgroundPipeline machine inner pipeline.commands
      else startBackgroundShell machine sourceText
  | .chain _ _ _ => startBackgroundShell machine sourceText

/-! ### Lists -/

/-- A pipeline of a list: all but the last and the negated ones are tested contexts. -/
def runPipeline (last : Bool) (pipeline : Pipeline HereDocument Text) : Sh ω D P Int :=
  if !last || pipeline.negated then inTestedContext (executePipeline machine inner pipeline)
  else executePipeline machine inner pipeline

/-- Runs a pipeline unless it is not to run, or `-n` is on. -/
def unlessSkipped (run : Bool) (last : Bool) (pipeline : Pipeline HereDocument Text) :
    Sh ω D P (Option Int) := do
  if run then
    if noExec (← getState) then pure none
    else pure (some (← runPipeline machine inner last pipeline))
  else pure none

/-- The pipelines of `ExecuteAndOr`: the status, and whether the last one ran. -/
def executeChain : Bool → Int → AndOrList HereDocument Text → Sh ω D P (Int × Bool)
  | run, status, .last pipeline => do
      let ended ← unlessSkipped machine inner run true pipeline
      pure (ended.getD status, ended.isSome)
  | run, status, .chain pipeline operator rest => do
      let ended ← unlessSkipped machine inner run false pipeline
      executeChain (continues operator (ended.getD status)) (ended.getD status) rest

def executeAndOr (andOr : AndOrList HereDocument Text) : Sh ω D P Int := do
  let (status, lastRan) ← executeChain machine inner true (← getState).lastExitStatus andOr
  let options := (← getState).options
  let tested := (← getMembers).depths.errexitSuppressed
  if endsShell tested andOr options status lastRan then throw (.exit status)
  else pure status

def lastLine : AndOrList HereDocument Text → Nat
  | .last (.mk _ _ _ line) => line
  | .chain _ _ rest => lastLine rest

def executeItem (item : ListItem HereDocument Text) : Sh ω D P Int := do
  if item.background then do
    modifyMembers fun members => { members with currentLine := lastLine item.andOr }
    startBackground machine inner item.andOr item.sourceText
  else executeAndOr machine inner item.andOr

/-- The loop of `ExecuteList`. -/
def executeItems : Int → CommandList HereDocument Text → Sh ω D P Int
  | status, [] => pure status
  | status, item :: rest => do
      if noExec (← getState) then executeItems status rest
      else
        let status ← executeItem machine inner item
        executeItems status rest

def executeList (items : CommandList HereDocument Text) : Sh ω D P Int := do
  executeItems machine inner (← getState).lastExitStatus items

/-! ## Depth -/

/-- Execution to the depth `fuel`. -/
def executor : Nat → Inner ω D P
  | 0 =>
      { list := fun _ => throw .outOfFuel
        command := fun _ => throw .outOfFuel
        round := fun _ _ _ _ => do
          happens .roundStarted
          throw .outOfFuel }
  | fuel + 1 =>
      { list := executeList machine (executor fuel)
        command := executeCommand machine knowledge parse (executor fuel)
        round := executeRound (executor fuel) }

end

end Haisos.Hsh.Shell
