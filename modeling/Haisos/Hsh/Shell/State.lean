import Haisos.Hsh.Stages
import Haisos.ProcessFileIO

/-!
# The shell

What `HshShell.h` holds besides the `ShellState`, over a machine: the root file
system, the programs and the pipes.  The text a command substitution, `eval` and
`.` run is parsed by any parser.
-/

namespace Haisos.Hsh.Shell

open StateExcept

/-! ## The machine -/

structure StartProcess (D : Type) where
  path : Text
  arguments : List Text
  vars : ShellVariables
  assignments : List (Text × Text)
  workingDirectory : Text
  stdIn : D
  stdOut : D
  stdErr : D

/-- How a read to the end of a file, or of a line, went: of an error, what came before it. -/
inductive ReadEnd (α : Type) where
  | done (result : α)
  | interrupted
  | failed (before : α)

/--
What is outside the shell's process, for descriptors of type `D` and processes of
type `P`.  Waiting for a process passes a stop of the shell on to the processes of
the list.
-/
structure Machine (ω D P : Type) extends RootFileSystem ω D where
  createUnboundedPipe : ω → (D × D) × ω
  createNullInput : ω → D × ω
  createClosed : ω → D × ω
  release : Option D → ω → ω
  readWhole : D → ω → ReadEnd Text × ω
  isTerminal : D → ω → Bool
  /-- A line, its characters with whether they may be split at, and whether it was ended. -/
  readLine : Bool → D → ω → ReadEnd (List (Char × Bool) × Bool) × ω
  stopRequested : ω → Bool
  stopForBrokenPipe : ω → ω
  startProcess : StartProcess D → ω → Option P × ω
  waitToFinish : List P → P → ω → Int × ω
  isFinished : P → ω → Bool
  processId : P → Nat
  shellPath : Text

/-- A machine without files and programs: a write is taken, and a read finds the end at once. -/
def idleMachine : Machine Unit Nat Unit where
  openFile _ _ outside := (none, outside)
  stat _ _ := none
  readDirectory _ _ := []
  createPipe _ outside := (none, outside)
  write _ output outside := (.written output.length, outside)
  createUnboundedPipe outside := ((1024, 1025), outside)
  createNullInput outside := (1026, outside)
  createClosed outside := (1027, outside)
  release _ outside := outside
  readWhole _ outside := (.done [], outside)
  isTerminal _ _ := false
  readLine _ _ outside := (.done ([], false), outside)
  stopRequested _ := false
  stopForBrokenPipe outside := outside
  startProcess _ outside := (none, outside)
  waitToFinish _ _ outside := (0, outside)
  isFinished _ _ := true
  processId _ := 0
  shellPath := text "/bin/hsh"

/-- The complete commands of a text, and the syntax error they end in, if any. -/
structure Parsed where
  commands : List (CommandList HereDocument Text) := []
  error : Option ShellError := none

/-- `Parser`, of a text from a line on; interactive or not. -/
abbrev ParseText := Bool → Text → Nat → Parsed

/-! ## Members -/

structure FunctionDefinition where
  body : Command HereDocument Text
  sourceText : Text

structure Job (P : Type) where
  processes : List P := []
  pid : Nat := 0

/-- What `Shell` counts. -/
structure Depths where
  loops : Nat := 0
  functions : Nat := 0
  dots : Nat := 0
  errexitSuppressed : Nat := 0
  subshells : Nat := 0
  deriving DecidableEq, Repr

/-- What happens to the shell's control. -/
inductive ControlEvent where
  | loopStarted
  | roundStarted
  | loopEnded
  | functionEntered
  | functionLeft
  | subshellEntered
  | subshellLeft
  | commandStarted
  | builtinStarted (name : Text) (arguments : List Text)
  /-- A command of the top level is over: what was thrown, and what the shell then is. -/
  | commandEnded (failure : Option Failure) (depths : Depths) (positional ownPositional : List Text)
  deriving DecidableEq, Repr

inductive ChildEvent (P : Type) where
  | started (child : P)
  | waitedFor (child : P)
  deriving DecidableEq, Repr

/--
The members of `Shell`.  `m_startInsteadOfWait` points at one of the stages'
children.  The last four are the model's own: what the redirections applied so
far have named, the top level's positional parameters, and what happened to the
control and to the children, the latest first.
-/
structure Members (ω D P : Type) where
  files : ProcessFiles ω D
  currentLine : Nat := 0
  substitutionCount : Nat := 0
  liveChildren : List P := []
  brokenPipe : Bool := false
  keepRedirections : Bool := false
  jobs : List (Job P) := []
  startInsteadOfWait : Option Nat := none
  stageChildren : List (Option P) := []
  functions : List (Text × FunctionDefinition) := []
  depths : Depths := {}
  named : List Nat := []
  ownPositional : List Text := []
  events : List ControlEvent := []
  childEvents : List (ChildEvent P) := []

/-- Computations of the shell. -/
abbrev Sh (ω D P : Type) := Walk (Members ω D P)

variable {ω D P : Type}

namespace Members

def putFiles (files : ProcessFiles ω D) (members : Members ω D P) : Members ω D P :=
  { members with files }

def onOutside {α : Type} (f : ω → α × ω) (members : Members ω D P) : α × Members ω D P :=
  let result := f members.files.outside
  (result.1, { members with files := { members.files with outside := result.2 } })

end Members

/-- `StartChild`'s options: a closed slot goes to the child as a `ClosedDescriptor`. -/
def slotOrClosed (machine : Machine ω D P) (files : ProcessFiles ω D) (fd : Nat) (outside : ω) :
    D × ω :=
  match files.descriptors.getDescriptor fd with
  | some descriptor => (descriptor, outside)
  | none => machine.createClosed outside

def startProcess (machine : Machine ω D P) (path : Text) (arguments : List Text)
    (assignments : List (Text × Text)) (state : ShellState) (members : Members ω D P) :
    Option P × Members ω D P :=
  members.onOutside fun outside =>
    let (stdIn, outside) := slotOrClosed machine members.files standardInput outside
    let (stdOut, outside) := slotOrClosed machine members.files standardOutput outside
    let (stdErr, outside) := slotOrClosed machine members.files standardError outside
    machine.startProcess
      { path, arguments, vars := state.vars, assignments
        workingDirectory := members.files.workingDirectory.1, stdIn, stdOut, stdErr } outside

/-- The shell's process, as the shell sees it. -/
def system (machine : Machine ω D P) : OperatingSystem (Members ω D P) D P where
  toFileIO := machine.toRootFileSystem.processFiles.within Members.files Members.putFiles
  stopRequested members := machine.stopRequested members.files.outside
  createUnboundedPipe := Members.onOutside machine.createUnboundedPipe
  release descriptor members :=
    (members.onOutside fun outside => ((), machine.release descriptor outside)).2
  startProcess := startProcess machine

/-- The shell's `IO()`. -/
abbrev shellFiles (machine : Machine ω D P) : FileIO (Members ω D P) D :=
  OperatingSystem.toFileIO (system machine)

abbrev tableOf (members : Members ω D P) : DescriptorTable D := members.files.descriptors

theorem system_usesTable (machine : Machine ω D P) :
    (system machine).UsesTable (tableOf (ω := ω) (P := P)) :=
  FileIO.usesTable_within machine.toRootFileSystem.processFiles_usesTable fun _ _ => rfl

/-! ## Reading and changing the members -/

def getMembers : Sh ω D P (Members ω D P) := do pure (← get).outside

def modifyMembers (f : Members ω D P → Members ω D P) : Sh ω D P Unit :=
  perform fun members => ((), f members)

def modifyState (f : ShellState → ShellState) : Sh ω D P Unit :=
  modify fun world => { world with state := f world.state }

def modifyDepths (f : Depths → Depths) : Sh ω D P Unit :=
  modifyMembers fun members => { members with depths := f members.depths }

def happens (event : ControlEvent) : Sh ω D P Unit :=
  modifyMembers fun members => { members with events := event :: members.events }

def fail {α : Type} (message : Text) : Sh ω D P α := do
  throw (.shellError { message, line := (← getMembers).currentLine })

def assignVariable (name value : Text) : Sh ω D P Unit := do
  let state ← getState
  match state.vars.set name value with
  | none => fail (name ++ text ": is read only")
  | some vars =>
      setState { state with vars := if state.options.allexport then vars.markExported name else vars }

def assignAll (assignments : List (Text × Text)) : Sh ω D P Unit :=
  forM assignments fun (name, value) => assignVariable name value

/-- The positional parameters are set by `set` and `shift`. -/
def setPositional (positional : List Text) : Sh ω D P Unit := do
  modifyState fun state => { state with positional }
  modifyMembers fun members =>
    if members.depths.functions = 0 ∧ members.depths.subshells = 0 then
      { members with ownPositional := positional }
    else members

section

variable (machine : Machine ω D P)

def throwIfStopRequested : Sh ω D P Unit := do
  if ← look (system machine).stopRequested then throw .stopped

/-! ## Output -/

/-- The loop of `WriteTo`. -/
def writeLoop (descriptor : D) : Nat → Text → Sh ω D P Unit
  | 0, rest => if rest.isEmpty then pure () else throw .outOfFuel
  | fuel + 1, rest =>
      if rest.isEmpty then pure ()
      else do
        match ← perform ((system machine).write descriptor rest) with
        | .brokenPipe => do
            -- Of its broken pipe a subshell dies alone.
            if (← getMembers).depths.subshells > 0 then throw (.exit exitCodeBrokenPipe)
            perform (Members.onOutside fun outside => ((), machine.stopForBrokenPipe outside))
            modifyMembers fun members => { members with brokenPipe := true }
            throw .stopped
        | .interrupted => throw .stopped
        | .failed => pure ()
        | .written count => writeLoop descriptor fuel (rest.drop count)

def writeTo (descriptor : Option D) (output : Text) : Sh ω D P Unit := do
  if !(← getMembers).brokenPipe then
    match descriptor with
    | none => pure ()
    | some descriptor => writeLoop machine descriptor output.length output

/-- `WriteDescriptor`. -/
def writeSlot (fd : Nat) (output : Text) : Sh ω D P Unit := do
  writeTo machine (← look ((system machine).getDescriptor fd)) output

def writeOut : Text → Sh ω D P Unit := writeSlot machine standardOutput

def writeErr : Text → Sh ω D P Unit := writeSlot machine standardError

def report (message : Text) : Sh ω D P Unit := do
  writeErr machine
    (formatShellError (← getState).arg0 (← getMembers).currentLine message)

/-- What `RunSubshell` and `RunOneCommand` report of an error. -/
def reportError (error : ShellError) : Sh ω D P Unit := do
  let current := (← getMembers).currentLine
  let line := if error.line ≠ 0 then error.line else current
  writeErr machine (formatShellError (← getState).arg0 line error.message)

/-! ## Children -/

def startChild (path : Text) (arguments : List Text) (assignments : List (Text × Text)) :
    Sh ω D P (Option P) := do
  match ← perform ((system machine).startProcess path arguments assignments (← getState)) with
  | none => pure none
  | some child => do
      modifyMembers fun members =>
        { members with
          liveChildren := members.liveChildren ++ [child]
          childEvents := .started child :: members.childEvents }
      pure (some child)

variable [DecidableEq P]

def forgetLiveChild (child : P) (members : Members ω D P) : Members ω D P :=
  { members with liveChildren := members.liveChildren.filter (· ≠ child) }

def waitForChild (child : P) : Sh ω D P Int := do
  let live := (← getMembers).liveChildren
  let status ← perform (Members.onOutside (machine.waitToFinish live child))
  modifyMembers fun members =>
    { forgetLiveChild child members with childEvents := .waitedFor child :: members.childEvents }
  throwIfStopRequested machine
  pure status

def kMaxJobs : Nat := 1024

/-- Of the jobs, oldest first, as many finished ones are dropped as there are too many. -/
def dropFinished (finished : Job P → Bool) : Nat → List (Job P) → List (Job P) × List (Job P)
  | 0, jobs => (jobs, [])
  | _, [] => ([], [])
  | excess + 1, job :: jobs =>
      if finished job then
        let (kept, dropped) := dropFinished finished excess jobs
        (kept, job :: dropped)
      else
        let (kept, dropped) := dropFinished finished (excess + 1) jobs
        (job :: kept, dropped)

def recordJob (job : Job P) : Sh ω D P Unit := do
  modifyState fun state => { state with lastBackgroundPid := some job.pid }
  modifyMembers fun members =>
    let jobs := members.jobs ++ [job]
    let finished (job : Job P) : Bool :=
      job.processes.all fun process => machine.isFinished process members.files.outside
    let (kept, dropped) := dropFinished finished (jobs.length - kMaxJobs) jobs
    (dropped.flatMap Job.processes).foldl (fun members child => forgetLiveChild child members)
      { members with jobs := kept }

end

end Haisos.Hsh.Shell
