import Haisos.Hsh.Shell.Execute

/-!
# Runs of the shell

`Shell::Run`: the complete commands of a script one after another, or of what is typed at
an interactive shell.  How children are stopped is the machine's.
-/

namespace Haisos.Hsh.Shell

open StateExcept

variable {ω D P : Type}

/-- `Invocation::Source`. -/
inductive InvocationSource where
  | commandString (source : Text)
  | scriptFile (path : Text)
  | standardInput
  deriving DecidableEq, Repr

def exitCodeStopped : Int := 143

section

variable (machine : Machine ω D P)

/-- A command of the top level is over. -/
def commandEnded (ended : Except Failure Int) : Sh ω D P Unit := do
  let positional := (← getState).positional
  let failure :=
    match ended with
    | .ok _ => none
    | .error failure => some failure
  modifyMembers fun members =>
    { members with
      events := .commandEnded failure members.depths positional members.ownPositional ::
        members.events }

variable (parse : ParseText) (inner : Inner ω D P)

def runOneCommand (items : CommandList HereDocument Text) : Sh ω D P Int := do
  let ended ← attempt (inner.list items)
  commandEnded ended
  match ended with
  | .ok status => pure status
  | .error (.shellError error) => do
      reportError machine error
      modifyState fun state => { state with lastExitStatus := 2 }
      -- An interactive shell goes on.
      if (← getState).options.interactive then pure 2 else throw (.shellError error)
  | .error failure => throw failure

/-- The loop of `Run`, with the status of the command before. -/
def runScript (error : Option ShellError) :
    Int → List (CommandList HereDocument Text) → Sh ω D P Int
  | status, [] =>
      match error with
      | none => pure status
      | some error => do
          writeErr machine (formatShellError (← getState).arg0 error.line error.message)
          pure 2
  | _, items :: rest => do
      match ← attempt (runOneCommand machine inner items) with
      | .ok status => do
          throwIfStopRequested machine
          runScript error status rest
      | .error (.exit status) => pure (status % 256)
      | .error (.shellError _) => pure 2
      | .error failure => throw failure

def readInputLine : Sh ω D P (Option Text) := do
  match ← look ((system machine).getDescriptor standardInput) with
  | none => pure none
  | some input => do
      match ← perform (Members.onOutside (machine.readLine true input)) with
      | .interrupted => throw .stopped
      | .failed (line, _) => pure (if line.isEmpty then none else some (line.map (·.1)))
      | .done (line, ended) =>
          pure (if !ended && line.isEmpty then none else some (line.map (·.1)))

/-- The commands that were typed: the status, and whether one has ended the shell. -/
def runTyped : Int → List (CommandList HereDocument Text) → Sh ω D P (Int × Bool)
  | status, [] => pure (status, false)
  | _, items :: rest => do
      match ← attempt (runOneCommand machine inner items) with
      | .ok status => do
          throwIfStopRequested machine
          runTyped status rest
      | .error (.exit status) => pure (status % 256, true)
      | .error failure => throw failure

/-- `RunInteractive`: `buffer` holds the lines of the command being typed, from `firstLine` on. -/
def runInteractive : Nat → Text → Nat → Nat → Int → Sh ω D P Int
  | 0, _, _, _, _ => throw .outOfFuel
  | fuel + 1, buffer, lineNumber, firstLine, status => do
      let prompt := (← getState).vars.get (if buffer.isEmpty then text "PS1" else text "PS2")
      writeErr machine (prompt.getD [])
      let line ← readInputLine machine
      if line.isNone && buffer.isEmpty then do
        writeErr machine ['\n']
        pure status
      else do
        let lineNumber := if line.isSome then lineNumber + 1 else lineNumber
        let buffer := match line with
          | some line => buffer ++ line ++ ['\n']
          | none => buffer
        let parsed := parse line.isSome buffer firstLine
        match parsed.error with
        | some error =>
            if error.incomplete && line.isSome then
              runInteractive fuel buffer lineNumber firstLine status
            else do
              writeErr machine (formatShellError (← getState).arg0 error.line error.message)
              modifyState fun state => { state with lastExitStatus := 2 }
              runInteractive fuel [] lineNumber (lineNumber + 1) 2
        | none => do
            let (status, exits) ← runTyped machine inner status parsed.commands
            if exits then pure status
            else runInteractive fuel [] lineNumber (lineNumber + 1) status

def scriptText : InvocationSource → Sh ω D P (Except Int Text)
  | .commandString source => pure (.ok source)
  | .scriptFile path => do
      let cannotOpen : Sh ω D P (Except Int Text) := do
        let reason ← look (openFailureReason (shellFiles machine) path false)
        writeErr machine (formatShellError (text "hsh") 0
          (text "cannot open " ++ path ++ text ": " ++ reason))
        pure (.error 2)
      match ← perform ((system machine).openFile path .readOnly) with
      | none => cannotOpen
      | some descriptor => do
          match ← perform (Members.onOutside (machine.readWhole descriptor)) with
          | .done source => pure (.ok source)
          | _ => cannotOpen
  | .standardInput => do
      match ← look ((system machine).getDescriptor standardInput) with
      | none => pure (.ok [])
      | some input => do
          match ← perform (Members.onOutside (machine.readWhole input)) with
          | .done source => pure (.ok source)
          | .interrupted => pure (.error exitCodeStopped)
          -- A read error ends the input.
          | .failed source => pure (.ok source)

/-- The body of `Run`. -/
def runSource (fuel : Nat) (source : InvocationSource) : Sh ω D P Int := do
  let state ← getState
  if state.options.interactive ∧ source = .standardInput then
    runInteractive machine parse inner fuel [] 0 1 state.lastExitStatus
  else do
    match ← scriptText machine source with
    | .error status => pure status
    | .ok source => do
        let parsed := parse false source 1
        runScript machine inner parsed.error (← getState).lastExitStatus parsed.commands

/-- `Run`: of a stop the shell ends with its children stopped. -/
def run (stopChildren : List P → ω → ω) (fuel : Nat) (source : InvocationSource) :
    Sh ω D P Int :=
  tryCatch (runSource machine parse inner fuel source) fun failure =>
    match failure with
    | .stopped => do
        let live := (← getMembers).liveChildren
        perform (Members.onOutside fun outside => ((), stopChildren live outside))
        modifyMembers fun members => { members with liveChildren := [] }
        pure exitCodeStopped
    | failure => throw failure

end

end Haisos.Hsh.Shell
