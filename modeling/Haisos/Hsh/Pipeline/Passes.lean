import Haisos.Hsh.Stages
import Haisos.Hsh.UnboundedPipe

/-!
# The three passes of a pipeline

`Shell::ExecutePipelinedStages` of `HshShell.cpp` step by step: the pipes of
`CreateStagePipe`, what each pass does with a stage, and the ends of pipes that the
shell hands over and drops.  A stage is any program.
-/

namespace Haisos.Hsh

open PipeService

/-! ## The kinds of the pipes -/

/-- Which pipes are unbounded; `inShellBefore` when a stage so far runs in the shell. -/
def stageKinds : Bool → List Bool → List Bool
  | inShellBefore, childStage :: next :: rest =>
      let inShellBefore := inShellBefore || !childStage
      (!next && inShellBefore) :: stageKinds inShellBefore (next :: rest)
  | _, _ => []

section

variable {ω D P : Type}

def createPipes (os : OperatingSystem ω D P) : List Bool → Walk ω (Option (List (StagePipe D)))
  | [] => pure (some [])
  | unbounded :: rest => do
      match ← createStagePipe os unbounded with
      | none => pure none
      | some pipe => do
          match ← createPipes os rest with
          | none => pure none
          | some pipes => pure (some (pipe :: pipes))

theorem createStagePipes_kinds (os : OperatingSystem ω D P) (inShellBefore : Bool)
    (childStages : List Bool) :
    createStagePipes os inShellBefore childStages =
      createPipes os (stageKinds inShellBefore childStages) := by
  induction childStages generalizing inShellBefore with
  | nil => rfl
  | cons childStage rest ih =>
      cases rest with
      | nil => rfl
      | cons next rest => 
          simp only [createStagePipes, stageKinds, createPipes, ih]
          all_goals rfl

end

namespace Passes

/-! ## The pipes -/

/-- What is behind the two ends of a `StagePipe`. -/
inductive StageBuffer where
  | bounded (buffer : PipeBuffer)
  | unbounded (buffer : UnboundedPipeBuffer)

namespace StageBuffer

def create (capacity : Nat) (unbounded : Bool) : StageBuffer :=
  if unbounded then .unbounded .create else .bounded (.create capacity)

def capacity : StageBuffer → Option Nat
  | .bounded buffer => some buffer.capacity
  | .unbounded _ => none

/-- How many bytes were written and not yet read. -/
def size : StageBuffer → Nat
  | .bounded buffer => buffer.size
  | .unbounded buffer => buffer.bytes.length - buffer.readOffset

def readEndOpen : StageBuffer → Bool
  | .bounded buffer => buffer.readEndOpen
  | .unbounded buffer => buffer.readEndOpen

def writeEndOpen : StageBuffer → Bool
  | .bounded buffer => buffer.writeEndOpen
  | .unbounded buffer => buffer.writeEndOpen

def read (count : Nat) : StageBuffer → ReadPass × StageBuffer
  | .bounded buffer =>
      if count = 0 then (.returned 0 [], .bounded buffer)
      else (buffer.readPass count false).map id .bounded
  | .unbounded buffer =>
      if count = 0 then (.returned 0 [], .unbounded buffer)
      else (buffer.readPass count false).map id .unbounded

/-- One pass of a write of which `written` bytes are in the pipe. -/
def write (buf : List UInt8) (written : Nat) : StageBuffer → WritePass × StageBuffer
  | .bounded buffer =>
      if buf.length = 0 then (.returned 0 0, .bounded buffer)
      else (buffer.writePass buf written false).map id .bounded
  | .unbounded buffer =>
      if buf.length = 0 then (.returned 0 0, .unbounded buffer)
      else (buffer.write buf).map (fun result => .returned buf.length result) .unbounded

/-- An end that nobody holds any more is closed. -/
def closeUnheld (readHeld writeHeld : Bool) : StageBuffer → StageBuffer
  | .bounded buffer =>
      let buffer := if readHeld then buffer else buffer.closeReadEnd
      .bounded (if writeHeld then buffer else buffer.closeWriteEnd)
  | .unbounded buffer =>
      let buffer := if readHeld then buffer else buffer.closeReadEnd
      .unbounded (if writeHeld then buffer else buffer.closeWriteEnd)

end StageBuffer

/-! ## Programs -/

/-- What a program does next on its standard input and output; what it does elsewhere is `other`.
`start` is the `StartChild` of a simple command's program, `fork` any other. -/
inductive Action (σ : Type) where
  | read (count : Nat) (next : Int → List UInt8 → σ)
  | write (buf : List UInt8) (next : Int → σ)
  | closeInput (next : σ)
  | closeOutput (next : σ)
  | fork (program next : σ)
  | start (program next : σ)
  | other (next : σ)
  | exit

/-- A program that runs with the ends of a stage: whether it still has them, and whether it is
the one that the shell waits for. -/
structure Process (σ : Type) where
  state : σ
  written : Nat := 0
  reads : Bool := true
  writes : Bool := true
  main : Bool := false

def Process.become {σ : Type} (process : Process σ) (state : σ) : Process σ :=
  { process with state, written := 0 }

/-- The stages of a pipeline: `program` is what the shell runs for a stage, in `RunStage`. -/
structure Stages (σ : Type) where
  childStages : List Bool
  two_le : 2 ≤ childStages.length
  capacity : Nat
  capacity_pos : 0 < capacity
  program : Nat → σ
  act : σ → Action σ

variable {σ : Type}

namespace Stages

def count (stages : Stages σ) : Nat := stages.childStages.length

def childStage (stages : Stages σ) (stage : Nat) : Bool := stages.childStages[stage]?.getD false

def unbounded (stages : Stages σ) (pipe : Nat) : Bool :=
  (stageKinds false stages.childStages)[pipe]?.getD false

end Stages

/-! ## The passes -/

/-- Where `ExecutePipelinedStages` is: before a stage in pass 1 (`child`) or pass 2, in its
`RunStage`, or at a stage in pass 3. -/
inductive Phase (σ : Type) where
  | before (child : Bool) (stage : Nat)
  | inStage (child : Bool) (stage : Nat) (process : Process σ)
  | waiting (stage : Nat)
  | done

/-- `readEnds` and `writeEnds` are the ends of `pipes` that the shell has not reset. -/
structure State (σ : Type) where
  phase : Phase σ
  pipes : Nat → StageBuffer
  readEnds : Nat → Bool
  writeEnds : Nat → Bool
  processes : Nat → List (Process σ)

namespace State

/-- Whether the shell or a program holds the read end of a pipe. -/
def readHeld (state : State σ) (pipe : Nat) : Bool :=
  state.readEnds pipe || (state.processes (pipe + 1)).any (·.reads)

def writeHeld (state : State σ) (pipe : Nat) : Bool :=
  state.writeEnds pipe || (state.processes pipe).any (·.writes)

def closeUnheld (state : State σ) : State σ :=
  { state with
    pipes := fun pipe =>
      (state.pipes pipe).closeUnheld (state.readHeld pipe) (state.writeHeld pipe) }

/-- `releaseFor`. -/
def releaseFor (state : State σ) (stage : Nat) : State σ :=
  { state with
    readEnds := fun pipe => state.readEnds pipe && decide (pipe + 1 ≠ stage)
    writeEnds := fun pipe => state.writeEnds pipe && decide (pipe ≠ stage) }

def setProcesses (state : State σ) (stage : Nat) (processes : List (Process σ)) : State σ :=
  { state with processes := Function.update state.processes stage processes }

end State

/-- What an action leaves: the pipes, the process, and the one it has started. -/
structure Performed (σ : Type) where
  pipes : Nat → StageBuffer
  process : Process σ
  started : List (Process σ) := []

/-- The result and the bytes of a read, and the result of a write, outside the pipeline. -/
structure Answer where
  result : Int := 0
  bytes : List UInt8 := []

/-- An action of a program of a stage; nothing where it waits.  In pass 1 (`child`) what the shell
starts is left for pass 3. -/
def perform (stages : Stages σ) (child : Bool) (stage : Nat) (answer : Answer)
    (pipes : Nat → StageBuffer) (process : Process σ) : Option (Performed σ) :=
  match stages.act process.state with
  | .read count next =>
      if process.reads then
        match stage with
        | 0 => some { pipes, process := process.become (next answer.result answer.bytes) }
        | left + 1 =>
            match (pipes left).read count with
            | (.waits, _) => none
            | (.returned result out, buffer) =>
                some
                  { pipes := Function.update pipes left buffer
                    process := process.become (next result out) }
      else some { pipes, process := process.become (next kIOError []) }
  | .write buf next =>
      if process.writes then
        if stage + 1 < stages.count then
          match (pipes stage).write buf process.written with
          | (.waits, _) => none
          | (.continued written, buffer) =>
              some
                { pipes := Function.update pipes stage buffer
                  process := { process with written } }
          | (.returned _ result, buffer) =>
              some
                { pipes := Function.update pipes stage buffer
                  process := process.become (next result) }
        else some { pipes, process := process.become (next answer.result) }
      else some { pipes, process := process.become (next kIOError) }
  | .closeInput next => some { pipes, process := { process.become next with reads := false } }
  | .closeOutput next => some { pipes, process := { process.become next with writes := false } }
  | .fork program next =>
      some
        { pipes
          process := process.become next
          started := [{ process.become program with main := false }] }
  | .start program next =>
      some
        { pipes
          process := process.become next
          started := [{ process.become program with main := child }] }
  | .other next => some { pipes, process := process.become next }
  | .exit => some { pipes, process }

/-- A step of `ExecutePipelinedStages`. -/
def shellStep (stages : Stages σ) (answer : Answer) (state : State σ) : Option (State σ) :=
  match state.phase with
  | .before child stage =>
      if stage = stages.count then
        some { state with phase := if child then .before false 0 else .waiting 0 }
      else if stages.childStage stage = child then
        some { state with phase := .inStage child stage { state := stages.program stage } }
      else some { state with phase := .before child (stage + 1) }
  | .inStage child stage process =>
      match stages.act process.state with
      | .exit => some ({ state with phase := .before child (stage + 1) }.releaseFor stage)
      | _ =>
          (perform stages child stage answer state.pipes process).map fun performed =>
            { state with
              phase := .inStage child stage performed.process
              pipes := performed.pipes }.setProcesses stage
                (state.processes stage ++ performed.started)
  | .waiting stage =>
      if stage = stages.count then some { state with phase := .done }
      else if (state.processes stage).any (·.main) then none
      else some { state with phase := .waiting (stage + 1) }
  | .done => none

/-- A step of the program at an index among those of a stage. -/
def processStep (stages : Stages σ) (stage index : Nat) (answer : Answer) (state : State σ) :
    Option (State σ) :=
  match (state.processes stage)[index]? with
  | none => none
  | some process =>
      match stages.act process.state with
      | .exit => some (state.setProcesses stage ((state.processes stage).eraseIdx index))
      | _ =>
          (perform stages false stage answer state.pipes process).map fun performed =>
            { state with pipes := performed.pipes }.setProcesses stage
              ((state.processes stage).set index performed.process ++ performed.started)

inductive Move where
  | shell (answer : Answer)
  | process (stage index : Nat) (answer : Answer)

def step (stages : Stages σ) (move : Move) (state : State σ) : Option (State σ) :=
  (match move with
    | .shell answer => shellStep stages answer state
    | .process stage index answer => processStep stages stage index answer state).map
    State.closeUnheld

def run (stages : Stages σ) : List Move → State σ → Option (State σ)
  | [], state => some state
  | move :: rest, state => (step stages move state).bind (run stages rest)

/-- The pipes are made, and no stage is started. -/
def Stages.initial (stages : Stages σ) : State σ where
  phase := .before true 0
  pipes := fun pipe => .create stages.capacity (stages.unbounded pipe)
  readEnds := fun pipe => decide (pipe + 1 < stages.count)
  writeEnds := fun pipe => decide (pipe + 1 < stages.count)
  processes := fun _ => []

end Passes

end Haisos.Hsh
