import Haisos.Hsh.Redirection

/-!
# The stages of a pipeline

Which stages `Shell::ExecutePipelinedStages` takes for programs, and the pipes
between them, over an operating system.
-/

namespace Haisos.Hsh

structure ShellBuiltin where
  name : Text
  special : Bool
  deriving DecidableEq, Repr

def shellBuiltins : List ShellBuiltin :=
  [⟨text ".", true⟩, ⟨text ":", true⟩, ⟨text "[", false⟩, ⟨text "break", true⟩,
    ⟨text "cd", false⟩, ⟨text "continue", true⟩, ⟨text "eval", true⟩, ⟨text "exec", true⟩,
    ⟨text "exit", true⟩, ⟨text "export", true⟩, ⟨text "false", false⟩, ⟨text "read", false⟩,
    ⟨text "readonly", true⟩, ⟨text "return", true⟩, ⟨text "set", true⟩, ⟨text "shift", true⟩,
    ⟨text "test", false⟩, ⟨text "true", false⟩, ⟨text "unset", true⟩, ⟨text "wait", false⟩]

def findShellBuiltin (name : Text) : Option ShellBuiltin := shellBuiltins.find? (·.name = name)

/-! ## Which stages are programs -/

mutual

def holdsCommandSubstitution : WordPart → Bool
  | .literal _ | .quoted _ => false
  | .commandSubstitution _ _ _ => true
  | .doubleQuoted parts | .arithmetic parts => partsHoldCommandSubstitution parts
  | .parameter _ _ operand => partsHoldCommandSubstitution operand

def partsHoldCommandSubstitution : List WordPart → Bool
  | [] => false
  | part :: parts => holdsCommandSubstitution part || partsHoldCommandSubstitution parts

end

/-- `IsChildStage`, for a function table that holds the names of `hasFunction`. -/
def isChildStage {τ : Type} (hasFunction : Text → Bool) : Command HereDocument τ → Bool
  | .simple simple =>
      match simple.words with
      | [] => false
      | first :: _ =>
          !simple.words.any (partsHoldCommandSubstitution ·.parts) &&
          !simple.assignments.any (partsHoldCommandSubstitution ·.value.parts) &&
          !simple.redirections.any (partsHoldCommandSubstitution ·.target.parts) &&
          match first.literalText with
          | none => false
          | some name => (findShellBuiltin name).isNone && !hasFunction name
  | _ => false

theorem isChildStage_simple {τ : Type} {hasFunction : Text → Bool}
    {command : SimpleCommand HereDocument}
    (h : isChildStage hasFunction (.simple command : Command HereDocument τ) = true) :
    (∃ first rest, command.words = first :: rest ∧ first.literalText.isSome) ∧
      command.words.any (partsHoldCommandSubstitution ·.parts) = false ∧
      command.assignments.any (partsHoldCommandSubstitution ·.value.parts) = false ∧
      command.redirections.any (partsHoldCommandSubstitution ·.target.parts) = false := by
  rw [isChildStage] at h
  cases hwords : command.words with
  | nil =>
      rw [hwords] at h
      cases h
  | cons first rest =>
      simp only [hwords, Bool.and_eq_true, Bool.not_eq_true'] at h
      refine ⟨⟨first, rest, rfl, ?_⟩, h.1.1.1, h.1.1.2, h.1.2⟩
      cases hliteral : first.literalText with
      | none =>
          rw [hliteral] at h
          cases h.2
      | some name => rfl

/-! ## The operating system -/

/-- What a process is given besides its files, for processes of type `P`. -/
structure OperatingSystem (ω D P : Type) extends FileIO ω D where
  stopRequested : ω → Bool
  createUnboundedPipe : ω → (D × D) × ω
  release : Option D → ω → ω
  startProcess : Text → List Text → List (Text × Text) → ShellState → ω → Option P × ω

def maxDescriptors : Nat := 1024

inductive CommandLookup where
  | found (path : Text)
  | notFound
  | notRunnable
  deriving DecidableEq, Repr

variable {ω D P : Type}

def formatShellError (shellName : Text) (line : Nat) (message : Text) : Text :=
  shellName ++ text ": " ++ natText line ++ text ": " ++ message ++ ['\n']

def exitCodeBrokenPipe : Int := 141

def noExec (state : ShellState) : Bool := state.options.noexec && !state.options.interactive

section

variable (os : OperatingSystem ω D P)

/-- The candidates of a `PATH` search, in order: an empty entry is the working directory. -/
def pathCandidates (path name : Text) : List Text :=
  (path.splitOn ':').map fun entry =>
    if entry.isEmpty then name
    else entry ++ (if entry.getLast? = some '/' then [] else ['/']) ++ name

def lookUpCommand (name : Text) (state : ShellState) (outside : ω) : CommandLookup :=
  if name.contains '/' then
    match os.stat name outside with
    | none => .notFound
    | some .dir => .notRunnable
    | some _ => .found (os.resolvePath name outside)
  else
    match state.vars.get (text "PATH") with
    | none => .notFound
    | some path =>
        let runnable (candidate : Text) : Bool :=
          match os.stat candidate outside with
          | none | some .dir => false
          | some _ => true
        match (pathCandidates path name).find? runnable with
        | none => .notFound
        | some candidate => .found (os.resolvePath candidate outside)

/-- The trace of `-x`: the assignments and the fields, joined by single spaces. -/
def traceLine (state : ShellState) (assignments : List (Text × Text)) (fields : List Text) : Text :=
  (state.vars.get (text "PS4")).getD [] ++
    joinWith [' '] (assignments.map (fun (name, value) => name ++ ['='] ++ value) ++ fields) ++ ['\n']

def isSpecialBuiltin (name : Text) : Bool :=
  match findShellBuiltin name with
  | some builtin => builtin.special
  | none => false

/-! ## The stages -/

/-- What `SubshellScope` puts back: the state, the working directory and the slots. -/
def restoreSubshell [DecidableEq D] (state : ShellState) (directory : Text)
    (slots : List (Nat × Option D)) : Walk ω Unit := do
  setState state
  perform fun outside => ((), os.changeDirectory directory outside)
  forM slots fun slot => do
    if (← look (os.getDescriptor slot.1)) ≠ slot.2 then
      let _ ← placeDescriptor os.toFileIO slot.1 slot.2

structure StagePipe (D : Type) where
  readEnd : Option D
  writeEnd : Option D

def createStagePipe (unbounded : Bool) : Walk ω (Option (StagePipe D)) := do
  if unbounded then
    let ends ← perform os.createUnboundedPipe
    pure (some ⟨some ends.1, some ends.2⟩)
  else
    match ← perform (os.createPipe 0) with
    | none => pure none
    | some (readSlot, writeSlot) => do
        let readEnd ← look (os.getDescriptor readSlot)
        let writeEnd ← look (os.getDescriptor writeSlot)
        perform fun outside => ((), os.closeDescriptor readSlot outside)
        perform fun outside => ((), os.closeDescriptor writeSlot outside)
        pure (some ⟨readEnd, writeEnd⟩)

/-- The pipes between the stages: `inShellBefore` when a stage so far runs in the shell. -/
def createStagePipes : Bool → List Bool → Walk ω (Option (List (StagePipe D)))
  | inShellBefore, childStage :: next :: rest => do
      let inShellBefore := inShellBefore || !childStage
      match ← createStagePipe os (!next && inShellBefore) with
      | none => pure none
      | some pipe => do
          match ← createStagePipes inShellBefore (next :: rest) with
          | none => pure none
          | some pipes => pure (some (pipe :: pipes))
  | _, _ => pure (some [])

end

end Haisos.Hsh
