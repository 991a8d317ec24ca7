import Haisos.Hsh.Ast
import Haisos.Hsh.Expansion
import Haisos.StateExcept

/-!
# Redirections

`HshRedirection.cpp`, over a descriptor table and a file system that answer as
`IFileIO` does.
-/

namespace Haisos.Hsh

inductive OpenMode where
  | readOnly | writeCreateTruncate | writeCreateAppend | readWriteCreate
  deriving DecidableEq, Repr

inductive FileType where
  | file | dir | device
  deriving DecidableEq, Repr

inductive WriteResult where
  | written (count : Nat)
  | brokenPipe | interrupted | failed
  deriving DecidableEq, Repr

/--
`IFileIO`, for descriptors of type `D`: what it reads and changes is outside
the shell's state.  A negative result is `none` or `false`.
-/
structure FileIO (ω D : Type) where
  openFile : Text → OpenMode → ω → Option D × ω
  stat : Text → ω → Option FileType
  resolvePath : Text → ω → Text
  getDescriptor : Nat → ω → Option D
  addDescriptor : D → ω → Option Nat × ω
  dup2 : Nat → Nat → ω → Bool × ω
  closeDescriptor : Nat → ω → ω
  createPipe : Nat → ω → Option (Nat × Nat) × ω
  write : D → Text → ω → WriteResult × ω
  getCurrentDirectory : ω → Text
  changeDirectory : Text → ω → ω

def standardInput : Nat := 0
def standardOutput : Nat := 1
def standardError : Nat := 2

variable {ω D : Type}

def look {α : Type} (f : ω → α) : Walk ω α := do pure (f (← get).outside)

def perform {α : Type} (f : ω → α × ω) : Walk ω α :=
  modifyGet fun world => ((f world.outside).1, { world with outside := (f world.outside).2 })

def virtualParentOf (path : Text) : Text :=
  match (path.reverse.dropWhile (· ≠ '/')).drop 1 with
  | [] => ['/']
  | parent => parent.reverse

section

variable (io : FileIO ω D)

def openFailureReason (path : Text) (creating : Bool) (outside : ω) : Text :=
  if path.isEmpty then
    if creating then text "Directory nonexistent" else text "No such file"
  else
    match io.stat path outside with
    | some .dir => text "Is a directory"
    | some _ => text "Permission denied"
    | none =>
        if !creating then text "No such file"
        else if io.stat (virtualParentOf (io.resolvePath path outside)) outside ≠ some .dir then
          text "Directory nonexistent"
        else text "Permission denied"

/-- `false` when the table is full. -/
def placeDescriptor (fd : Nat) : Option D → Walk ω Bool
  | none => do
      perform fun outside => ((), io.closeDescriptor fd outside)
      pure true
  | some descriptor => do
      match ← perform (io.addDescriptor descriptor) with
      | none => pure false
      | some slot =>
          if slot = fd then pure true
          else do
            let placed ← perform (io.dup2 slot fd)
            perform fun outside => ((), io.closeDescriptor slot outside)
            pure placed

/-- `m_saved`: the slots a scope has changed, the latest first, with what they held. -/
abbrev SavedSlots (D : Type) := List (Nat × Option D)

/-- `RestoreFrom`, with the slots to put back. -/
def restoreSlots (saved : SavedSlots D) : Walk ω Unit :=
  forM saved fun slot => do
    let _ ← placeDescriptor io slot.1 slot.2

/-- `Save`: a slot is kept once in a call of `Apply`. -/
def saveSlot (fd : Nat) (saved : SavedSlots D) : Walk ω (SavedSlots D) := do
  if saved.any (·.1 = fd) then pure saved
  else pure ((fd, ← look (io.getDescriptor fd)) :: saved)

/-- What an application of a redirection comes to: the error to report, if any, and the slots. -/
abbrev Applied (D : Type) := Option Text × SavedSlots D

def tooManyOpenFiles (fd : Nat) : Text := natText fd ++ text ": Too many open files"

/-- Saves slot `fd` and places `descriptor` in it. -/
def saveAndPlace (fd : Nat) (descriptor : D) (saved : SavedSlots D) : Walk ω (Applied D) := do
  let saved ← saveSlot io fd saved
  if ← placeDescriptor io fd (some descriptor) then pure (none, saved)
  else pure (some (tooManyOpenFiles fd), saved)

def openAndPlace (fd : Nat) (target : Text) (mode : OpenMode) (clobberCheck : Bool)
    (saved : SavedSlots D) : Walk ω (Applied D) := do
  let noclobber := clobberCheck && (← getState).options.noclobber
  if noclobber && (← look (io.stat target)) = some .file then
    pure (some (text "cannot create " ++ target ++ text ": File exists"), saved)
  else
    match ← perform (io.openFile target mode) with
    | none =>
        let reason ← look (openFailureReason io target true)
        pure (some (text "cannot create " ++ target ++ text ": " ++ reason), saved)
    | some descriptor => saveAndPlace io fd descriptor saved

/-- The write loop of `PipeInput`: any failure ends it. -/
def writeAll (descriptor : D) : Nat → Text → Walk ω Unit
  | 0, rest => if rest.isEmpty then pure () else throw .outOfFuel
  | fuel + 1, rest =>
      if rest.isEmpty then pure ()
      else do
        match ← perform (io.write descriptor rest) with
        | .written count => writeAll descriptor fuel (rest.drop count)
        | _ => pure ()

def pipeInput (fd : Nat) (input : Text) (saved : SavedSlots D) : Walk ω (Applied D) := do
  let saved ← saveSlot io fd saved
  match ← perform (io.createPipe (max input.length 1)) with
  | none => pure (some (text "Pipe call failed"), saved)
  | some (readSlot, writeSlot) => do
      let readEnd ← look (io.getDescriptor readSlot)
      let writeEnd ← look (io.getDescriptor writeSlot)
      perform fun outside => ((), io.closeDescriptor readSlot outside)
      perform fun outside => ((), io.closeDescriptor writeSlot outside)
      if let some writeEnd := writeEnd then writeAll io writeEnd input.length input
      if ← placeDescriptor io fd readEnd then pure (none, saved)
      else pure (some (tooManyOpenFiles fd), saved)

/-- `DupInput` and `DupOutput`, which are handled alike. -/
def duplicate (fd : Nat) (target : Text) (saved : SavedSlots D) : Walk ω (Applied D) := do
  if target = ['-'] then
    let saved ← saveSlot io fd saved
    perform fun outside => ((), io.closeDescriptor fd outside)
    pure (none, saved)
  else
    match target with
    | [digit] =>
        if !isDigit digit then raise (text "Syntax error: Bad fd number")
        else
          let source := digit.toNat - '0'.toNat
          if (← look (io.getDescriptor source)).isNone then
            pure (some (natText source ++ text ": Bad file descriptor"), saved)
          else if source = fd then pure (none, saved)
          else
            let saved ← saveSlot io fd saved
            let _ ← perform (io.dup2 source fd)
            pure (none, saved)
    | _ => raise (text "Syntax error: Bad fd number")

variable (host : Host ω)

/-- The document of a redirection of kind `hereDoc`. -/
def hereDocBody (redirection : Redirection HereDocument) : Walk ω Text :=
  match redirection.hereDoc with
  | some hereDoc => expandHereDocument host hereDoc
  | none => pure []

def applyOne (redirection : Redirection HereDocument) (saved : SavedSlots D) :
    Walk ω (Applied D) := do
  let fd := redirection.fd
  match redirection.kind with
  | .input => do
      let target ← expandToString host redirection.target
      match ← perform (io.openFile target .readOnly) with
      | none =>
          let reason ← look (openFailureReason io target false)
          pure (some (text "cannot open " ++ target ++ text ": " ++ reason), saved)
      | some descriptor => saveAndPlace io fd descriptor saved
  | .output => do
      let target ← expandToString host redirection.target
      openAndPlace io fd target .writeCreateTruncate true saved
  | .outputAndError => do
      let target ← expandToString host redirection.target
      match ← openAndPlace io fd target .writeCreateTruncate true saved with
      | (some error, saved) => pure (some error, saved)
      | (none, saved) => do
          let saved ← saveSlot io standardError saved
          let _ ← perform (io.dup2 fd standardError)
          pure (none, saved)
  | .outputClobber => do
      let target ← expandToString host redirection.target
      openAndPlace io fd target .writeCreateTruncate false saved
  | .append => do
      let target ← expandToString host redirection.target
      openAndPlace io fd target .writeCreateAppend false saved
  | .readWrite => do
      let target ← expandToString host redirection.target
      openAndPlace io fd target .readWriteCreate false saved
  | .dupInput | .dupOutput => do
      let target ← expandToString host redirection.target
      duplicate io fd target saved
  | .hereDoc => do
      let body ← hereDocBody host redirection
      pipeInput io fd body saved
  | .hereString => do
      let target ← expandToString host redirection.target
      pipeInput io fd (target ++ ['\n']) saved

/--
`Apply`.  On an error what was applied is undone; on an exception it is undone
too, by the scope's destructor.
-/
def applyRedirections : List (Redirection HereDocument) → SavedSlots D → Walk ω (Applied D)
  | [], saved => pure (none, saved)
  | redirection :: rest, saved => do
      let applied ← tryCatch (applyOne io host redirection saved) fun failure => do
        restoreSlots io saved
        throw failure
      match applied with
      | (some error, saved) => do
          restoreSlots io saved
          pure (some error, [])
      | (none, saved) => applyRedirections rest saved

end

end Haisos.Hsh
