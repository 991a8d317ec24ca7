import Haisos.Filesystem.Mountable
import Haisos.HaisosFile.Parser
import Haisos.StateExcept

/-!
# Setting a filesystem up

`HaisosFileOperations.cpp`: the operations of a haisosfile on the root
filesystem.  The filesystems an operation reaches are views of one state, each
given by its calls; every call that needs the time reads the clock once.
-/

namespace Haisos.HaisosFile

open Filesystem
open Hsh (Text text natText)

/-! ## Filesystems and their state -/

/-- An `IFileSystem` over the state `σ`, with what its open files `δ` do. -/
structure View (σ δ : Type) extends Operations σ δ where
  read : FileDateTime → δ → Nat → σ → Int × List UInt8 × δ × σ
  write : FileDateTime → δ → List UInt8 → σ → Int × δ × σ

/-- The state, and how often the clock has been read. -/
structure Disk (σ : Type) where
  state : σ
  ticks : Nat := 0

/-- `outReason` or `outError`; running out of fuel is the model's own. -/
inductive SetupFailure where
  | failed (reason : Text)
  | outOfFuel
  deriving DecidableEq, Repr

abbrev Setup (σ : Type) := ExceptT SetupFailure (StateM (Disk σ))

def fileOpenReadOnly : OpenFlags := {}

def fileOpenWriteCreateTruncate : OpenFlags :=
  { writeOnly := true, create := true, truncate := true }

def fileOpenWriteCreateAppend : OpenFlags :=
  { writeOnly := true, create := true, append := true }

/-- `S_IRUSR | S_IWUSR`. -/
def fileCreateMode : Nat := 0o600

/-- `S_IRWXU`. -/
def directoryCreateMode : Nat := 0o700

def copyChunkSize : Nat := 64 * 1024

/-- The bytes of a `std::string`. -/
def bytesOf (content : Text) : List UInt8 := content.map fun c => UInt8.ofNat c.toNat

section

variable {σ δ δ' : Type} (clock : Nat → FileDateTime)

def giveUp {α : Type} (reason : Text) : Setup σ α := throw (.failed reason)

def call {α : Type} (f : FileDateTime → σ → α × σ) : Setup σ α :=
  modifyGet fun disk =>
    let done := f (clock disk.ticks) disk.state
    (done.1, { state := done.2, ticks := disk.ticks + 1 })

def readFile (fs : View σ δ) (file : δ) (count : Nat) : Setup σ (Int × List UInt8 × δ) :=
  call clock fun now state =>
    let done := fs.read now file count state
    ((done.1, done.2.1, done.2.2.1), done.2.2.2)

def writeFile (fs : View σ δ) (file : δ) (buf : List UInt8) : Setup σ (Int × δ) :=
  call clock fun now state =>
    let done := fs.write now file buf state
    ((done.1, done.2.1), done.2.2)

def entryTypeOf (fs : View σ δ) (path : Text) : Setup σ (Option EntryType) := do
  pure ((fs.stat path (← get).state).map (·.type))

/-! ## Directories -/

/-- The segments that `std::getline` reads and that are not empty. -/
def pathSegments (path : Text) : List Text := (path.splitOn '/').filter (· ≠ [])

/-- The loop of `EnsureDirectories`, `current` being the directory it has come to. -/
def ensureBelow (fs : View σ δ) : Text → List Text → Setup σ Unit
  | _, [] => pure ()
  | current, segment :: segments => do
      let current := current ++ '/' :: segment
      match ← entryTypeOf fs current with
      | none => do
          let created ← call clock fun now => fs.createDirectory now current directoryCreateMode
          if created = 0 then ensureBelow fs current segments
          else giveUp (text "cannot create directory " ++ current)
      | some .dir => ensureBelow fs current segments
      | some _ => giveUp (current ++ text " is a file, not a directory")

def ensureDirectories (fs : View σ δ) (normalizedDirectory : Text) : Setup σ Unit :=
  ensureBelow clock fs [] (pathSegments normalizedDirectory)

def ensureParentDirectories (fs : View σ δ) (normalizedPath : Text) : Setup σ Unit :=
  ensureDirectories clock fs (virtualParentOf normalizedPath)

/-! ## Writing -/

/--
The loop of `WriteAll`, with the open file as it is after it.  Every round but a
failed one takes a byte at least, so `count` rounds are enough for `count` bytes.
-/
def writeRest (fs : View σ δ) : Nat → δ → List UInt8 → Setup σ (Bool × δ)
  | _, file, [] => pure (true, file)
  | 0, file, _ :: _ => pure (false, file)
  | rounds + 1, file, data => do
      let (n, file) ← writeFile clock fs file data
      if n ≤ 0 then pure (false, file) else writeRest fs rounds file (data.drop n.toNat)

def writeAll (fs : View σ δ) (file : δ) (data : List UInt8) : Setup σ (Bool × δ) :=
  writeRest clock fs data.length file data

def writeContent (fs : View σ δ) (normalizedPath : Text) (content : List UInt8) (append : Bool) :
    Setup σ Unit := do
  if (← entryTypeOf fs normalizedPath) = some .dir then giveUp (text "it is a directory")
  ensureParentDirectories clock fs normalizedPath
  let flags := if append then fileOpenWriteCreateAppend else fileOpenWriteCreateTruncate
  match ← call clock fun now => fs.openFile now normalizedPath flags (some fileCreateMode) with
  | none => giveUp (text "cannot open it for writing")
  | some file => do
      let written ← writeAll clock fs file content
      if written.1 then pure () else giveUp (text "writing to it failed")

/-! ## Copying -/

/-- The loop of `CopyFileBetween`. -/
def copyChunks (source : View σ δ) (destination : View σ δ') : Nat → δ → δ' → Setup σ Bool
  | 0, _, _ => throw .outOfFuel
  | fuel + 1, input, output => do
      let (n, chunk, input) ← readFile clock source input copyChunkSize
      if n = 0 then pure true
      else if n < 0 then pure false
      else do
        let (written, output) ← writeAll clock destination output chunk
        if written then copyChunks source destination fuel input output else pure false

def sourceRefusal (type : Option EntryType) : Option Text :=
  match type with
  | none => some (text "the source does not exist")
  | some .file => none
  | some .dir => some (text "the source is a directory; only files can be copied")
  | some .charDevice => some (text "the source is a device; only files can be copied")

def copyFileBetween (fuel : Nat) (source : View σ δ) (fromPath : Text) (destination : View σ δ')
    (toPath : Text) : Setup σ Unit := do
  match sourceRefusal (← entryTypeOf source fromPath) with
  | some reason => giveUp reason
  | none => do
      if (← entryTypeOf destination toPath) = some .dir then
        giveUp (text "the destination is a directory")
      ensureParentDirectories clock destination toPath
      match ← call clock fun now => source.openFile now fromPath fileOpenReadOnly none with
      | none => giveUp (text "cannot open the source for reading")
      | some input => do
          match ← call clock fun now =>
            destination.openFile now toPath fileOpenWriteCreateTruncate (some fileCreateMode) with
          | none => giveUp (text "cannot open the destination for writing")
          | some output => do
              if ← copyChunks clock source destination fuel input output then pure ()
              else giveUp (text "copying the data failed")

/-! ## Removing -/

/-- `RemoveTree`: a directory goes after everything beneath it. -/
def removeTree (fs : View σ δ) : Nat → Text → Setup σ Unit
  | 0, _ => throw .outOfFuel
  | fuel + 1, normalizedPath => do
      let removeFile := call clock fun now => fs.removeFile now normalizedPath
      let removeDirectory := call clock fun now => fs.removeDirectory now normalizedPath
      if (← entryTypeOf fs normalizedPath) = some .dir then do
        let entries := fs.readDirectory normalizedPath (← get).state
        (entries.filter fun entry => !MountableFileSystem.isDotEntry entry).forM fun entry =>
          removeTree fs fuel (normalizedPath ++ '/' :: entry.name)
        if (← removeDirectory) ≠ 0 then do
          if (← removeFile) ≠ 0 then giveUp (text "cannot remove directory " ++ normalizedPath)
      else do
        if (← removeFile) ≠ 0 then do
          if (← removeDirectory) ≠ 0 then giveUp (text "cannot remove file " ++ normalizedPath)

/-! ## The operations -/

structure HostFile where
  directory : Text
  nameInDirectory : Text
  deriving DecidableEq, Repr

/-- What the operations that reach the host, or place a builtin, need besides the root. -/
structure Outside (σ δ' : Type) where
  /-- `PlaceBuiltin`. -/
  placeBuiltin : HaisosFileOperation → Setup σ Unit
  /-- `ResolveHostFile`. -/
  resolveHostFile : Text → Except Text HostFile
  /-- `std::filesystem::create_directories`: its error, if it has one. -/
  createDirectories : Text → σ → Option Text × σ
  /-- `CreatePhysicalFileSystem`. -/
  physicalFileSystem : Text → View σ δ'

def directiveName : HaisosFileOperationType → Text
  | .create => text "CREATE"
  | .append => text "APPEND"
  | .createDir => text "CREATE_DIR"
  | .builtin => text "BUILTIN"
  | .copy => text "COPY"
  | .delete => text "DELETE"
  | .outCopy => text "OUTCOPY"

def hostFileOf (outside : Outside σ δ') (hostPath : Text) : Setup σ HostFile :=
  match outside.resolveHostFile hostPath with
  | .ok host => pure host
  | .error reason => giveUp reason

def applyOne (fuel : Nat) (root : View σ δ) (outside : Outside σ δ')
    (operation : HaisosFileOperation) : Setup σ Unit := do
  let path := normalizeVirtualPath operation.path
  match operation.type with
  | .createDir => ensureDirectories clock root path
  | .builtin => outside.placeBuiltin operation
  | .create | .append =>
      if path = ['/'] then giveUp (text "the root is a directory")
      else
        writeContent clock root path (bytesOf operation.content)
          (decide (operation.type = .append))
  | .delete =>
      if path = ['/'] then giveUp (text "the root directory cannot be deleted")
      else do
        if (← entryTypeOf root path) = none then giveUp (text "it does not exist")
        removeTree clock root fuel path
  | .copy => do
      let host ← hostFileOf outside operation.hostPath
      copyFileBetween clock fuel (outside.physicalFileSystem host.directory) host.nameInDirectory
        root path
  | .outCopy => do
      let host ← hostFileOf outside operation.hostPath
      match ← call clock fun _ => outside.createDirectories host.directory with
      | some error =>
          giveUp (text "cannot create host directory " ++ host.directory ++ text ": " ++ error)
      | none =>
          copyFileBetween clock fuel root path (outside.physicalFileSystem host.directory)
            host.nameInDirectory

/-- `outError`. -/
def operationError (operation : HaisosFileOperation) (reason : Text) : Text :=
  text "Error: line " ++ natText operation.lineNumber ++ text ": " ++
    directiveName operation.type ++ [' '] ++ operation.path ++
    (if operation.hostPath = [] then [] else text " (host: " ++ operation.hostPath ++ [')']) ++
    text " failed: " ++ reason ++ ['\n']

/-- The operations one after the other, up to the first that fails. -/
def applyHaisosFileOperations (fuel : Nat) (root : View σ δ) (outside : Outside σ δ') :
    List HaisosFileOperation → Setup σ Unit
  | [] => pure ()
  | operation :: operations => do
      tryCatch (applyOne clock fuel root outside operation) fun
        | .failed reason => giveUp (operationError operation reason)
        | .outOfFuel => throw .outOfFuel
      applyHaisosFileOperations fuel root outside operations

end

end Haisos.HaisosFile
