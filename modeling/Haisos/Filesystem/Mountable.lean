import Haisos.Filesystem.InMemory
import Haisos.Filesystem.MountPoints

/-!
# Filesystems that others can be mounted in

`MountableFileSystem.cpp`: every operation asks its own builtins first, then the
mount table, then what the subclass implements.  The subclass, and a mounted
filesystem, are given by their operations on the state they keep.
-/

namespace Haisos.Filesystem

open Hsh (Text text)

/-- The operations of an `IFileSystem` that keeps its state in `σ` and opens files `δ`. -/
structure Operations (σ δ : Type*) where
  openFile : FileDateTime → Text → OpenFlags → Option Nat → σ → Option δ × σ
  createDirectory : FileDateTime → Text → Nat → σ → Int × σ
  removeDirectory : FileDateTime → Text → σ → Int × σ
  removeFile : FileDateTime → Text → σ → Int × σ
  readDirectory : Text → σ → List DirectoryEntry
  stat : Text → σ → Option FileStatus
  isBuiltinCommand : Text → σ → Option Text

/-- What a subclass implements: the `Local` operations, and the two it answers itself. -/
structure LocalOperations (σ δ : Type*) extends Operations σ δ where
  absolutePathFor : Text → Text
  canHoldBuiltinCommands : Bool := true

/-- `InMemoryFileSystem` as a subclass; it has no builtins but its own. -/
def inMemory : LocalOperations InMemoryFileSystem InMemoryFileDescriptor where
  openFile now path flags _ fs := fs.localOpenFile now path flags
  createDirectory now path _ fs := fs.localCreateDirectory now path
  removeDirectory now path fs := fs.localRemoveDirectory now path
  removeFile now path fs := fs.localRemoveFile now path
  readDirectory path fs := fs.localReadDirectory path
  stat path fs := fs.localStat path
  isBuiltinCommand _ _ := none
  absolutePathFor := InMemoryFileSystem.absolutePathFor

structure Builtin where
  name : Text
  placedTime : FileDateTime
  deriving DecidableEq, Repr

def builtinCommandFileContent (builtinName : Text) : Text :=
  text "This is the HaisosOS builtin command " ++ builtinName ++
    text ". This file can be read if you have permissions but you cannot write it, nor delete the FS directory containing it."

/-- The open file of a builtin command: its note text, read from a position. -/
structure BuiltinCommandFile where
  content : Text
  position : Nat := 0
  deriving DecidableEq, Repr

/-- An open file, by what serves it. -/
inductive OpenedFile (δ δ' : Type*) where
  | builtin (file : BuiltinCommandFile)
  | own (file : δ)
  | mounted (file : δ')

/-- `content` is the subclass's own state. -/
structure MountableFileSystem (σ ω δ' : Type*) where
  mounts : List (MountEntry (Operations ω δ')) := []
  builtins : AList (fun _ : Text => Builtin) := ∅
  content : σ

namespace MountableFileSystem

variable {σ ω δ δ' : Type*}

/-- `IsAtOrUnder` of `MountableFileSystem.cpp`. -/
def isAtOrUnder (path directory : Text) : Bool :=
  if directory = ['/'] ∨ path = directory then true
  else decide (path.length > directory.length) && startsWith path directory &&
    path[directory.length]? == some '/'

def ownBuiltinAt (fs : MountableFileSystem σ ω δ') (absolute : Text) : Option Text :=
  (fs.builtins.lookup absolute).map (·.name)

def hasOwnBuiltinAtOrUnder (fs : MountableFileSystem σ ω δ') (absolute : Text) : Bool :=
  fs.builtins.keys.any fun path => isAtOrUnder path absolute

def resolve (fs : MountableFileSystem σ ω δ') (absolute : Text) :
    Option (Route (Operations ω δ')) :=
  MountPoints.resolve fs.mounts absolute

/-- The listing with the builtins of `absolute` not yet listed added to it. -/
def addOwnBuiltinEntries (absolute : Text) :
    List Text → List DirectoryEntry → List DirectoryEntry
  | [], entries => entries
  | path :: rest, entries =>
      if virtualParentOf path ≠ absolute then addOwnBuiltinEntries absolute rest entries
      else if entries.any fun entry => entry.name = virtualLastSegment path then
        addOwnBuiltinEntries absolute rest entries
      else
        addOwnBuiltinEntries absolute rest
          (entries ++ [⟨virtualLastSegment path, .file⟩])

/-- The listing with the segments not yet listed added to it as directories. -/
def addSegments : List Text → List DirectoryEntry → List DirectoryEntry
  | [], entries => entries
  | segment :: rest, entries =>
      if entries.any fun entry => entry.name = segment then addSegments rest entries
      else addSegments rest (entries ++ [⟨segment, .dir⟩])

def isDotEntry (entry : DirectoryEntry) : Bool :=
  entry.name = ['.'] || entry.name = ['.', '.']

section
variable (self : LocalOperations σ δ)

def withContent {α : Type*} (fs : MountableFileSystem σ ω δ') (world : ω)
    (result : α × σ) : α × MountableFileSystem σ ω δ' × ω :=
  (result.1, { fs with content := result.2 }, world)

def withWorld {α : Type*} (fs : MountableFileSystem σ ω δ') (result : α × ω) :
    α × MountableFileSystem σ ω δ' × ω :=
  (result.1, fs, result.2)

def mount (fs : MountableFileSystem σ ω δ') (now : FileDateTime) (whereToMount : Text)
    (toBeMounted : Option (Operations ω δ')) : MountableFileSystem σ ω δ' :=
  { fs with
    mounts := MountPoints.mount fs.mounts now (self.absolutePathFor whereToMount) toBeMounted }

def unmount (fs : MountableFileSystem σ ω δ') (mountedPath : Text) :
    MountableFileSystem σ ω δ' :=
  { fs with mounts := MountPoints.unmount fs.mounts (self.absolutePathFor mountedPath) }

def openFile (fs : MountableFileSystem σ ω δ') (now : FileDateTime) (pathname : Text)
    (flags : OpenFlags) (mode : Option Nat) (world : ω) :
    Option (OpenedFile δ δ') × MountableFileSystem σ ω δ' × ω :=
  let absolute := self.absolutePathFor pathname
  match fs.ownBuiltinAt absolute with
  | some builtin =>
      if requestsWriteAccess flags then (none, fs, world)
      else (some (.builtin { content := builtinCommandFileContent builtin }), fs, world)
  | none =>
      match fs.resolve absolute with
      | some route =>
          let opened := route.filesystem.openFile now route.innerPath flags mode world
          fs.withWorld (opened.1.map .mounted, opened.2)
      | none =>
          let opened := self.openFile now pathname flags mode fs.content
          fs.withContent world (opened.1.map .own, opened.2)

def createDirectory (fs : MountableFileSystem σ ω δ') (now : FileDateTime) (pathname : Text)
    (mode : Nat) (world : ω) : Int × MountableFileSystem σ ω δ' × ω :=
  let absolute := self.absolutePathFor pathname
  if (fs.ownBuiltinAt absolute).isSome then (-1, fs, world)
  else
    match fs.resolve absolute with
    | some route =>
        fs.withWorld (route.filesystem.createDirectory now route.innerPath mode world)
    | none => fs.withContent world (self.createDirectory now pathname mode fs.content)

def removeDirectory (fs : MountableFileSystem σ ω δ') (now : FileDateTime) (pathname : Text)
    (world : ω) : Int × MountableFileSystem σ ω δ' × ω :=
  let absolute := self.absolutePathFor pathname
  -- the mount that serves the directory knows nothing of the builtins in it
  if fs.hasOwnBuiltinAtOrUnder absolute then (-1, fs, world)
  else
    match fs.resolve absolute with
    | some route => fs.withWorld (route.filesystem.removeDirectory now route.innerPath world)
    | none => fs.withContent world (self.removeDirectory now pathname fs.content)

def removeFile (fs : MountableFileSystem σ ω δ') (now : FileDateTime) (pathname : Text)
    (world : ω) : Int × MountableFileSystem σ ω δ' × ω :=
  let absolute := self.absolutePathFor pathname
  if (fs.ownBuiltinAt absolute).isSome then (-1, fs, world)
  else
    match fs.resolve absolute with
    | some route => fs.withWorld (route.filesystem.removeFile now route.innerPath world)
    | none => fs.withContent world (self.removeFile now pathname fs.content)

def stat (fs : MountableFileSystem σ ω δ') (path : Text) (world : ω) : Option FileStatus :=
  let absolute := self.absolutePathFor path
  match fs.builtins.lookup absolute with
  | some builtin =>
      some
        { type := .file
          size := (builtinCommandFileContent builtin.name).length
          linkCount := 1
          accessTime := builtin.placedTime
          modificationTime := builtin.placedTime
          changeTime := builtin.placedTime }
  | none =>
      match fs.resolve absolute with
      | some route => route.filesystem.stat route.innerPath world
      | none =>
          match self.stat path fs.content with
          | some status => some status
          | none =>
              -- a directory on the way down to a mount point
              (MountPoints.latestMountTimeBelow fs.mounts absolute).map fun mountedAt =>
                { type := .dir
                  linkCount := 2 + (MountPoints.childSegments fs.mounts absolute).length
                  accessTime := mountedAt
                  modificationTime := mountedAt
                  changeTime := mountedAt }

/-- What is at a path, as `EntryTypeOf` of `FilesystemUtils.h` asks `Stat`. -/
def entryTypeOf (fs : MountableFileSystem σ ω δ') (path : Text) (world : ω) :
    Option EntryType :=
  (fs.stat self path world).map (·.type)

def putDotEntriesFirst (fs : MountableFileSystem σ ω δ') (path : Text) (world : ω)
    (entries : List DirectoryEntry) : List DirectoryEntry :=
  let hadDots := entries.any isDotEntry
  let others := entries.filter fun entry => !isDotEntry entry
  -- an empty listing may be of no directory at all
  if !hadDots && others.isEmpty && fs.entryTypeOf self path world ≠ some .dir then others
  else ⟨['.'], .dir⟩ :: ⟨['.', '.'], .dir⟩ :: others

/-- The entries of a directory before the builtins in it and the dots. -/
def servedEntries (fs : MountableFileSystem σ ω δ') (path : Text) (world : ω) :
    List DirectoryEntry :=
  let absolute := self.absolutePathFor path
  match fs.resolve absolute with
  | some route => route.filesystem.readDirectory route.innerPath world
  | none =>
      addSegments (MountPoints.childSegments fs.mounts absolute)
        (self.readDirectory path fs.content)

def readDirectory (fs : MountableFileSystem σ ω δ') (path : Text) (world : ω) :
    List DirectoryEntry :=
  let absolute := self.absolutePathFor path
  fs.putDotEntriesFirst self path world
    (addOwnBuiltinEntries absolute fs.builtins.keys (fs.servedEntries self path world))

def addBuiltinCommand (fs : MountableFileSystem σ ω δ') (now : FileDateTime) (path : Text)
    (builtinName : Text) : Int × MountableFileSystem σ ω δ' :=
  let absolute := self.absolutePathFor path
  if absolute = ['/'] ∨ builtinName = [] ∨ self.canHoldBuiltinCommands = false then (-1, fs)
  else if (fs.builtins.lookup absolute).isSome then (-1, fs)
  else (0, { fs with builtins := fs.builtins.insert absolute ⟨builtinName, now⟩ })

def removeBuiltinCommand (fs : MountableFileSystem σ ω δ') (path : Text) :
    Int × MountableFileSystem σ ω δ' :=
  let absolute := self.absolutePathFor path
  if (fs.builtins.lookup absolute).isSome then
    (0, { fs with builtins := fs.builtins.erase absolute })
  else (-1, fs)

def isBuiltinCommand (fs : MountableFileSystem σ ω δ') (path : Text) (world : ω) :
    Option Text :=
  let absolute := self.absolutePathFor path
  match fs.ownBuiltinAt absolute with
  | some own => some own
  | none =>
      match fs.resolve absolute with
      | some route => route.filesystem.isBuiltinCommand route.innerPath world
      | none => self.isBuiltinCommand path fs.content

/-- The filesystem as what may be mounted in another one. -/
def operations : Operations (MountableFileSystem σ ω δ' × ω) (OpenedFile δ δ') where
  openFile now path flags mode s := s.1.openFile self now path flags mode s.2
  createDirectory now path mode s := s.1.createDirectory self now path mode s.2
  removeDirectory now path s := s.1.removeDirectory self now path s.2
  removeFile now path s := s.1.removeFile self now path s.2
  readDirectory path s := s.1.readDirectory self path s.2
  stat path s := s.1.stat self path s.2
  isBuiltinCommand path s := s.1.isBuiltinCommand self path s.2

end

/-- `BuiltinCommandFileDescriptor::Read`; a write always fails. -/
def readBuiltin (file : BuiltinCommandFile) (count : Nat) :
    Int × Text × BuiltinCommandFile :=
  let toCopy := min count (file.content.length - file.position)
  (toCopy, (file.content.drop file.position).take toCopy,
    { file with position := file.position + toCopy })

end MountableFileSystem

end Haisos.Filesystem
