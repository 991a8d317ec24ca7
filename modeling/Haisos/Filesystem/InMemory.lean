import Mathlib.Data.List.AList
import Haisos.DescriptorTable
import Haisos.RingBuffer
import Haisos.Filesystem.Status
import Haisos.Filesystem.VirtualPath

/-!
# The in-memory filesystem

`InMemoryFileSystem.cpp`: nodes under their normalized paths, and descriptors that
hold a path and look the node up at every call.  Each operation is given the time
it reads from the clock.
-/

namespace Haisos.Filesystem

open Hsh (Text text)

structure Node where
  isDirectory : Bool := false
  data : List UInt8 := []
  accessTime : FileDateTime
  modificationTime : FileDateTime
  changeTime : FileDateTime
  deriving DecidableEq, Repr

namespace Node

def make (isDirectory : Bool) (now : FileDateTime) : Node :=
  { isDirectory := isDirectory, accessTime := now, modificationTime := now, changeTime := now }

def modified (node : Node) (now : FileDateTime) : Node :=
  { node with modificationTime := now, changeTime := now }

def type (node : Node) : EntryType := if node.isDirectory then .dir else .file

end Node

abbrev Nodes := AList fun _ : Text => Node

structure InMemoryFileSystem where
  nodes : Nodes

/-- An open file: a path, not a node. -/
structure InMemoryFileDescriptor where
  path : Text
  position : Nat := 0
  writable : Bool
  readable : Bool
  append : Bool
  deriving DecidableEq, Repr

abbrev parentOf (normalizedPath : Text) : Text := virtualParentOf normalizedPath

abbrev lastSegment (normalizedPath : Text) : Text := virtualLastSegment normalizedPath

namespace InMemoryFileDescriptor

def make (normalizedPath : Text) (flags : OpenFlags) : InMemoryFileDescriptor :=
  { path := normalizedPath
    writable := flags.writeOnly || flags.readWrite
    readable := !flags.writeOnly
    append := flags.append }

end InMemoryFileDescriptor

namespace InMemoryFileSystem

def create (now : FileDateTime) : InMemoryFileSystem :=
  ⟨AList.insert ['/'] (Node.make true now) ∅⟩

def touchDirectory (fs : InMemoryFileSystem) (now : FileDateTime) (normalizedPath : Text) :
    InMemoryFileSystem :=
  match fs.nodes.lookup normalizedPath with
  | none => fs
  | some node => ⟨fs.nodes.insert normalizedPath (node.modified now)⟩

/-- Whether `parentOf normalized` is a directory that can hold a new entry. -/
def parentIsDirectory (fs : InMemoryFileSystem) (normalized : Text) : Bool :=
  match fs.nodes.lookup (parentOf normalized) with
  | none => false
  | some node => node.isDirectory

def emplace (fs : InMemoryFileSystem) (now : FileDateTime) (normalized : Text)
    (isDirectory : Bool) : InMemoryFileSystem :=
  touchDirectory ⟨fs.nodes.insert normalized (Node.make isDirectory now)⟩ now
    (parentOf normalized)

def eraseNode (fs : InMemoryFileSystem) (now : FileDateTime) (normalized : Text) :
    InMemoryFileSystem :=
  touchDirectory ⟨fs.nodes.erase normalized⟩ now (parentOf normalized)

def localOpenFile (fs : InMemoryFileSystem) (now : FileDateTime) (pathname : Text)
    (flags : OpenFlags) : Option InMemoryFileDescriptor × InMemoryFileSystem :=
  let normalized := normalizeVirtualPath pathname
  match fs.nodes.lookup normalized with
  | some node =>
      if node.isDirectory then (none, fs)
      else
        let opened :=
          if flags.truncate then
            ⟨fs.nodes.insert normalized ({ node with data := [] }.modified now)⟩
          else fs
        (some (.make normalized flags), opened)
  | none =>
      if !flags.create then (none, fs)
      else if !fs.parentIsDirectory normalized then (none, fs)
      else (some (.make normalized flags), fs.emplace now normalized false)

/-- The result, the bytes read, the new position and the filesystem. -/
def readAt (fs : InMemoryFileSystem) (now : FileDateTime) (normalizedPath : Text)
    (position count : Nat) : Int × List UInt8 × Nat × InMemoryFileSystem :=
  match fs.nodes.lookup normalizedPath with
  | none => (kIOError, [], position, fs)
  | some node =>
      if position ≥ node.data.length then (0, [], position, fs)
      else
        let toCopy := min count (node.data.length - position)
        (toCopy, (node.data.drop position).take toCopy, position + toCopy,
          ⟨fs.nodes.insert normalizedPath { node with accessTime := now }⟩)

/-- `data` with `buf` written at `position`, zeros filling a gap before it. -/
def written (data : List UInt8) (position : Nat) (buf : List UInt8) : List UInt8 :=
  let resized :=
    if position + buf.length > data.length then
      data ++ List.replicate (position + buf.length - data.length) 0
    else data
  RingBuffer.overwrite resized position buf

/-- The result, the new position and the filesystem. -/
def writeAt (fs : InMemoryFileSystem) (now : FileDateTime) (normalizedPath : Text)
    (position : Nat) (append : Bool) (buf : List UInt8) : Int × Nat × InMemoryFileSystem :=
  match fs.nodes.lookup normalizedPath with
  | none => (kIOError, position, fs)
  | some node =>
      let pos := if append then node.data.length else position
      if buf.length > sizeMax - pos then (kIOError, pos, fs)
      else
        (buf.length, pos + buf.length,
          ⟨fs.nodes.insert normalizedPath
            ({ node with data := written node.data pos buf }.modified now)⟩)

def localCreateDirectory (fs : InMemoryFileSystem) (now : FileDateTime) (pathname : Text) :
    Int × InMemoryFileSystem :=
  let normalized := normalizeVirtualPath pathname
  if (fs.nodes.lookup normalized).isSome then (-1, fs)
  else if !fs.parentIsDirectory normalized then (-1, fs)
  else (0, fs.emplace now normalized true)

def localRemoveDirectory (fs : InMemoryFileSystem) (now : FileDateTime) (pathname : Text) :
    Int × InMemoryFileSystem :=
  let normalized := normalizeVirtualPath pathname
  match fs.nodes.lookup normalized with
  | none => (-1, fs)
  | some node =>
      if !node.isDirectory || normalized = ['/'] then (-1, fs)
      else if fs.nodes.keys.any fun path => startsWith path (normalized ++ ['/']) then
        (-1, fs) -- not empty
      else (0, fs.eraseNode now normalized)

def localRemoveFile (fs : InMemoryFileSystem) (now : FileDateTime) (pathname : Text) :
    Int × InMemoryFileSystem :=
  let normalized := normalizeVirtualPath pathname
  match fs.nodes.lookup normalized with
  | none => (-1, fs)
  | some node => if node.isDirectory then (-1, fs) else (0, fs.eraseNode now normalized)

/-- The entry a node makes in the listing of `directory`, if it is a child of it. -/
def entryIn (directory : Text) (entry : Sigma fun _ : Text => Node) : Option DirectoryEntry :=
  if entry.1 = directory then none
  else if parentOf entry.1 = directory then some ⟨lastSegment entry.1, entry.2.type⟩
  else none

def localReadDirectory (fs : InMemoryFileSystem) (path : Text) : List DirectoryEntry :=
  let normalized := normalizeVirtualPath path
  match fs.nodes.lookup normalized with
  | none => []
  | some node =>
      if !node.isDirectory then [] else fs.nodes.entries.filterMap (entryIn normalized)

/-- The subdirectories of `normalized`, counted for its links. -/
def subdirectoryCount (fs : InMemoryFileSystem) (normalized : Text) : Nat :=
  fs.nodes.entries.countP fun entry =>
    entry.2.isDirectory && entry.1 ≠ normalized && entry.1 ≠ ['/'] &&
      parentOf entry.1 = normalized

def localStat (fs : InMemoryFileSystem) (path : Text) : Option FileStatus :=
  let normalized := normalizeVirtualPath path
  match fs.nodes.lookup normalized with
  | none => none
  | some node =>
      let size := if node.isDirectory then 0 else node.data.length
      some
        { type := node.type
          size := size
          blocks := blocksForSize size
          linkCount := if node.isDirectory then 2 + fs.subdirectoryCount normalized else 1
          accessTime := node.accessTime
          modificationTime := node.modificationTime
          changeTime := node.changeTime }

def absolutePathFor (path : Text) : Text := normalizeVirtualPath path

end InMemoryFileSystem

theorem take_min_drop {α : Type*} (l : List α) (position count : Nat) :
    (l.drop position).take (min count (l.length - position)) =
      (l.drop position).take count := by
  rw [← List.length_drop, List.take_eq_take_min, List.take_eq_take_min (i := count)]
  congr 1
  omega

/-! ## Reading and writing through a descriptor -/

namespace InMemoryFileDescriptor

/-- The result, the bytes read, the descriptor and the filesystem after the call. -/
def read (d : InMemoryFileDescriptor) (fs : InMemoryFileSystem) (now : FileDateTime)
    (count : Nat) : Int × List UInt8 × InMemoryFileDescriptor × InMemoryFileSystem :=
  if !d.readable then (kIOError, [], d, fs)
  else
    let (result, out, position, fs) := fs.readAt now d.path d.position count
    (result, out, { d with position := position }, fs)

def write (d : InMemoryFileDescriptor) (fs : InMemoryFileSystem) (now : FileDateTime)
    (buf : List UInt8) : Int × InMemoryFileDescriptor × InMemoryFileSystem :=
  if !d.writable then (kIOError, d, fs)
  else
    let (result, position, fs) := fs.writeAt now d.path d.position d.append buf
    (result, { d with position := position }, fs)

end InMemoryFileDescriptor

end Haisos.Filesystem
