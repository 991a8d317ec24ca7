import Mathlib.Algebra.Group.Nat.Defs
import Haisos.Hsh.Text

/-!
# What a filesystem reports, and how a file is opened

`IFileSystemService.h` and the flags of `FilesystemUtils.h`.
-/

namespace Haisos.Filesystem

open Hsh (Text text)

/-- `DirectoryEntryType`. -/
inductive EntryType where
  | file
  | dir
  | charDevice
  deriving DecidableEq, Repr

structure DirectoryEntry where
  name : Text
  type : EntryType
  deriving DecidableEq, Repr

structure FileDateTime where
  seconds : Int := 0
  nanoseconds : Nat := 0
  deriving DecidableEq, Repr

/-- `operator<` of `FileDateTime`. -/
def FileDateTime.before (a b : FileDateTime) : Bool :=
  if a.seconds ≠ b.seconds then decide (a.seconds < b.seconds)
  else decide (a.nanoseconds < b.nanoseconds)

structure FileStatus where
  type : EntryType := .file
  size : Nat := 0
  blocks : Nat := 0
  linkCount : Nat := 1
  accessTime : FileDateTime := {}
  modificationTime : FileDateTime := {}
  changeTime : FileDateTime := {}
  deviceMajor : Nat := 0
  deviceMinor : Nat := 0
  deriving DecidableEq, Repr

/-- The bits of the flags `OpenFile` looks at. -/
structure OpenFlags where
  writeOnly : Bool := false
  readWrite : Bool := false
  create : Bool := false
  truncate : Bool := false
  append : Bool := false
  deriving DecidableEq, Repr

def requestsWriteAccess (flags : OpenFlags) : Bool :=
  flags.writeOnly || flags.readWrite || flags.create || flags.truncate || flags.append

def blocksForSize (size : Nat) : Nat := (size + 511) / 512

/-- The greatest `size_t`. -/
def sizeMax : Nat := 2 ^ 64 - 1

end Haisos.Filesystem
