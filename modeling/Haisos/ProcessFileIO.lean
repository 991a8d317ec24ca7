import Haisos.Filesystem.VirtualPath
import Haisos.Hsh.Redirection.Slots

/-!
# A process's files

`ProcessFileIO.cpp`: a descriptor table and a working directory, before an
operating system whose root file system is asked at every use.
-/

namespace Haisos

open Hsh (Text OpenMode FileType WriteResult FileIO)
open Filesystem (normalizeVirtualPath)

/-- A path that `NormalizeVirtualPath` gives. -/
abbrev NormalizedPath :=
  { path : Text // ∃ segments, Filesystem.AreSegments segments ∧ path = Filesystem.render segments }

namespace NormalizedPath

def root : NormalizedPath := ⟨['/'], [], Filesystem.areSegments_nil, rfl⟩

def normalize (path base : Text) : NormalizedPath :=
  ⟨normalizeVirtualPath path base, _, Filesystem.virtualSegments_areSegments path base, rfl⟩

theorem normalize_self (path : NormalizedPath) (base : Text) : normalize path.1 base = path := by
  obtain ⟨_, segments, hsegments, rfl⟩ := path
  exact Subtype.ext (Filesystem.normalizeVirtualPath_render hsegments base)

end NormalizedPath

/-- What `ProcessFileIO` asks of the operating system: paths are normalized. -/
structure RootFileSystem (ω D : Type) where
  openFile : Text → OpenMode → ω → Option D × ω
  stat : Text → ω → Option FileType
  readDirectory : Text → ω → List Hsh.DirectoryEntry
  /-- `none` without a pipe service. -/
  createPipe : Nat → ω → Option (D × D) × ω
  write : D → Text → ω → WriteResult × ω

structure ProcessFiles (ω D : Type) where
  descriptors : DescriptorTable D := .empty
  workingDirectory : NormalizedPath := .root
  outside : ω

variable {ω D : Type}

namespace ProcessFiles

def resolvePath (files : ProcessFiles ω D) (path : Text) : Text :=
  normalizeVirtualPath path files.workingDirectory.1

/-- The directory that `ChangeDirectory` changes to, if it succeeds: `/` is always there. -/
def directoryAt (root : RootFileSystem ω D) (path : Text) (files : ProcessFiles ω D) :
    Option NormalizedPath :=
  let target := NormalizedPath.normalize path files.workingDirectory.1
  if target.1 = ['/'] ∨ root.stat target.1 files.outside = some .dir then some target else none

def changeDirectory (root : RootFileSystem ω D) (path : Text) (files : ProcessFiles ω D) :
    ProcessFiles ω D :=
  match files.directoryAt root path with
  | some target => { files with workingDirectory := target }
  | none => files

/-- `CreatePipe`: ends that find no slots are released again. -/
def createPipe (root : RootFileSystem ω D) (capacity : Nat) (files : ProcessFiles ω D) :
    Option (Nat × Nat) × ProcessFiles ω D :=
  match root.createPipe capacity files.outside with
  | (none, outside) => (none, { files with outside })
  | (some (readEnd, writeEnd), outside) =>
      let placed := files.descriptors.createPipe readEnd writeEnd
      (placed.1, { files with descriptors := placed.2, outside })

end ProcessFiles

/-- `ProcessFileIO`. -/
def RootFileSystem.processFiles (root : RootFileSystem ω D) : FileIO (ProcessFiles ω D) D where
  openFile path mode files :=
    let opened := root.openFile (files.resolvePath path) mode files.outside
    (opened.1, { files with outside := opened.2 })
  stat path files := root.stat (files.resolvePath path) files.outside
  resolvePath path files := files.resolvePath path
  getDescriptor fd files := files.descriptors.getDescriptor fd
  addDescriptor descriptor files :=
    let added := files.descriptors.addDescriptor descriptor
    (added.1, { files with descriptors := added.2 })
  dup2 oldFd newFd files :=
    let duplicated := files.descriptors.dup2 oldFd newFd
    (duplicated.1, { files with descriptors := duplicated.2 })
  closeDescriptor fd files := { files with descriptors := files.descriptors.closeDescriptor fd }
  createPipe := ProcessFiles.createPipe root
  write descriptor output files :=
    let written := root.write descriptor output files.outside
    (written.1, { files with outside := written.2 })
  getCurrentDirectory files := files.workingDirectory.1
  changeDirectory := ProcessFiles.changeDirectory root

theorem RootFileSystem.processFiles_usesTable (root : RootFileSystem ω D) :
    root.processFiles.UsesTable ProcessFiles.descriptors where
  getDescriptor _ _ := rfl
  addDescriptor _ _ := ⟨_, rfl, rfl⟩
  dup2 _ _ _ := ⟨_, rfl, rfl⟩
  closeDescriptor _ _ := rfl
  createPipe capacity files := by
    simp only [RootFileSystem.processFiles, ProcessFiles.createPipe]
    rcases root.createPipe capacity files.outside with ⟨_ | ⟨readEnd, writeEnd⟩, outside⟩
    · exact ⟨_, .inl ⟨rfl, rfl⟩⟩
    · exact ⟨_, .inr ⟨readEnd, writeEnd, rfl, rfl⟩⟩
  openFile _ _ _ := rfl
  write _ _ _ := rfl
  changeDirectory path files := by
    simp only [RootFileSystem.processFiles, ProcessFiles.changeDirectory]
    split <;> rfl

end Haisos
