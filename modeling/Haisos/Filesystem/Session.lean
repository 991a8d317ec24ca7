import Haisos.Transition
import Haisos.Filesystem.Mountable
import Haisos.Filesystem.Tree

/-!
# Runs over an in-memory filesystem with mounts

A session is an in-memory filesystem, the world its mounted filesystems keep their
state in, and the files opened so far.  Its steps are the calls of `IFileSystem`,
reads and writes through an open file, and changes of the world from elsewhere.
-/

namespace Haisos.Filesystem

open Hsh (Text text)

variable {ω δ' : Type*}

/-- An `InMemoryFileSystem` with everything it inherits. -/
abbrev MemoryFileSystem (ω δ' : Type*) := MountableFileSystem InMemoryFileSystem ω δ'

structure Session (ω δ' : Type*) where
  fs : MemoryFileSystem ω δ'
  world : ω
  opened : List (OpenedFile InMemoryFileDescriptor δ') := []

inductive FileAction (ω δ' : Type*) where
  | mount (now : FileDateTime) (path : Text) (filesystem : Option (Operations ω δ'))
  | unmount (path : Text)
  | openFile (now : FileDateTime) (path : Text) (flags : OpenFlags) (mode : Option Nat)
  | createDirectory (now : FileDateTime) (path : Text) (mode : Nat)
  | removeDirectory (now : FileDateTime) (path : Text)
  | removeFile (now : FileDateTime) (path : Text)
  | addBuiltinCommand (now : FileDateTime) (path : Text) (builtinName : Text)
  | removeBuiltinCommand (path : Text)
  | read (now : FileDateTime) (descriptor : Nat) (count : Nat)
  | write (now : FileDateTime) (descriptor : Nat) (buf : List UInt8)
  | elsewhere (world : ω)

namespace Session

def initial (δ' : Type*) (now : FileDateTime) (world : ω) : Session ω δ' :=
  { fs := { content := .create now }, world := world }

def placed (s : Session ω δ') (placed : MemoryFileSystem ω δ' × ω) : Session ω δ' :=
  { s with fs := placed.1, world := placed.2 }

def joined (s : Session ω δ') (file : Option (OpenedFile InMemoryFileDescriptor δ')) :
    Session ω δ' :=
  { s with opened := s.opened ++ file.toList }

def withFile (s : Session ω δ') (descriptor : Nat)
    (file : OpenedFile InMemoryFileDescriptor δ') (content : InMemoryFileSystem) :
    Session ω δ' :=
  { s with
    fs := { s.fs with content := content }
    opened := s.opened.set descriptor file }

def readStep (s : Session ω δ') (now : FileDateTime) (descriptor count : Nat) :
    OpenedFile InMemoryFileDescriptor δ' → Session ω δ'
  | .builtin file =>
      s.withFile descriptor (.builtin (MountableFileSystem.readBuiltin file count).2.2)
        s.fs.content
  | .own file =>
      let done := file.read s.fs.content now count
      s.withFile descriptor (.own done.2.2.1) done.2.2.2
  | .mounted _ => s

def writeStep (s : Session ω δ') (now : FileDateTime) (descriptor : Nat) (buf : List UInt8) :
    OpenedFile InMemoryFileDescriptor δ' → Session ω δ'
  | .own file =>
      let done := file.write s.fs.content now buf
      s.withFile descriptor (.own done.2.1) done.2.2
  | _ => s

def step : FileAction ω δ' → Session ω δ' → Option (Session ω δ')
  | .mount now path filesystem, s =>
      some { s with fs := s.fs.mount inMemory now path filesystem }
  | .unmount path, s => some { s with fs := s.fs.unmount inMemory path }
  | .openFile now path flags mode, s =>
      let done := s.fs.openFile inMemory now path flags mode s.world
      some ((s.placed done.2).joined done.1)
  | .createDirectory now path mode, s =>
      some (s.placed (s.fs.createDirectory inMemory now path mode s.world).2)
  | .removeDirectory now path, s =>
      some (s.placed (s.fs.removeDirectory inMemory now path s.world).2)
  | .removeFile now path, s =>
      some (s.placed (s.fs.removeFile inMemory now path s.world).2)
  | .addBuiltinCommand now path builtinName, s =>
      some { s with fs := (s.fs.addBuiltinCommand inMemory now path builtinName).2 }
  | .removeBuiltinCommand path, s =>
      some { s with fs := (s.fs.removeBuiltinCommand inMemory path).2 }
  | .read now descriptor count, s =>
      s.opened[descriptor]?.map (s.readStep now descriptor count)
  | .write now descriptor buf, s =>
      s.opened[descriptor]?.map (s.writeStep now descriptor buf)
  | .elsewhere world, s => some { s with world := world }

end Session

/-! ## What every session keeps -/

structure WellFormed (fs : MemoryFileSystem ω δ') : Prop where
  tree : IsTree fs.content
  mounts : MountPoints.Ordered fs.mounts
  builtins : ∀ path ∈ fs.builtins, ∃ p, p ≠ [] ∧ AreSegments p ∧ path = render p

namespace MountableFileSystem

variable {fs : MemoryFileSystem ω δ'}

theorem change_openFile (h : IsTree fs.content) (now : FileDateTime) (path : Text)
    (flags : OpenFlags) (mode : Option Nat) (world : ω) :
    ∃ content, (fs.openFile inMemory now path flags mode world).2.1 =
      { fs with content := content } ∧ TreeChange fs.content content := by
  unfold openFile
  simp only
  split
  · split_ifs
    · exact ⟨_, rfl, .same fun _ => rfl⟩
    · exact ⟨_, rfl, .same fun _ => rfl⟩
  · split
    · exact ⟨_, rfl, .same fun _ => rfl⟩
    · exact ⟨_, rfl, change_localOpenFile h now path flags⟩

theorem change_createDirectory (h : IsTree fs.content) (now : FileDateTime) (path : Text)
    (mode : Nat) (world : ω) :
    ∃ content, (fs.createDirectory inMemory now path mode world).2.1 =
      { fs with content := content } ∧ TreeChange fs.content content := by
  unfold createDirectory
  simp only
  split_ifs
  · exact ⟨_, rfl, .same fun _ => rfl⟩
  · split
    · exact ⟨_, rfl, .same fun _ => rfl⟩
    · exact ⟨_, rfl, change_localCreateDirectory h now path⟩

theorem change_removeDirectory (fs : MemoryFileSystem ω δ') (now : FileDateTime) (path : Text) (world : ω) :
    ∃ content, (fs.removeDirectory inMemory now path world).2.1 =
      { fs with content := content } ∧ TreeChange fs.content content := by
  unfold removeDirectory
  simp only
  split_ifs
  · exact ⟨_, rfl, .same fun _ => rfl⟩
  · split
    · exact ⟨_, rfl, .same fun _ => rfl⟩
    · exact ⟨_, rfl, change_localRemoveDirectory now path⟩

theorem change_removeFile (h : IsTree fs.content) (now : FileDateTime) (path : Text)
    (world : ω) :
    ∃ content, (fs.removeFile inMemory now path world).2.1 =
      { fs with content := content } ∧ TreeChange fs.content content := by
  unfold removeFile
  simp only
  split_ifs
  · exact ⟨_, rfl, .same fun _ => rfl⟩
  · split
    · exact ⟨_, rfl, .same fun _ => rfl⟩
    · exact ⟨_, rfl, change_localRemoveFile h now path⟩

end MountableFileSystem

theorem WellFormed.change {fs : MemoryFileSystem ω δ'} (h : WellFormed fs)
    {content : InMemoryFileSystem} (hchange : TreeChange fs.content content) :
    WellFormed { fs with content := content } :=
  ⟨h.tree.change hchange, h.mounts, h.builtins⟩

theorem WellFormed.addBuiltinCommand {fs : MemoryFileSystem ω δ'} (h : WellFormed fs)
    (now : FileDateTime) (path builtinName : Text) :
    WellFormed (fs.addBuiltinCommand inMemory now path builtinName).2 := by
  unfold MountableFileSystem.addBuiltinCommand
  simp only
  split_ifs with hrefused hthere
  · exact h
  · exact h
  · refine ⟨h.tree, h.mounts, fun other hin => ?_⟩
    rcases (AList.mem_insert _).1 hin with rfl | hold
    · refine ⟨virtualSegments path ['/'], fun hnil => hrefused (.inl ?_),
        virtualSegments_areSegments path ['/'], rfl⟩
      change normalizeVirtualPath path = ['/']
      rw [normalizeVirtualPath, hnil, render_nil]
    · exact h.builtins other hold

theorem WellFormed.removeBuiltinCommand {fs : MemoryFileSystem ω δ'} (h : WellFormed fs)
    (path : Text) : WellFormed (fs.removeBuiltinCommand inMemory path).2 := by
  unfold MountableFileSystem.removeBuiltinCommand
  simp only
  split_ifs
  · exact ⟨h.tree, h.mounts, fun other hin => h.builtins other (AList.mem_erase.1 hin).2⟩
  · exact h

namespace Session

theorem change_step {action : FileAction ω δ'} {s t : Session ω δ'}
    (hstep : step action s = some t) (h : IsTree s.fs.content) :
    TreeChange s.fs.content t.fs.content := by
  cases action with
  | mount now path filesystem =>
      cases hstep
      exact .same fun _ => rfl
  | unmount path =>
      cases hstep
      exact .same fun _ => rfl
  | openFile now path flags mode =>
      cases hstep
      obtain ⟨content, hfs, hchange⟩ :=
        MountableFileSystem.change_openFile h now path flags mode s.world
      simpa [placed, joined, hfs] using hchange
  | createDirectory now path mode =>
      cases hstep
      obtain ⟨content, hfs, hchange⟩ :=
        MountableFileSystem.change_createDirectory h now path mode s.world
      simpa [placed, hfs] using hchange
  | removeDirectory now path =>
      cases hstep
      obtain ⟨content, hfs, hchange⟩ :=
        MountableFileSystem.change_removeDirectory s.fs now path s.world
      simpa [placed, hfs] using hchange
  | removeFile now path =>
      cases hstep
      obtain ⟨content, hfs, hchange⟩ :=
        MountableFileSystem.change_removeFile h now path s.world
      simpa [placed, hfs] using hchange
  | addBuiltinCommand now path builtinName =>
      cases hstep
      refine .same fun _ => ?_
      unfold MountableFileSystem.addBuiltinCommand
      simp only
      split_ifs <;> rfl
  | removeBuiltinCommand path =>
      cases hstep
      refine .same fun _ => ?_
      unfold MountableFileSystem.removeBuiltinCommand
      simp only
      split_ifs <;> rfl
  | read now descriptor count =>
      obtain ⟨file, -, rfl⟩ := Option.map_eq_some_iff.1 hstep
      cases file with
      | builtin file => exact .same fun _ => rfl
      | own file => exact change_read file now count
      | mounted file => exact .same fun _ => rfl
  | write now descriptor buf =>
      obtain ⟨file, -, rfl⟩ := Option.map_eq_some_iff.1 hstep
      cases file with
      | builtin file => exact .same fun _ => rfl
      | own file => exact change_write file now buf
      | mounted file => exact .same fun _ => rfl
  | elsewhere world =>
      cases hstep
      exact .same fun _ => rfl

theorem wellFormed_step {action : FileAction ω δ'} {s t : Session ω δ'}
    (hstep : step action s = some t) (h : WellFormed s.fs) : WellFormed t.fs := by
  cases action with
  | mount now path filesystem =>
      cases hstep
      exact ⟨h.tree, h.mounts.mount now _ filesystem, h.builtins⟩
  | unmount path =>
      cases hstep
      exact ⟨h.tree, h.mounts.unmount _, h.builtins⟩
  | openFile now path flags mode =>
      cases hstep
      obtain ⟨content, hfs, hchange⟩ :=
        MountableFileSystem.change_openFile h.tree now path flags mode s.world
      simpa [placed, joined, hfs] using h.change hchange
  | createDirectory now path mode =>
      cases hstep
      obtain ⟨content, hfs, hchange⟩ :=
        MountableFileSystem.change_createDirectory h.tree now path mode s.world
      simpa [placed, hfs] using h.change hchange
  | removeDirectory now path =>
      cases hstep
      obtain ⟨content, hfs, hchange⟩ :=
        MountableFileSystem.change_removeDirectory s.fs now path s.world
      simpa [placed, hfs] using h.change hchange
  | removeFile now path =>
      cases hstep
      obtain ⟨content, hfs, hchange⟩ :=
        MountableFileSystem.change_removeFile h.tree now path s.world
      simpa [placed, hfs] using h.change hchange
  | addBuiltinCommand now path builtinName =>
      cases hstep
      exact h.addBuiltinCommand now path builtinName
  | removeBuiltinCommand path =>
      cases hstep
      exact h.removeBuiltinCommand path
  | read now descriptor count =>
      obtain ⟨file, -, rfl⟩ := Option.map_eq_some_iff.1 hstep
      cases file with
      | builtin file => exact h
      | own file => exact h.change (change_read file now count)
      | mounted file => exact h
  | write now descriptor buf =>
      obtain ⟨file, -, rfl⟩ := Option.map_eq_some_iff.1 hstep
      cases file with
      | builtin file => exact h
      | own file => exact h.change (change_write file now buf)
      | mounted file => exact h
  | elsewhere world =>
      cases hstep
      exact h

theorem wellFormed_initial (now : FileDateTime) (world : ω) :
    WellFormed (initial δ' now world).fs :=
  ⟨isTree_create now, MountPoints.ordered_nil, fun _ h => absurd h (AList.notMem_empty _)⟩

theorem wellFormed_run {now : FileDateTime} {world : ω} {actions : List (FileAction ω δ')}
    {s : Session ω δ'} (hrun : Transition.run step actions (initial δ' now world) = some s) :
    WellFormed s.fs :=
  Transition.run_preserves (P := fun s => WellFormed s.fs)
    (fun _ _ _ hstep h => wellFormed_step hstep h) hrun (wellFormed_initial now world)

end Session

end Haisos.Filesystem
