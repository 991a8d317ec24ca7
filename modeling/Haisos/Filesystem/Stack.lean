import Haisos.Filesystem.Mountable

/-!
# Filesystems over one store

A filesystem that wraps others, and has others mounted in it, keeps nothing of its
own but its builtins and its mount table: what it reads and changes is in the store
that all the filesystems of the stack share.
-/

namespace Haisos.Filesystem

open Hsh (Text text)

variable {ω δ : Type*}

/-- An open file of a stack: the note of a builtin, or a file of the store. -/
abbrev OpenFile (δ : Type*) := OpenedFile δ Empty

def OpenFile.passedUp : OpenedFile (OpenFile δ) (OpenFile δ) → OpenFile δ
  | .builtin file => .builtin file
  | .own file => file
  | .mounted file => file

/-- A filesystem of a stack, before the store: the subclass finds it as its own state. -/
def overStore (mounts : List (MountEntry (Operations ω (OpenFile δ))))
    (builtins : AList fun _ : Text => Builtin) (store : ω) :
    MountableFileSystem ω ω (OpenFile δ) :=
  ⟨mounts, builtins, store⟩

def storeAfter (absolute : Text) (done : MountableFileSystem ω ω (OpenFile δ) × ω) : ω :=
  if (done.1.resolve absolute).isSome then done.2 else done.1.content

section
variable (self : LocalOperations ω (OpenFile δ))
  (mounts : List (MountEntry (Operations ω (OpenFile δ))))
  (builtins : AList fun _ : Text => Builtin)

def stacked : Operations ω (OpenFile δ) where
  openFile now path flags mode store :=
    let done := (overStore mounts builtins store).openFile self now path flags mode store
    (done.1.map OpenFile.passedUp, storeAfter (self.absolutePathFor path) done.2)
  createDirectory now path mode store :=
    let done := (overStore mounts builtins store).createDirectory self now path mode store
    (done.1, storeAfter (self.absolutePathFor path) done.2)
  removeDirectory now path store :=
    let done := (overStore mounts builtins store).removeDirectory self now path store
    (done.1, storeAfter (self.absolutePathFor path) done.2)
  removeFile now path store :=
    let done := (overStore mounts builtins store).removeFile self now path store
    (done.1, storeAfter (self.absolutePathFor path) done.2)
  readDirectory path store := (overStore mounts builtins store).readDirectory self path store
  stat path store := (overStore mounts builtins store).stat self path store
  isBuiltinCommand path store :=
    (overStore mounts builtins store).isBuiltinCommand self path store

/-- A filesystem as it was created: nothing is mounted and there are no builtins. -/
def bare : Operations ω (OpenFile δ) := stacked self [] ∅

/-! ## Who serves a path -/

variable {self mounts builtins}

theorem stacked_openFile_builtin {path : Text} {builtin : Builtin}
    (h : builtins.lookup (self.absolutePathFor path) = some builtin) (now : FileDateTime)
    (flags : OpenFlags) (mode : Option Nat) (store : ω) :
    (stacked self mounts builtins).openFile now path flags mode store =
      (if requestsWriteAccess flags then none
        else some (.builtin { content := builtinCommandFileContent builtin.name }), store) := by
  simp only [stacked, MountableFileSystem.openFile, MountableFileSystem.ownBuiltinAt,
    overStore, h, Option.map_some]
  split_ifs <;> simp [storeAfter, OpenFile.passedUp]

theorem stacked_openFile_mounted {path : Text}
    {route : Route (Operations ω (OpenFile δ))}
    (h : builtins.lookup (self.absolutePathFor path) = none)
    (hroute : MountPoints.resolve mounts (self.absolutePathFor path) = some route)
    (now : FileDateTime) (flags : OpenFlags) (mode : Option Nat) (store : ω) :
    (stacked self mounts builtins).openFile now path flags mode store =
      route.filesystem.openFile now route.innerPath flags mode store := by
  simp [stacked, MountableFileSystem.openFile, MountableFileSystem.ownBuiltinAt, overStore,
    h, MountableFileSystem.resolve, hroute, MountableFileSystem.withWorld, storeAfter,
    Function.comp_def, OpenFile.passedUp]

theorem stacked_openFile_own {path : Text}
    (h : builtins.lookup (self.absolutePathFor path) = none)
    (hroute : MountPoints.resolve mounts (self.absolutePathFor path) = none)
    (now : FileDateTime) (flags : OpenFlags) (mode : Option Nat) (store : ω) :
    (stacked self mounts builtins).openFile now path flags mode store =
      self.openFile now path flags mode store := by
  simp [stacked, MountableFileSystem.openFile, MountableFileSystem.ownBuiltinAt, overStore,
    h, MountableFileSystem.resolve, hroute, MountableFileSystem.withContent, storeAfter,
    Function.comp_def, OpenFile.passedUp]

variable (self mounts builtins)

/-! ## A bare filesystem -/

@[simp]
theorem bare_openFile (now : FileDateTime) (path : Text) (flags : OpenFlags)
    (mode : Option Nat) (store : ω) :
    (bare self).openFile now path flags mode store =
      self.openFile now path flags mode store := by
  exact stacked_openFile_own rfl rfl now flags mode store

@[simp]
theorem bare_createDirectory (now : FileDateTime) (path : Text) (mode : Nat) (store : ω) :
    (bare self).createDirectory now path mode store =
      self.createDirectory now path mode store := by
  rfl

@[simp]
theorem bare_removeDirectory (now : FileDateTime) (path : Text) (store : ω) :
    (bare self).removeDirectory now path store = self.removeDirectory now path store := by
  rfl

@[simp]
theorem bare_removeFile (now : FileDateTime) (path : Text) (store : ω) :
    (bare self).removeFile now path store = self.removeFile now path store := by
  rfl

@[simp]
theorem bare_isBuiltinCommand (path : Text) (store : ω) :
    (bare self).isBuiltinCommand path store = self.isBuiltinCommand path store := by
  rfl

@[simp]
theorem bare_stat (path : Text) (store : ω) :
    (bare self).stat path store = self.stat path store := by
  simp only [bare, stacked, MountableFileSystem.stat, overStore, AList.lookup_empty,
    MountableFileSystem.resolve, MountPoints.resolve, List.find?_nil, Option.map_none]
  cases self.stat path store <;> rfl

end

/-! ## The dots of a listing -/

/-- A listing with its dots put first, given what is at its path. -/
def dotsFirst (type : Option EntryType) (entries : List DirectoryEntry) :
    List DirectoryEntry :=
  let others := entries.filter fun entry => !MountableFileSystem.isDotEntry entry
  if !entries.any MountableFileSystem.isDotEntry && others.isEmpty && type ≠ some .dir then
    others
  else ⟨['.'], .dir⟩ :: ⟨['.', '.'], .dir⟩ :: others

theorem stacked_readDirectory (self : LocalOperations ω (OpenFile δ))
    (mounts : List (MountEntry (Operations ω (OpenFile δ))))
    (builtins : AList fun _ : Text => Builtin) (path : Text) (store : ω) :
    (stacked self mounts builtins).readDirectory path store =
      dotsFirst (((stacked self mounts builtins).stat path store).map (·.type))
        (MountableFileSystem.addOwnBuiltinEntries (self.absolutePathFor path) builtins.keys
          ((overStore mounts builtins store).servedEntries self path store)) := by
  rfl

theorem bare_readDirectory (self : LocalOperations ω (OpenFile δ)) (path : Text) (store : ω) :
    (bare self).readDirectory path store =
      dotsFirst ((self.stat path store).map (·.type)) (self.readDirectory path store) := by
  rw [← bare_stat]
  rfl

theorem dotsFirst_cases (type : Option EntryType) (entries : List DirectoryEntry) :
    (dotsFirst type entries = [] ∧ type ≠ some .dir) ∨
      dotsFirst type entries = ⟨['.'], .dir⟩ :: ⟨['.', '.'], .dir⟩ ::
        entries.filter fun entry => !MountableFileSystem.isDotEntry entry := by
  rw [dotsFirst]
  split_ifs with hempty
  · simp only [Bool.and_eq_true, List.isEmpty_iff, decide_eq_true_eq] at hempty
    exact .inl ⟨hempty.1.2, hempty.2⟩
  · exact .inr rfl

theorem dotsFirst_dotsFirst (type : Option EntryType) (entries : List DirectoryEntry) :
    dotsFirst type (dotsFirst type entries) = dotsFirst type entries := by
  have hdot : MountableFileSystem.isDotEntry ⟨['.'], .dir⟩ = true := rfl
  have hdotDot : MountableFileSystem.isDotEntry ⟨['.', '.'], .dir⟩ = true := rfl
  rcases dotsFirst_cases type entries with ⟨hnil, htype⟩ | hlist
  · rw [hnil]
    simp [dotsFirst, htype]
  · rw [hlist]
    simp [dotsFirst, hdot, hdotDot, List.filter_filter]

end Haisos.Filesystem
