import Haisos.Transition
import Haisos.Filesystem.SubFileSystem

/-!
# Read-only views

`ReadOnlyFileSystem.cpp` over a stack of in-memory filesystems.  What a look at a
filesystem may do is told once; mounting and wrapping keep it, so no number of layers
gives more.
-/

namespace Haisos.Filesystem

open Hsh (Text text)

def readOnlyFileSystem {ω δ : Type*} (inner : Operations ω (OpenFile δ)) :
    LocalOperations ω (OpenFile δ) where
  openFile now pathname flags mode store :=
    if requestsWriteAccess flags then (none, store)
    -- the descriptor was opened read-only, so it refuses a write by itself
    else inner.openFile now (normalizeVirtualPath pathname) flags mode store
  createDirectory _ _ _ store := (-1, store)
  removeDirectory _ _ store := (-1, store)
  removeFile _ _ store := (-1, store)
  readDirectory path store := inner.readDirectory (normalizeVirtualPath path) store
  stat path store := inner.stat (normalizeVirtualPath path) store
  isBuiltinCommand path store := inner.isBuiltinCommand (normalizeVirtualPath path) store
  absolutePathFor path := normalizeVirtualPath path

theorem eq_of_not_requestsWriteAccess {flags : OpenFlags}
    (h : requestsWriteAccess flags = false) : flags = {} := by
  obtain ⟨writeOnly, readWrite, create, truncate, append⟩ := flags
  simp only [requestsWriteAccess, Bool.or_eq_false_iff] at h
  simp [h]

/-! ## Looking at a filesystem -/

section
variable {ω δ : Type*}

/-- What looking at a filesystem is: `same` stores show the same, only `quiet` files are
opened, and a path means what its normalized form means. -/
structure Looks (same : ω → ω → Prop) (quiet : OpenFile δ → ω → Prop)
    (f : Operations ω (OpenFile δ)) : Prop where
  openFile_store : ∀ now path mode s, (f.openFile now path {} mode s).2 = s
  openFile_quiet : ∀ now path mode s file,
    (f.openFile now path {} mode s).1 = some file → quiet file s
  openFile_same : ∀ now now' path mode mode' s t, same s t →
    (f.openFile now path {} mode s).1 = (f.openFile now' path {} mode' t).1
  stat_same : ∀ path s t, same s t →
    (f.stat path s).map (·.type) = (f.stat path t).map (·.type)
  isBuiltinCommand_same : ∀ path s t, same s t →
    f.isBuiltinCommand path s = f.isBuiltinCommand path t
  openFile_normalized : ∀ now path flags mode s,
    f.openFile now (normalizeVirtualPath path) flags mode s = f.openFile now path flags mode s
  stat_normalized : ∀ path s, f.stat (normalizeVirtualPath path) s = f.stat path s
  readDirectory_normalized : ∀ path s,
    f.readDirectory (normalizeVirtualPath path) s = f.readDirectory path s
  isBuiltinCommand_normalized : ∀ path s,
    f.isBuiltinCommand (normalizeVirtualPath path) s = f.isBuiltinCommand path s

variable {same : ω → ω → Prop} {quiet : OpenFile δ → ω → Prop}
  {self : LocalOperations ω (OpenFile δ)}
  {mounts : List (MountEntry (Operations ω (OpenFile δ)))}
  {builtins : AList fun _ : Text => Builtin}

theorem resolve_mem {F : Type*} {mounts : List (MountEntry F)} {absolute : Text} {route : Route F}
    (h : MountPoints.resolve mounts absolute = some route) :
    ∃ entry ∈ mounts, route.filesystem = entry.filesystem := by
  rw [MountPoints.resolve, Option.map_eq_some_iff] at h
  obtain ⟨entry, hfind, rfl⟩ := h
  exact ⟨entry, List.mem_of_find?_eq_some hfind, rfl⟩

/-- Mounting filesystems that keep it in one that does gives one that does. -/
theorem Looks.stacked (hself : Looks same quiet self.toOperations)
    (habsolute : ∀ path, self.absolutePathFor path = normalizeVirtualPath path)
    (hmounts : ∀ entry ∈ mounts, Looks same quiet entry.filesystem)
    (hnote : ∀ file s, quiet (.builtin file) s) :
    Looks same quiet (stacked self mounts builtins) := by
  have hroute : ∀ {path route}, MountPoints.resolve mounts (self.absolutePathFor path) =
      some route → Looks same quiet route.filesystem := by
    intro path route h
    obtain ⟨entry, hin, hfilesystem⟩ := resolve_mem h
    rw [hfilesystem]
    exact hmounts entry hin
  have hnormalized : ∀ path, self.absolutePathFor (normalizeVirtualPath path) =
      self.absolutePathFor path := by
    intro path
    rw [habsolute, habsolute, normalizeVirtualPath_normalized]
  have hlookup : ∀ path, builtins.lookup (self.absolutePathFor (normalizeVirtualPath path)) =
      builtins.lookup (self.absolutePathFor path) := fun path =>
    congrArg (fun absolute => (builtins.lookup absolute : Option Builtin)) (hnormalized path)
  have hstat : ∀ path s, (Filesystem.stacked self mounts builtins).stat
      (normalizeVirtualPath path) s = (Filesystem.stacked self mounts builtins).stat path s := by
    intro path s
    simp only [Filesystem.stacked, MountableFileSystem.stat, overStore, hlookup, hnormalized,
      hself.stat_normalized]
  constructor
  · intro now path mode s
    cases hbuiltin : builtins.lookup (self.absolutePathFor path) with
    | some builtin => rw [stacked_openFile_builtin hbuiltin]
    | none =>
        cases hresolve : MountPoints.resolve mounts (self.absolutePathFor path) with
        | some route =>
            rw [stacked_openFile_mounted hbuiltin hresolve]
            exact (hroute hresolve).openFile_store now _ mode s
        | none =>
            rw [stacked_openFile_own hbuiltin hresolve]
            exact hself.openFile_store now path mode s
  · intro now path mode s file hfile
    cases hbuiltin : builtins.lookup (self.absolutePathFor path) with
    | some builtin =>
        rw [stacked_openFile_builtin hbuiltin] at hfile
        cases hfile
        exact hnote _ s
    | none =>
        cases hresolve : MountPoints.resolve mounts (self.absolutePathFor path) with
        | some route =>
            rw [stacked_openFile_mounted hbuiltin hresolve] at hfile
            exact (hroute hresolve).openFile_quiet now _ mode s file hfile
        | none =>
            rw [stacked_openFile_own hbuiltin hresolve] at hfile
            exact hself.openFile_quiet now path mode s file hfile
  · intro now now' path mode mode' s t hsame
    cases hbuiltin : builtins.lookup (self.absolutePathFor path) with
    | some builtin => simp only [stacked_openFile_builtin hbuiltin]
    | none =>
        cases hresolve : MountPoints.resolve mounts (self.absolutePathFor path) with
        | some route =>
            simp only [stacked_openFile_mounted hbuiltin hresolve]
            exact (hroute hresolve).openFile_same now now' _ mode mode' s t hsame
        | none =>
            simp only [stacked_openFile_own hbuiltin hresolve]
            exact hself.openFile_same now now' path mode mode' s t hsame
  · intro path s t hsame
    simp only [Filesystem.stacked, MountableFileSystem.stat, MountableFileSystem.resolve,
      overStore]
    cases builtins.lookup (self.absolutePathFor path) with
    | some builtin => rfl
    | none =>
        cases hresolve : MountPoints.resolve mounts (self.absolutePathFor path) with
        | some route => exact (hroute hresolve).stat_same _ s t hsame
        | none =>
            have hown := hself.stat_same path s t hsame
            cases hs : self.stat path s with
            | some status =>
                cases ht : self.stat path t with
                | some status' => simpa [hs, ht] using hown
                | none => simp [hs, ht] at hown
            | none =>
                cases ht : self.stat path t with
                | some status' => simp [hs, ht] at hown
                | none => rfl
  · intro path s t hsame
    simp only [Filesystem.stacked, MountableFileSystem.isBuiltinCommand,
      MountableFileSystem.ownBuiltinAt, MountableFileSystem.resolve, overStore]
    cases builtins.lookup (self.absolutePathFor path) with
    | some builtin => rfl
    | none =>
        cases hresolve : MountPoints.resolve mounts (self.absolutePathFor path) with
        | some route => exact (hroute hresolve).isBuiltinCommand_same _ s t hsame
        | none => exact hself.isBuiltinCommand_same path s t hsame
  · intro now path flags mode s
    simp only [Filesystem.stacked, MountableFileSystem.openFile, hnormalized,
      hself.openFile_normalized]
  · exact hstat
  · intro path s
    rw [stacked_readDirectory, stacked_readDirectory, hstat, hnormalized]
    simp only [MountableFileSystem.servedEntries, hnormalized, hself.readDirectory_normalized]
  · intro path s
    simp only [Filesystem.stacked, MountableFileSystem.isBuiltinCommand, hnormalized,
      hself.isBuiltinCommand_normalized]

theorem Looks.subFileSystem {root : Operations ω (OpenFile δ)} (h : Looks same quiet root)
    (basePath : Text) : Looks same quiet (subFileSystem root basePath).toOperations := by
  have hnormalized : ∀ path, resolveInRoot basePath (normalizeVirtualPath path) =
      resolveInRoot basePath path := by
    intro path
    simp only [resolveInRoot, normalizeVirtualPath_normalized]
  constructor
  · intro now path mode s
    exact h.openFile_store now _ mode s
  · intro now path mode s file hfile
    exact h.openFile_quiet now _ mode s file hfile
  · intro now now' path mode mode' s t hsame
    exact h.openFile_same now now' _ mode mode' s t hsame
  · intro path s t hsame
    exact h.stat_same _ s t hsame
  · intro path s t hsame
    exact h.isBuiltinCommand_same _ s t hsame
  · intro now path flags mode s
    simp only [Filesystem.subFileSystem, hnormalized]
  · intro path s
    simp only [Filesystem.subFileSystem, hnormalized]
  · intro path s
    simp only [Filesystem.subFileSystem, hnormalized]
  · intro path s
    simp only [Filesystem.subFileSystem, hnormalized]

end

/-! ## Stacks of in-memory filesystems -/

/-- The in-memory filesystems of a stack, each under its number. -/
abbrev MemoryStore := Nat → InMemoryFileSystem

abbrev MemoryFile := OpenFile (Nat × InMemoryFileDescriptor)

def memoryFileSystem (id : Nat) : LocalOperations MemoryStore MemoryFile where
  openFile now path flags mode store :=
    let opened := inMemory.openFile now path flags mode (store id)
    (opened.1.map fun file => .own (id, file), Function.update store id opened.2)
  createDirectory now path mode store :=
    let done := inMemory.createDirectory now path mode (store id)
    (done.1, Function.update store id done.2)
  removeDirectory now path store :=
    let done := inMemory.removeDirectory now path (store id)
    (done.1, Function.update store id done.2)
  removeFile now path store :=
    let done := inMemory.removeFile now path (store id)
    (done.1, Function.update store id done.2)
  readDirectory path store := inMemory.readDirectory path (store id)
  stat path store := inMemory.stat path (store id)
  isBuiltinCommand path store := inMemory.isBuiltinCommand path (store id)
  absolutePathFor := inMemory.absolutePathFor

/-- What mounting and wrapping make of in-memory filesystems. -/
inductive Built : Operations MemoryStore MemoryFile → Prop where
  | memory (id : Nat) (mounts : List (MountEntry (Operations MemoryStore MemoryFile)))
      (builtins : AList fun _ : Text => Builtin)
      (hmounts : ∀ entry ∈ mounts, Built entry.filesystem) :
      Built (stacked (memoryFileSystem id) mounts builtins)
  | wrapped (root : Operations MemoryStore MemoryFile) (basePath : Text)
      (mounts : List (MountEntry (Operations MemoryStore MemoryFile)))
      (builtins : AList fun _ : Text => Builtin) (hroot : Built root)
      (hmounts : ∀ entry ∈ mounts, Built entry.filesystem) :
      Built (stacked (subFileSystem root basePath) mounts builtins)

def Node.contents (node : Node) : Bool × List UInt8 := (node.isDirectory, node.data)

/-- The same paths, each of the same type and with the same bytes. -/
def SameContents (s t : MemoryStore) : Prop :=
  ∀ id path, ((t id).nodes.lookup path).map Node.contents =
    ((s id).nodes.lookup path).map Node.contents

theorem SameContents.refl (s : MemoryStore) : SameContents s s := fun _ _ => rfl

theorem SameContents.symm {s t : MemoryStore} (h : SameContents s t) : SameContents t s :=
  fun id path => (h id path).symm

theorem SameContents.trans {s t u : MemoryStore} (h : SameContents s t)
    (h' : SameContents t u) : SameContents s u :=
  fun id path => (h' id path).trans (h id path)

/-! ## Reading and writing through an open file -/

namespace MemoryFile

def noteBytes (note : Text) : List UInt8 := note.map fun c => UInt8.ofNat c.toNat

/-- The result, the bytes read, the file and the store after the call. -/
def read (now : FileDateTime) (count : Nat) :
    MemoryFile → MemoryStore → Int × List UInt8 × MemoryFile × MemoryStore
  | .builtin note, store =>
      let done := MountableFileSystem.readBuiltin note count
      (done.1, noteBytes done.2.1, .builtin done.2.2, store)
  | .own (id, file), store =>
      let done := file.read (store id) now count
      (done.1, done.2.1, .own (id, done.2.2.1), Function.update store id done.2.2.2)
  | .mounted file, _ => file.elim

def write (now : FileDateTime) (buf : List UInt8) :
    MemoryFile → MemoryStore → Int × MemoryFile × MemoryStore
  | .builtin note, store => (kIOError, .builtin note, store)
  | .own (id, file), store =>
      let done := file.write (store id) now buf
      (done.1, .own (id, done.2.1), Function.update store id done.2.2)
  | .mounted file, _ => file.elim

def position : MemoryFile → Nat
  | .builtin note => note.position
  | .own (_, file) => file.position
  | .mounted file => file.elim

/-- The bytes of what was opened. -/
def content : MemoryFile → MemoryStore → Option (List UInt8)
  | .builtin note, _ => some (noteBytes note.content)
  | .own (id, file), store => ((store id).nodes.lookup file.path).map (·.data)
  | .mounted file, _ => file.elim

def Quiet : MemoryFile → MemoryStore → Prop
  | .builtin _, _ => True
  | .own (id, file), store =>
      file.writable = false ∧ file.readable = true ∧
        (((store id).nodes.lookup file.path).map (·.data)).isSome = true
  | .mounted file, _ => file.elim

theorem content_same {s t : MemoryStore} (h : SameContents s t) (file : MemoryFile) :
    file.content t = file.content s := by
  cases file with
  | builtin note => rfl
  | own file =>
      obtain ⟨id, file⟩ := file
      have hdata := congrArg (Option.map Prod.snd) (h id file.path)
      simpa [content, Function.comp_def, Node.contents] using hdata
  | mounted file => exact file.elim

theorem Quiet.same {s t : MemoryStore} (h : SameContents s t) {file : MemoryFile}
    (hquiet : Quiet file s) : Quiet file t := by
  cases file with
  | builtin note => trivial
  | own file =>
      obtain ⟨id, file⟩ := file
      have hcontent : ((t id).nodes.lookup file.path).map (·.data) =
          ((s id).nodes.lookup file.path).map (·.data) := content_same h (.own (id, file))
      simpa [Quiet, hcontent] using hquiet
  | mounted file => exact file.elim

theorem Quiet.write {s : MemoryStore} {file : MemoryFile} (h : Quiet file s)
    (now : FileDateTime) (buf : List UInt8) : file.write now buf s = (kIOError, file, s) := by
  cases file with
  | builtin note => rfl
  | own file =>
      obtain ⟨id, file⟩ := file
      simp [MemoryFile.write, InMemoryFileDescriptor.write, h.1]
  | mounted file => exact file.elim

theorem Quiet.read {s : MemoryStore} {file : MemoryFile} (h : Quiet file s)
    (now : FileDateTime) (count : Nat) :
    ∃ bytes, file.content s = some bytes ∧
      (file.read now count s).1 = ((bytes.drop file.position).take count).length ∧
      (file.read now count s).2.1 = (bytes.drop file.position).take count ∧
      Quiet (file.read now count s).2.2.1 s ∧
      (file.read now count s).2.2.1.content s = some bytes ∧
      SameContents s (file.read now count s).2.2.2 := by
  cases file with
  | builtin note =>
      refine ⟨noteBytes note.content, rfl, ?_, ?_, trivial, rfl, .refl s⟩
      · simp [MemoryFile.read, MountableFileSystem.readBuiltin, position, noteBytes]
      · simp only [MemoryFile.read, MountableFileSystem.readBuiltin, position, noteBytes,
          take_min_drop, List.map_take, List.map_drop]
  | own file =>
      obtain ⟨id, file⟩ := file
      obtain ⟨hwritable, hreadable, hsome⟩ := h
      obtain ⟨node, hnode⟩ : ∃ node, (s id).nodes.lookup file.path = some node := by
        simpa [Option.isSome_iff_exists] using hsome
      refine ⟨node.data, by simp [content, hnode], ?_⟩
      simp only [MemoryFile.read, InMemoryFileDescriptor.read, hreadable, Bool.not_true,
        Bool.false_eq_true, if_false, InMemoryFileSystem.readAt, hnode, position]
      split_ifs with hend
      · rw [List.drop_eq_nil_of_le hend]
        simp [Quiet, content, hwritable, hnode, SameContents.refl]
      · refine ⟨?_, take_min_drop node.data file.position count, ?_, ?_, ?_⟩
        · simp
        · simp [Quiet, hwritable, hnode]
        · simp [content, hnode]
        · intro other path
          by_cases hother : other = id
          · subst hother
            by_cases hpath : path = file.path
            · subst hpath
              simp [hnode, Node.contents]
            · simp [AList.lookup_insert_ne hpath]
          · simp [Function.update_of_ne hother]
  | mounted file => exact file.elim

end MemoryFile

/-! ## Every stack may be looked at -/

theorem localOpenFile_readOnly (fs : InMemoryFileSystem) (now : FileDateTime) (path : Text) :
    fs.localOpenFile now path {} =
      ((fs.nodes.lookup (normalizeVirtualPath path)).bind fun node =>
        if node.isDirectory then none else some (.make (normalizeVirtualPath path) {}), fs) := by
  rw [InMemoryFileSystem.localOpenFile]
  cases hnode : fs.nodes.lookup (normalizeVirtualPath path) with
  | none => simp
  | some node =>
      simp only [Option.bind_some]
      split_ifs <;> simp_all

theorem looks_memoryFileSystem (id : Nat) :
    Looks SameContents MemoryFile.Quiet (memoryFileSystem id).toOperations := by
  constructor
  · intro now path mode s
    simp [memoryFileSystem, inMemory, localOpenFile_readOnly]
  · intro now path mode s file hfile
    simp only [memoryFileSystem, inMemory, localOpenFile_readOnly, Option.map_eq_some_iff,
      Option.bind_eq_some_iff] at hfile
    obtain ⟨opened, ⟨node, hnode, hopened⟩, rfl⟩ := hfile
    split_ifs at hopened
    cases hopened
    simp [MemoryFile.Quiet, InMemoryFileDescriptor.make, hnode]
  · intro now now' path mode mode' s t hsame
    have hkind := congrArg (Option.map Prod.fst) (hsame id (normalizeVirtualPath path))
    simp only [Option.map_map, Function.comp_def, Node.contents] at hkind
    simp only [memoryFileSystem, inMemory, localOpenFile_readOnly]
    cases hs : (s id).nodes.lookup (normalizeVirtualPath path) with
    | none =>
        cases ht : (t id).nodes.lookup (normalizeVirtualPath path) with
        | none => rfl
        | some node' => simp [hs, ht] at hkind
    | some node =>
        cases ht : (t id).nodes.lookup (normalizeVirtualPath path) with
        | none => simp [hs, ht] at hkind
        | some node' =>
            have hsameKind : node'.isDirectory = node.isDirectory := by
              simpa [hs, ht] using hkind
            simp [hsameKind]
  · intro path s t hsame
    have hkind := congrArg (Option.map Prod.fst) (hsame id (normalizeVirtualPath path))
    simp only [Option.map_map, Function.comp_def, Node.contents] at hkind
    have htype : ∀ s : MemoryStore, ((memoryFileSystem id).stat path s).map (·.type) =
        (((s id).nodes.lookup (normalizeVirtualPath path)).map (·.isDirectory)).map
          fun isDirectory => if isDirectory then .dir else .file := by
      intro s
      simp only [memoryFileSystem, inMemory, InMemoryFileSystem.localStat]
      cases hnode : (s id).nodes.lookup (normalizeVirtualPath path) with
      | none => simp
      | some node => simp [Node.type]
    rw [htype, htype, hkind]
  · intro path s t hsame
    rfl
  · intro now path flags mode s
    simp only [memoryFileSystem, inMemory]
    rw [InMemoryFileSystem.localOpenFile, InMemoryFileSystem.localOpenFile,
      normalizeVirtualPath_normalized]
  · intro path s
    simp only [memoryFileSystem, inMemory]
    rw [InMemoryFileSystem.localStat, InMemoryFileSystem.localStat,
      normalizeVirtualPath_normalized]
  · intro path s
    simp only [memoryFileSystem, inMemory]
    rw [InMemoryFileSystem.localReadDirectory, InMemoryFileSystem.localReadDirectory,
      normalizeVirtualPath_normalized]
  · intro path s
    rfl

theorem Built.looks {f : Operations MemoryStore MemoryFile} (h : Built f) :
    Looks SameContents MemoryFile.Quiet f := by
  induction h with
  | memory id mounts builtins hmounts ih =>
      exact (looks_memoryFileSystem id).stacked (fun _ => rfl) ih fun _ _ => trivial
  | wrapped root basePath mounts builtins hroot hmounts ihroot ih =>
      exact (ihroot.subFileSystem basePath).stacked (fun _ => rfl) ih fun _ _ => trivial

theorem Built.readDirectory_dots {f : Operations MemoryStore MemoryFile} (h : Built f)
    (path : Text) (s : MemoryStore) :
    dotsFirst ((f.stat path s).map (·.type)) (f.readDirectory path s) = f.readDirectory path s := by
  cases h with
  | memory id mounts builtins hmounts => rw [stacked_readDirectory, dotsFirst_dotsFirst]
  | wrapped root basePath mounts builtins hroot hmounts =>
      rw [stacked_readDirectory, dotsFirst_dotsFirst]

/-! ## Using a read-only view -/

/-- The view's own mounts and builtins, the store, and the files opened through it. -/
structure ViewSession where
  mounts : List (MountEntry (Operations MemoryStore MemoryFile)) := []
  builtins : AList (fun _ : Text => Builtin) := ∅
  store : MemoryStore
  opened : List (Text × MemoryFile) := []

inductive ViewCall where
  | unmount (path : Text)
  | openFile (now : FileDateTime) (path : Text) (flags : OpenFlags) (mode : Option Nat)
  | createDirectory (now : FileDateTime) (path : Text) (mode : Nat)
  | removeDirectory (now : FileDateTime) (path : Text)
  | removeFile (now : FileDateTime) (path : Text)
  | readDirectory (path : Text)
  | stat (path : Text)
  | removeBuiltinCommand (path : Text)
  | isBuiltinCommand (path : Text)
  | read (now : FileDateTime) (descriptor : Nat) (count : Nat)
  | write (now : FileDateTime) (descriptor : Nat) (buf : List UInt8)

inductive ViewReply where
  | done
  | opened (file : Option MemoryFile)
  | code (result : Int)
  | entries (entries : List DirectoryEntry)
  | status (status : Option FileStatus)
  | builtin (name : Option Text)
  | bytes (result : Int) (out : List UInt8)

def ViewCall.asksToChange : ViewCall → Bool
  | .openFile _ _ flags _ => requestsWriteAccess flags
  | .createDirectory _ _ _ => true
  | .removeDirectory _ _ => true
  | .removeFile _ _ => true
  | .removeBuiltinCommand _ => true
  | .write _ _ _ => true
  | _ => false

def ViewReply.failed : ViewReply → Bool
  | .opened file => file.isNone
  | .code result => decide (result < 0)
  | _ => false

namespace ViewSession

variable (inner : Operations MemoryStore MemoryFile)

def view (s : ViewSession) : Operations MemoryStore MemoryFile :=
  stacked (readOnlyFileSystem inner) s.mounts s.builtins

def withFile (s : ViewSession) (descriptor : Nat) (path : Text) (file : MemoryFile)
    (store : MemoryStore) : ViewSession :=
  { s with store := store, opened := s.opened.set descriptor (path, file) }

/-- What a call through the view answers, and the session after it; `none` where there is
no such descriptor. -/
def answer : ViewCall → ViewSession → Option (ViewReply × ViewSession)
  | .unmount path, s =>
      some (.done, { s with
        mounts := ((overStore s.mounts s.builtins s.store).unmount
          (readOnlyFileSystem inner) path).mounts })
  | .openFile now path flags mode, s =>
      let done := (s.view inner).openFile now path flags mode s.store
      some (.opened done.1, { s with
        store := done.2
        opened := s.opened ++ (done.1.map fun file => (path, file)).toList })
  | .createDirectory now path mode, s =>
      let done := (s.view inner).createDirectory now path mode s.store
      some (.code done.1, { s with store := done.2 })
  | .removeDirectory now path, s =>
      let done := (s.view inner).removeDirectory now path s.store
      some (.code done.1, { s with store := done.2 })
  | .removeFile now path, s =>
      let done := (s.view inner).removeFile now path s.store
      some (.code done.1, { s with store := done.2 })
  | .readDirectory path, s => some (.entries ((s.view inner).readDirectory path s.store), s)
  | .stat path, s => some (.status ((s.view inner).stat path s.store), s)
  | .removeBuiltinCommand path, s =>
      let done := (overStore s.mounts s.builtins s.store).removeBuiltinCommand
        (readOnlyFileSystem inner) path
      some (.code done.1, { s with builtins := done.2.builtins })
  | .isBuiltinCommand path, s =>
      some (.builtin ((s.view inner).isBuiltinCommand path s.store), s)
  | .read now descriptor count, s =>
      s.opened[descriptor]?.map fun entry =>
        let done := entry.2.read now count s.store
        (.bytes done.1 done.2.1, s.withFile descriptor entry.1 done.2.2.1 done.2.2.2)
  | .write now descriptor buf, s =>
      s.opened[descriptor]?.map fun entry =>
        let done := entry.2.write now buf s.store
        (.code done.1, s.withFile descriptor entry.1 done.2.1 done.2.2)

def step (call : ViewCall) (s : ViewSession) : Option ViewSession :=
  (answer inner call s).map (·.2)

end ViewSession

def contentThrough (now : FileDateTime) (f : Operations MemoryStore MemoryFile) (path : Text)
    (store : MemoryStore) : Option (List UInt8) :=
  (f.openFile now path {} none store).1.bind fun file => MemoryFile.content file store

theorem Built.contentThrough_same {f : Operations MemoryStore MemoryFile} (h : Built f)
    {s t : MemoryStore} (hsame : SameContents s t) (now now' : FileDateTime) (path : Text) :
    contentThrough now f path t = contentThrough now' f path s := by
  rw [contentThrough, contentThrough, h.looks.openFile_same now now' path none none t s hsame.symm]
  congr 1
  funext file
  exact MemoryFile.content_same hsame file

theorem Built.content_opened {f : Operations MemoryStore MemoryFile} (h : Built f)
    {s t : MemoryStore} (hsame : SameContents s t) {now : FileDateTime} {path : Text}
    {mode : Option Nat} {file : MemoryFile}
    (hopened : (f.openFile now path {} mode t).1 = some file)
    (now' : FileDateTime) : MemoryFile.content file s = contentThrough now' f path s := by
  rw [contentThrough, h.looks.openFile_same now' now path none mode s t hsame, hopened]
  rfl

namespace ViewSession

variable {inner : Operations MemoryStore MemoryFile}

/-- What every session through a view of `inner` keeps, `store` being the first store. -/
structure Intact (inner : Operations MemoryStore MemoryFile) (store : MemoryStore)
    (s : ViewSession) : Prop where
  noMounts : s.mounts = []
  noBuiltins : s.builtins = ∅
  same : SameContents store s.store
  quiet : ∀ entry ∈ s.opened, MemoryFile.Quiet entry.2 store
  shown : ∀ entry ∈ s.opened, ∀ now,
    MemoryFile.content entry.2 store = contentThrough now inner entry.1 store

theorem view_openFile {store : MemoryStore} {s : ViewSession} (h : Intact inner store s)
    (now : FileDateTime) (path : Text) (flags : OpenFlags) (mode : Option Nat) :
    (s.view inner).openFile now path flags mode s.store =
      if requestsWriteAccess flags then (none, s.store)
      else inner.openFile now (normalizeVirtualPath path) flags mode s.store := by
  rw [view, h.noMounts, h.noBuiltins]
  exact stacked_openFile_own rfl rfl now flags mode s.store

theorem Intact.withFile {store : MemoryStore} {s : ViewSession} (h : Intact inner store s)
    (descriptor : Nat) {path : Text} {file : MemoryFile} {after : MemoryStore}
    (hsame : SameContents s.store after) (hquiet : MemoryFile.Quiet file store)
    (hshown : ∀ now, MemoryFile.content file store = contentThrough now inner path store) :
    Intact inner store (s.withFile descriptor path file after) := by
  have hset : ∀ entry ∈ s.opened.set descriptor (path, file),
      entry ∈ s.opened ∨ entry = (path, file) := by
    intro entry hin
    exact List.mem_or_eq_of_mem_set hin
  refine ⟨h.noMounts, h.noBuiltins, h.same.trans hsame, ?_, ?_⟩
  · intro entry hin
    rcases hset entry hin with hold | rfl
    · exact h.quiet entry hold
    · exact hquiet
  · intro entry hin
    rcases hset entry hin with hold | rfl
    · exact h.shown entry hold
    · exact hshown

theorem intact_answer (hinner : Built inner) {store : MemoryStore} {s t : ViewSession}
    {call : ViewCall} {reply : ViewReply} (h : Intact inner store s)
    (hanswer : answer inner call s = some (reply, t)) :
    Intact inner store t ∧
      (call.asksToChange = true → reply.failed = true ∧ t.store = s.store) := by
  cases call with
  | unmount path =>
      cases hanswer
      refine ⟨⟨?_, h.noBuiltins, h.same, h.quiet, h.shown⟩, by rintro ⟨⟩⟩
      simp [overStore, MountableFileSystem.unmount, MountPoints.unmount, h.noMounts]
  | openFile now path flags mode =>
      simp only [answer, view_openFile h, Option.some.injEq, Prod.mk.injEq] at hanswer
      obtain ⟨rfl, rfl⟩ := hanswer
      cases hwrite : requestsWriteAccess flags with
      | true =>
          refine ⟨⟨h.noMounts, h.noBuiltins, h.same, ?_, ?_⟩, ?_⟩
          · simpa using h.quiet
          · simpa using h.shown
          · simp [ViewReply.failed]
      | false =>
          obtain rfl := eq_of_not_requestsWriteAccess hwrite
          have hstore := hinner.looks.openFile_store now path mode s.store
          have hnew : ∀ file, (inner.openFile now path {} mode s.store).1 = some file →
              MemoryFile.Quiet file store ∧ ∀ now',
                MemoryFile.content file store = contentThrough now' inner path store := by
            intro file hfile
            exact ⟨(hinner.looks.openFile_quiet now path mode s.store file hfile).same h.same.symm,
              hinner.content_opened h.same hfile⟩
          refine ⟨?_, by simp [ViewCall.asksToChange, hwrite]⟩
          simp only [Bool.false_eq_true, if_false, hinner.looks.openFile_normalized]
          cases hfile : (inner.openFile now path {} mode s.store).1 with
          | none => exact ⟨h.noMounts, h.noBuiltins, by rw [hstore]; exact h.same,
              by simpa [hfile] using h.quiet, by simpa [hfile] using h.shown⟩
          | some file =>
              refine ⟨h.noMounts, h.noBuiltins, by rw [hstore]; exact h.same, ?_, ?_⟩
              · intro entry hin
                rcases List.mem_append.1 hin with hold | hfresh
                · exact h.quiet entry hold
                · obtain rfl : entry = (path, file) := by simpa using hfresh
                  exact (hnew file hfile).1
              · intro entry hin
                rcases List.mem_append.1 hin with hold | hfresh
                · exact h.shown entry hold
                · obtain rfl : entry = (path, file) := by simpa using hfresh
                  exact (hnew file hfile).2
  | createDirectory now path mode =>
      simp only [answer, view, h.noMounts, h.noBuiltins] at hanswer
      cases hanswer
      exact ⟨⟨rfl, rfl, h.same, h.quiet, h.shown⟩, fun _ => ⟨rfl, rfl⟩⟩
  | removeDirectory now path =>
      simp only [answer, view, h.noMounts, h.noBuiltins] at hanswer
      cases hanswer
      exact ⟨⟨rfl, rfl, h.same, h.quiet, h.shown⟩, fun _ => ⟨rfl, rfl⟩⟩
  | removeFile now path =>
      simp only [answer, view, h.noMounts, h.noBuiltins] at hanswer
      cases hanswer
      exact ⟨⟨rfl, rfl, h.same, h.quiet, h.shown⟩, fun _ => ⟨rfl, rfl⟩⟩
  | readDirectory path =>
      cases hanswer
      exact ⟨h, by rintro ⟨⟩⟩
  | stat path =>
      cases hanswer
      exact ⟨h, by rintro ⟨⟩⟩
  | removeBuiltinCommand path =>
      simp only [answer, h.noBuiltins] at hanswer
      cases hanswer
      exact ⟨⟨h.noMounts, rfl, h.same, h.quiet, h.shown⟩, fun _ => ⟨rfl, rfl⟩⟩
  | isBuiltinCommand path =>
      cases hanswer
      exact ⟨h, by rintro ⟨⟩⟩
  | read now descriptor count =>
      simp only [answer, Option.map_eq_some_iff] at hanswer
      obtain ⟨entry, hentry, hdone⟩ := hanswer
      cases hdone
      have hin := List.mem_of_getElem? hentry
      obtain ⟨bytes, hbytes, -, -, hquiet, hcontent, hsame⟩ :=
        ((h.quiet entry hin).same h.same).read now count
      refine ⟨h.withFile descriptor hsame (hquiet.same h.same.symm) ?_, by rintro ⟨⟩⟩
      intro now'
      rw [← h.shown entry hin now', ← MemoryFile.content_same h.same, hcontent,
        ← MemoryFile.content_same h.same, hbytes]
  | write now descriptor buf =>
      simp only [answer, Option.map_eq_some_iff] at hanswer
      obtain ⟨entry, hentry, hdone⟩ := hanswer
      have hin := List.mem_of_getElem? hentry
      rw [((h.quiet entry hin).same h.same).write] at hdone
      cases hdone
      exact ⟨h.withFile descriptor (.refl _) (h.quiet entry hin) (h.shown entry hin),
        fun _ => ⟨rfl, rfl⟩⟩

theorem intact_run (hinner : Built inner) {store : MemoryStore} {calls : List ViewCall}
    {s : ViewSession} (hrun : Transition.run (step inner) calls { store := store } = some s) :
    Intact inner store s := by
  apply Transition.run_preserves (P := Intact inner store) ?_ hrun
  · exact ⟨rfl, rfl, .refl store, by simp, by simp⟩
  · intro call s t hstep h
    obtain ⟨done, hdone, rfl⟩ := Option.map_eq_some_iff.1 hstep
    exact (intact_answer hinner h hdone).1

theorem answer_look (hinner : Built inner) {store : MemoryStore} {s : ViewSession}
    (h : Intact inner store s) (path : Text) :
    answer inner (.stat path) s = some (.status (inner.stat path s.store), s) ∧
      answer inner (.readDirectory path) s = some (.entries (inner.readDirectory path s.store), s) ∧
      answer inner (.isBuiltinCommand path) s =
        some (.builtin (inner.isBuiltinCommand path s.store), s) := by
  have hview : s.view inner = bare (readOnlyFileSystem inner) := by
    rw [view, h.noMounts, h.noBuiltins, bare]
  simp only [answer, hview, bare_stat, bare_readDirectory, bare_isBuiltinCommand,
    readOnlyFileSystem, hinner.looks.stat_normalized, hinner.looks.readDirectory_normalized,
    hinner.looks.isBuiltinCommand_normalized, hinner.readDirectory_dots, and_self]

/-- A view never changes what it shows, and shows what is there. -/
theorem readOnlyView_run {inner : Operations MemoryStore MemoryFile} (hinner : Built inner)
    {store : MemoryStore} {calls : List ViewCall} {s : ViewSession}
    (hrun : Transition.run (step inner) calls { store := store } = some s) :
    SameContents store s.store ∧
    (∀ path, (inner.stat path s.store).map (·.type) = (inner.stat path store).map (·.type)) ∧
    (∀ now now' path,
      contentThrough now inner path s.store = contentThrough now' inner path store) ∧
    (∀ path, inner.isBuiltinCommand path s.store = inner.isBuiltinCommand path store) ∧
    (∀ call reply t, answer inner call s = some (reply, t) → call.asksToChange = true →
      reply.failed = true ∧ t.store = s.store) ∧
    (∀ path, answer inner (.stat path) s = some (.status (inner.stat path s.store), s) ∧
      answer inner (.readDirectory path) s = some (.entries (inner.readDirectory path s.store), s) ∧
      answer inner (.isBuiltinCommand path) s =
        some (.builtin (inner.isBuiltinCommand path s.store), s)) ∧
    (∀ now path flags mode, requestsWriteAccess flags = false →
      (s.view inner).openFile now path flags mode s.store =
        inner.openFile now path flags mode s.store) ∧
    ∀ now descriptor count path file, s.opened[descriptor]? = some (path, file) →
      ∃ content t, contentThrough now inner path s.store = some content ∧
        answer inner (.read now descriptor count) s =
          some (.bytes ((content.drop (MemoryFile.position file)).take count).length
            ((content.drop (MemoryFile.position file)).take count), t) := by
  have h := intact_run hinner hrun
  refine ⟨h.same, ?_, ?_, ?_, fun call reply t hanswer => (intact_answer hinner h hanswer).2,
    answer_look hinner h, ?_, ?_⟩
  · intro path
    exact (hinner.looks.stat_same path store s.store h.same).symm
  · intro now now' path
    exact hinner.contentThrough_same h.same now now' path
  · intro path
    exact (hinner.looks.isBuiltinCommand_same path store s.store h.same).symm
  · intro now path flags mode hflags
    rw [view_openFile h, hflags, if_neg Bool.false_ne_true, hinner.looks.openFile_normalized]
  · intro now descriptor count path file hentry
    have hin := List.mem_of_getElem? hentry
    obtain ⟨bytes, hbytes, hresult, hout, -⟩ :=
      MemoryFile.Quiet.read ((h.quiet _ hin).same h.same) now count
    refine ⟨bytes, _, ?_, by simp only [answer, hentry, Option.map_some, hresult, hout]; rfl⟩
    rw [hinner.contentThrough_same h.same now now, ← h.shown _ hin now,
      ← MemoryFile.content_same h.same, hbytes]

def twoStores : MemoryStore := fun id =>
  ⟨if id = 1 then
      AList.insert (text "/f")
        { data := [104, 105], accessTime := {}, modificationTime := {}, changeTime := {} }
        (InMemoryFileSystem.create {}).nodes
    else (InMemoryFileSystem.create {}).nodes⟩

/-- The second mounted in the first, and wrapped there. -/
def mountedWrapped : Operations MemoryStore MemoryFile :=
  bare (subFileSystem (stacked (memoryFileSystem 0)
    [⟨text "/m", bare (memoryFileSystem 1), {}⟩] ∅) (text "/m/../m"))

theorem built_mountedWrapped : Built mountedWrapped := by
  refine .wrapped _ _ [] ∅ (.memory 0 _ ∅ ?_) (by simp)
  simp only [List.mem_singleton, forall_eq]
  exact .memory 1 [] ∅ (by simp)

def lookAndTry : List ViewCall :=
  [.openFile {} (text "f") {} none, .read {} 0 1, .write {} 0 [0],
    .createDirectory {} (text "d") 0, .removeFile {} (text "f")]

theorem readOnlyView_run_mountedWrapped :
    ∃ s, Transition.run (step mountedWrapped) lookAndTry { store := twoStores } = some s ∧
      SameContents twoStores s.store ∧
      contentThrough {} mountedWrapped (text "f") s.store = some [104, 105] := by
  have hrun : (Transition.run (step mountedWrapped) lookAndTry { store := twoStores }).isSome =
      true := by rfl
  obtain ⟨s, hs⟩ := Option.isSome_iff_exists.1 hrun
  have h := readOnlyView_run built_mountedWrapped hs
  exact ⟨s, hs, h.1, (h.2.2.1 {} {} (text "f")).trans (by rfl)⟩

end ViewSession

end Haisos.Filesystem
