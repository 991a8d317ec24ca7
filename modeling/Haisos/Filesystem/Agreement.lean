import Haisos.Filesystem.SameStory

/-!
# Creating and removing, and what `Stat` says before and after

What each call promises about its path, for a mounted filesystem and for the one that
mounts it, and exactly when the promise is kept: a directory that is there only as the
way down to a mount point is not seen by the tree underneath.
-/

namespace Haisos.Filesystem

open Hsh (Text text)
open InMemoryFileSystem (kindAt)

variable {ω δ' : Type*}

/-! ## What a call promises -/

/-- A failing call changes nothing; a successful one found `before` and left `after`. -/
structure Promise {α σ : Type*} (failed : α → Prop) (before : Prop) (after : σ → Prop)
    (s : σ) (result : α × σ) : Prop where
  failure : failed result.1 → result.2 = s
  success : ¬ failed result.1 → before ∧ after result.2

/-- What `Stat` and the listing say of a path, in the state `σ`. -/
structure View (σ : Type*) where
  typeOf : Text → σ → Option EntryType
  listing : Text → σ → List DirectoryEntry

namespace View

variable {σ : Type*} (view : View σ)

def CreatesDirectory (p : Text) (s : σ) (result : Int × σ) : Prop :=
  Promise (· ≠ 0) (view.typeOf p s = none) (fun t => view.typeOf p t = some .dir) s result

/-- A device of a mounted filesystem may be opened too. -/
def Opens {α : Type*} (p : Text) (s : σ) (result : Option α × σ) : Prop :=
  Promise (· = none) (view.typeOf p s ≠ some .dir)
    (fun t => view.typeOf p t = some .file ∨ view.typeOf p t = some .charDevice) s result

def RemovesDirectory (p : Text) (s : σ) (result : Int × σ) : Prop :=
  Promise (· ≠ 0)
    (view.typeOf p s = some .dir ∧
      ∀ e ∈ view.listing p s, MountableFileSystem.isDotEntry e = true)
    (fun t => view.typeOf p t = none) s result

def RemovesFile (p : Text) (s : σ) (result : Int × σ) : Prop :=
  Promise (· ≠ 0) (view.typeOf p s = some .file) (fun t => view.typeOf p t = none) s result

end View

/-- What `Stat` and the listing of a mounted filesystem say. -/
def mountedView (filesystem : Operations ω δ') : View ω where
  typeOf p world := (filesystem.stat p world).map (·.type)
  listing p world := filesystem.readDirectory p world

/-- A mounted filesystem that keeps the promises itself, in this state of the world. -/
structure Trustworthy (filesystem : Operations ω δ') (world : ω) : Prop where
  createDirectory : ∀ now r mode, AreSegments r →
    (mountedView filesystem).CreatesDirectory (render r) world
      (filesystem.createDirectory now (render r) mode world)
  openFile : ∀ now r flags mode, AreSegments r →
    (mountedView filesystem).Opens (render r) world
      (filesystem.openFile now (render r) flags mode world)
  removeDirectory : ∀ now r, AreSegments r →
    (mountedView filesystem).RemovesDirectory (render r) world
      (filesystem.removeDirectory now (render r) world)
  removeFile : ∀ now r, AreSegments r →
    (mountedView filesystem).RemovesFile (render r) world
      (filesystem.removeFile now (render r) world)

/-- What `Stat` and the listing of a filesystem with mounts say. -/
def ownView (ω δ' : Type*) : View (MemoryFileSystem ω δ' × ω) where
  typeOf p s := s.1.entryTypeOf inMemory p s.2
  listing p s := s.1.readDirectory inMemory p s.2

/-! ## Where the tree underneath answers -/

def MountBelow (fs : MemoryFileSystem ω δ') (p : List Text) : Prop :=
  ∃ entry ∈ fs.mounts, ∃ segment rest, AreSegments (p ++ segment :: rest) ∧
    entry.path = render (p ++ segment :: rest)

/-- No builtin sits on the path, and no mount serves it: the tree answers for it. -/
structure OwnPath (fs : MemoryFileSystem ω δ') (p : List Text) : Prop where
  noBuiltin : fs.builtins.lookup (render p) = none
  noMount : fs.resolve (render p) = none

/-- Only a mount point below makes this path a directory, and the tree could make one. -/
structure CreatableWayDown (fs : MemoryFileSystem ω δ') (p : List Text) : Prop where
  own : OwnPath fs p
  below : MountBelow fs p
  absent : fs.content.kindAt (render p) = none
  parent : fs.content.parentIsDirectory (render p) = true

/-- An empty directory of the tree above a mount point, with no builtin in it. -/
structure RemovableWayDown (fs : MemoryFileSystem ω δ') (p : List Text) : Prop where
  noBuiltin : fs.hasOwnBuiltinAtOrUnder (render p) = false
  noMount : fs.resolve (render p) = none
  below : MountBelow fs p
  notRoot : p ≠ []
  directory : fs.content.kindAt (render p) = some true
  childless : ∀ s, AreSegments [s] → fs.content.kindAt (render (p ++ [s])) = none

/-- A plain file of the tree above a mount point. -/
structure FileInTheWay (fs : MemoryFileSystem ω δ') (p : List Text) : Prop where
  own : OwnPath fs p
  below : MountBelow fs p
  file : fs.content.kindAt (render p) = some false

namespace MountableFileSystem

variable {fs : MemoryFileSystem ω δ'} {world : ω} {path : Text}

/-- The type of a path the tree answers for, by what the tree has there. -/
def ownType (mounts : List (MountEntry (Operations ω δ'))) (p : List Text) :
    Option Bool → Option EntryType
  | some isDirectory => some (kindType isDirectory)
  | none =>
      if (MountPoints.latestMountTimeBelow mounts (render p)).isSome then some .dir else none

theorem typeOf_own (h : OwnPath fs (virtualSegments path ['/'])) (world : ω) :
    fs.entryTypeOf inMemory path world =
      ownType fs.mounts (virtualSegments path ['/'])
        (fs.content.kindAt (render (virtualSegments path ['/']))) := by
  rw [entryTypeOf_eq]
  simp only [h.noBuiltin, h.noMount]
  rfl

theorem typeOf_own_changed (h : OwnPath fs (virtualSegments path ['/'])) (world : ω)
    {content : InMemoryFileSystem} {kind : Option Bool}
    (hkind : content.kindAt (render (virtualSegments path ['/'])) = kind) :
    ({ fs with content := content } : MemoryFileSystem ω δ').entryTypeOf inMemory path world =
      ownType fs.mounts (virtualSegments path ['/']) kind := by
  rw [← hkind]
  have hown : OwnPath ({ fs with content := content } : MemoryFileSystem ω δ')
      (virtualSegments path ['/']) := ⟨h.noBuiltin, h.noMount⟩
  exact typeOf_own hown world

theorem typeOf_own_present (h : OwnPath fs (virtualSegments path ['/'])) (world : ω)
    {isDirectory : Bool}
    (hkind : fs.content.kindAt (render (virtualSegments path ['/'])) = some isDirectory) :
    fs.entryTypeOf inMemory path world = some (kindType isDirectory) := by
  rw [typeOf_own h, hkind, ownType]

theorem ownType_none (h : WellFormed fs) {p : List Text} (hp : AreSegments p) :
    ownType fs.mounts p none = none ↔ ¬ MountBelow fs p := by
  rw [MountBelow, ← MountPoints.latestMountTimeBelow_isSome h.mounts hp, ownType]
  cases (MountPoints.latestMountTimeBelow fs.mounts (render p)).isSome <;> simp

theorem typeOf_mounted
    (hbuiltin : fs.builtins.lookup (render (virtualSegments path ['/'])) = none)
    {route : Route (Operations ω δ')}
    (hroute : fs.resolve (render (virtualSegments path ['/'])) = some route) (world : ω) :
    fs.entryTypeOf inMemory path world =
      (mountedView route.filesystem).typeOf route.innerPath world := by
  rw [entryTypeOf_eq]
  simp only [hbuiltin, hroute]
  rfl

theorem route_inner (h : WellFormed fs) {route : Route (Operations ω δ')}
    (hroute : fs.resolve (render (virtualSegments path ['/'])) = some route) :
    ∃ entry ∈ fs.mounts, ∃ r, AreSegments r ∧ route = ⟨entry.filesystem, render r⟩ := by
  obtain ⟨entry, hin, m, r, hm, hr, -, -, rfl⟩ :=
    MountPoints.resolve_eq_some (virtualSegments_areSegments path ['/']) h.mounts hroute
  exact ⟨entry, hin, r, hr, rfl⟩

/-! ## Creating a directory -/

theorem createDirectory_eq (fs : MemoryFileSystem ω δ') (now : FileDateTime) (path : Text)
    (mode : Nat) (world : ω) :
    fs.createDirectory inMemory now path mode world =
      match fs.builtins.lookup (render (virtualSegments path ['/'])) with
      | some _ => (-1, fs, world)
      | none =>
          match fs.resolve (render (virtualSegments path ['/'])) with
          | some route =>
              fs.withWorld (route.filesystem.createDirectory now route.innerPath mode world)
          | none => fs.withContent world (fs.content.localCreateDirectory now path) := by
  unfold createDirectory ownBuiltinAt
  change (if (Option.map _ (fs.builtins.lookup (render (virtualSegments path ['/'])))).isSome
    = true then _ else _) = _
  cases fs.builtins.lookup (render (virtualSegments path ['/'])) <;> rfl

theorem localCreateDirectory_eq (content : InMemoryFileSystem) (now : FileDateTime)
    (path : Text) :
    content.localCreateDirectory now path =
      if content.kindAt (render (virtualSegments path ['/'])) = none ∧
          content.parentIsDirectory (render (virtualSegments path ['/'])) = true then
        (0, content.emplace now (render (virtualSegments path ['/'])) true)
      else (-1, content) := by
  unfold InMemoryFileSystem.localCreateDirectory normalizeVirtualPath
  simp only [InMemoryFileSystem.kindAt_eq_none]
  cases content.nodes.lookup (render (virtualSegments path ['/'])) with
  | some node => simp
  | none =>
      cases content.parentIsDirectory (render (virtualSegments path ['/'])) <;> simp

theorem createDirectory_promise_iff (h : WellFormed fs)
    (hmounted : ∀ entry ∈ fs.mounts, Trustworthy entry.filesystem world) (now : FileDateTime)
    (path : Text) (mode : Nat) :
    (ownView ω δ').CreatesDirectory path (fs, world)
        (fs.createDirectory inMemory now path mode world) ↔
      ¬ CreatableWayDown fs (virtualSegments path ['/']) := by
  rw [createDirectory_eq]
  cases hbuiltin : fs.builtins.lookup (render (virtualSegments path ['/'])) with
  | some builtin =>
      refine iff_of_true ⟨fun _ => rfl, fun hok => absurd (show (-1 : Int) ≠ 0 by decide) hok⟩ fun hway => ?_
      exact nomatch hbuiltin.symm.trans hway.own.noBuiltin
  | none =>
      cases hroute : fs.resolve (render (virtualSegments path ['/'])) with
      | some route =>
          refine iff_of_true ?_ fun hway => nomatch hroute.symm.trans hway.own.noMount
          obtain ⟨entry, hin, r, hr, rfl⟩ := route_inner h hroute
          have hpromise := (hmounted entry hin).createDirectory now r mode hr
          refine ⟨fun hfailed => ?_, fun hok => ?_⟩
          · exact Prod.ext rfl (hpromise.failure hfailed)
          · obtain ⟨hbefore, hafter⟩ := hpromise.success hok
            exact ⟨(typeOf_mounted hbuiltin hroute world).trans hbefore,
              (typeOf_mounted hbuiltin hroute _).trans hafter⟩
      | none =>
          have hown : OwnPath fs (virtualSegments path ['/']) := ⟨hbuiltin, hroute⟩
          simp only [localCreateDirectory_eq]
          split_ifs with hcreate
          · have habsent := ownType_none h (virtualSegments_areSegments path ['/'])
            rw [← hcreate.1, ← typeOf_own hown world] at habsent
            have hkind : (fs.content.emplace now (render (virtualSegments path ['/'])) true).kindAt
                (render (virtualSegments path ['/'])) = some true := by
              rw [InMemoryFileSystem.emplace, InMemoryFileSystem.kindAt_touchDirectory,
                InMemoryFileSystem.kindAt_insert, if_pos rfl]
              rfl
            have hafter := typeOf_own_changed hown world hkind
            constructor
            · intro hpromise hway
              exact habsent.1 (hpromise.success fun hfailed => hfailed rfl).1 hway.below
            · intro hnot
              refine ⟨fun hfailed => absurd rfl hfailed, fun _ => ⟨habsent.2 ?_, hafter⟩⟩
              exact fun hbelow => hnot ⟨hown, hbelow, hcreate.1, hcreate.2⟩
          · refine iff_of_true ⟨fun _ => rfl, fun hok => absurd (show (-1 : Int) ≠ 0 by decide) hok⟩ fun hway => ?_
            exact hcreate ⟨hway.absent, hway.parent⟩

/-! ## Opening a file -/

theorem openFile_eq (fs : MemoryFileSystem ω δ') (now : FileDateTime) (path : Text)
    (flags : OpenFlags) (mode : Option Nat) (world : ω) :
    fs.openFile inMemory now path flags mode world =
      match fs.builtins.lookup (render (virtualSegments path ['/'])) with
      | some builtin =>
          if requestsWriteAccess flags then (none, fs, world)
          else (some (.builtin { content := builtinCommandFileContent builtin.name }), fs, world)
      | none =>
          match fs.resolve (render (virtualSegments path ['/'])) with
          | some route =>
              let opened := route.filesystem.openFile now route.innerPath flags mode world
              fs.withWorld (opened.1.map .mounted, opened.2)
          | none =>
              let opened := fs.content.localOpenFile now path flags
              fs.withContent world (opened.1.map .own, opened.2) := by
  have hbuiltin : fs.ownBuiltinAt (inMemory.absolutePathFor path) =
      (fs.builtins.lookup (render (virtualSegments path ['/']))).map Builtin.name := rfl
  rw [openFile, hbuiltin]
  cases fs.builtins.lookup (render (virtualSegments path ['/'])) <;> rfl

theorem localOpenFile_cases (content : InMemoryFileSystem) (now : FileDateTime) (path : Text)
    (flags : OpenFlags) :
    (content.localOpenFile now path flags = (none, content) ∧
      (content.kindAt (render (virtualSegments path ['/'])) = none →
        ¬ (flags.create = true ∧
          content.parentIsDirectory (render (virtualSegments path ['/'])) = true))) ∨
    ∃ file content', content.localOpenFile now path flags = (some file, content') ∧
      content'.kindAt (render (virtualSegments path ['/'])) = some false ∧
      (content.kindAt (render (virtualSegments path ['/'])) = some false ∨
        content.kindAt (render (virtualSegments path ['/'])) = none ∧ flags.create = true ∧
          content.parentIsDirectory (render (virtualSegments path ['/'])) = true) := by
  unfold InMemoryFileSystem.localOpenFile normalizeVirtualPath
  simp only
  cases hlookup : content.nodes.lookup (render (virtualSegments path ['/'])) with
  | some node =>
      have hkind := InMemoryFileSystem.kindAt_of_lookup hlookup
      cases hdirectory : node.isDirectory with
      | true => simp [hkind, hdirectory]
      | false =>
          right
          rw [hdirectory] at hkind
          simp only [hdirectory, Bool.false_eq_true, if_false]
          refine ⟨_, _, rfl, ?_, .inl hkind⟩
          split_ifs
          · rw [InMemoryFileSystem.kindAt_insert_same hlookup (by rw [hdirectory]; rfl)]
            exact hkind
          · exact hkind
  | none =>
      have hkind := InMemoryFileSystem.kindAt_eq_none.2 hlookup
      cases hcreate : flags.create with
      | false => simp
      | true =>
          cases hparent : content.parentIsDirectory (render (virtualSegments path ['/'])) with
          | false => simp
          | true =>
              right
              refine ⟨_, _, rfl, ?_, .inr ⟨hkind, rfl, rfl⟩⟩
              rw [InMemoryFileSystem.emplace, InMemoryFileSystem.kindAt_touchDirectory,
                InMemoryFileSystem.kindAt_insert, if_pos rfl]
              rfl

theorem openFile_promise_iff (h : WellFormed fs)
    (hmounted : ∀ entry ∈ fs.mounts, Trustworthy entry.filesystem world) (now : FileDateTime)
    (path : Text) (flags : OpenFlags) (mode : Option Nat) :
    (ownView ω δ').Opens path (fs, world)
        (fs.openFile inMemory now path flags mode world) ↔
      (flags.create = true → ¬ CreatableWayDown fs (virtualSegments path ['/'])) := by
  rw [openFile_eq]
  cases hbuiltin : fs.builtins.lookup (render (virtualSegments path ['/'])) with
  | some builtin =>
      refine iff_of_true ?_ fun _ hway => Option.some_ne_none _ (hbuiltin.symm.trans hway.own.noBuiltin)
      have hfile : fs.entryTypeOf inMemory path world = some .file := by
        rw [entryTypeOf_eq, hbuiltin]
      simp only
      split_ifs
      · exact ⟨fun _ => rfl, fun hok => absurd rfl hok⟩
      · refine ⟨fun hfailed => absurd hfailed (Option.some_ne_none _), fun _ => ⟨?_, .inl hfile⟩⟩
        simp [ownView, hfile]
  | none =>
      cases hroute : fs.resolve (render (virtualSegments path ['/'])) with
      | some route =>
          refine iff_of_true ?_ fun _ hway =>
            Option.some_ne_none _ (hroute.symm.trans hway.own.noMount)
          obtain ⟨entry, hin, r, hr, rfl⟩ := route_inner h hroute
          have hpromise := (hmounted entry hin).openFile now r flags mode hr
          refine ⟨fun hfailed => ?_, fun hok => ?_⟩
          · exact Prod.ext rfl (hpromise.failure (Option.map_eq_none_iff.1 hfailed))
          · obtain ⟨hbefore, hafter⟩ := hpromise.success (mt Option.map_eq_none_iff.2 hok)
            simp only [ownView, withWorld, typeOf_mounted hbuiltin hroute]
            exact ⟨hbefore, hafter⟩
      | none =>
          have hown : OwnPath fs (virtualSegments path ['/']) := ⟨hbuiltin, hroute⟩
          have habsent := ownType_none h (virtualSegments_areSegments path ['/'])
          rcases localOpenFile_cases fs.content now path flags with
            ⟨hopen, hrefused⟩ | ⟨file, content, hopen, hkind, hwhy⟩
          · simp only [hopen]
            refine iff_of_true ⟨fun _ => rfl, fun hok => absurd rfl hok⟩ fun hcreate hway => ?_
            exact hrefused hway.absent ⟨hcreate, hway.parent⟩
          · have hafter := typeOf_own_changed hown world hkind
            simp only [hopen]
            rcases hwhy with hfile | ⟨hnone, hcreate, hparent⟩
            · refine iff_of_true
                ⟨fun hfailed => absurd hfailed (Option.some_ne_none _), fun _ => ⟨?_, .inl hafter⟩⟩ ?_
              · simp [ownView, typeOf_own_present hown world hfile, kindType]
              · exact fun _ hway => Option.some_ne_none _ (hfile.symm.trans hway.absent)
            · constructor
              · intro hpromise _ hway
                refine (hpromise.success (Option.some_ne_none _)).1 ?_
                change fs.entryTypeOf inMemory path world = some .dir
                rw [typeOf_own hown, hnone, ownType, if_pos]
                exact (MountPoints.latestMountTimeBelow_isSome h.mounts
                  (virtualSegments_areSegments path ['/'])).2 hway.below
              · intro hnot
                refine ⟨fun hfailed => absurd hfailed (Option.some_ne_none _),
                  fun _ => ⟨?_, .inl hafter⟩⟩
                have hbelow : ¬ MountBelow fs (virtualSegments path ['/']) :=
                  fun hbelow => hnot hcreate ⟨hown, hbelow, hnone, hparent⟩
                change fs.entryTypeOf inMemory path world ≠ some .dir
                rw [typeOf_own hown, hnone, habsent.2 hbelow]
                exact (Option.some_ne_none _).symm

/-! ## Removing a file -/

theorem removeFile_eq (fs : MemoryFileSystem ω δ') (now : FileDateTime) (path : Text)
    (world : ω) :
    fs.removeFile inMemory now path world =
      match fs.builtins.lookup (render (virtualSegments path ['/'])) with
      | some _ => (-1, fs, world)
      | none =>
          match fs.resolve (render (virtualSegments path ['/'])) with
          | some route => fs.withWorld (route.filesystem.removeFile now route.innerPath world)
          | none => fs.withContent world (fs.content.localRemoveFile now path) := by
  unfold removeFile ownBuiltinAt
  change (if (Option.map _ (fs.builtins.lookup (render (virtualSegments path ['/'])))).isSome
    = true then _ else _) = _
  cases fs.builtins.lookup (render (virtualSegments path ['/'])) <;> rfl

theorem localRemoveFile_eq (content : InMemoryFileSystem) (now : FileDateTime) (path : Text) :
    content.localRemoveFile now path =
      if content.kindAt (render (virtualSegments path ['/'])) = some false then
        (0, content.eraseNode now (render (virtualSegments path ['/'])))
      else (-1, content) := by
  unfold InMemoryFileSystem.localRemoveFile normalizeVirtualPath kindAt
  simp only
  cases content.nodes.lookup (render (virtualSegments path ['/'])) with
  | none => simp
  | some node => cases hkind : node.isDirectory <;> simp [hkind]

theorem kindAt_eraseNode (content : InMemoryFileSystem) (now : FileDateTime) (path : Text) :
    (content.eraseNode now path).kindAt path = none := by
  rw [InMemoryFileSystem.eraseNode, InMemoryFileSystem.kindAt_touchDirectory,
    InMemoryFileSystem.kindAt_erase, if_pos rfl]

theorem removeFile_promise_iff (h : WellFormed fs)
    (hmounted : ∀ entry ∈ fs.mounts, Trustworthy entry.filesystem world) (now : FileDateTime)
    (path : Text) :
    (ownView ω δ').RemovesFile path (fs, world)
        (fs.removeFile inMemory now path world) ↔
      ¬ FileInTheWay fs (virtualSegments path ['/']) := by
  rw [removeFile_eq]
  cases hbuiltin : fs.builtins.lookup (render (virtualSegments path ['/'])) with
  | some builtin =>
      refine iff_of_true ⟨fun _ => rfl, fun hok => absurd (show (-1 : Int) ≠ 0 by decide) hok⟩
        fun hway => ?_
      exact nomatch hbuiltin.symm.trans hway.own.noBuiltin
  | none =>
      cases hroute : fs.resolve (render (virtualSegments path ['/'])) with
      | some route =>
          refine iff_of_true ?_ fun hway => nomatch hroute.symm.trans hway.own.noMount
          obtain ⟨entry, hin, r, hr, rfl⟩ := route_inner h hroute
          have hpromise := (hmounted entry hin).removeFile now r hr
          refine ⟨fun hfailed => ?_, fun hok => ?_⟩
          · exact Prod.ext rfl (hpromise.failure hfailed)
          · obtain ⟨hbefore, hafter⟩ := hpromise.success hok
            exact ⟨(typeOf_mounted hbuiltin hroute world).trans hbefore,
              (typeOf_mounted hbuiltin hroute _).trans hafter⟩
      | none =>
          have hown : OwnPath fs (virtualSegments path ['/']) := ⟨hbuiltin, hroute⟩
          have habsent := ownType_none h (virtualSegments_areSegments path ['/'])
          simp only [localRemoveFile_eq]
          split_ifs with hfile
          · have hafter := typeOf_own_changed hown world
              (kindAt_eraseNode fs.content now (render (virtualSegments path ['/'])))
            rw [← hafter] at habsent
            constructor
            · intro hpromise hway
              exact habsent.1 (hpromise.success fun hfailed => hfailed rfl).2 hway.below
            · intro hnot
              refine ⟨fun hfailed => absurd rfl hfailed, fun _ =>
                ⟨typeOf_own_present hown world hfile, habsent.2 ?_⟩⟩
              exact fun hbelow => hnot ⟨hown, hbelow, hfile⟩
          · exact iff_of_true
              ⟨fun _ => rfl, fun hok => absurd (show (-1 : Int) ≠ 0 by decide) hok⟩
              fun hway => hfile hway.file

/-! ## Removing a directory -/

theorem removeDirectory_eq (fs : MemoryFileSystem ω δ') (now : FileDateTime) (path : Text)
    (world : ω) :
    fs.removeDirectory inMemory now path world =
      if fs.hasOwnBuiltinAtOrUnder (render (virtualSegments path ['/'])) = true then
        (-1, fs, world)
      else
        match fs.resolve (render (virtualSegments path ['/'])) with
        | some route =>
            fs.withWorld (route.filesystem.removeDirectory now route.innerPath world)
        | none => fs.withContent world (fs.content.localRemoveDirectory now path) := rfl

theorem isAtOrUnder_of_prefix {p q : List Text} (hp : AreSegments p) (hq : AreSegments q)
    (h : p <+: q) : isAtOrUnder (render q) (render p) = true := by
  rw [isAtOrUnder]
  split_ifs with hsame
  · rfl
  · have hpne : p ≠ [] := fun hnil => hsame (.inl ((render_eq_slash hp).2 hnil))
    have hdiff : q ≠ p := fun heq => hsame (.inr (by rw [heq]))
    obtain ⟨r, rfl⟩ := h
    cases r with
    | nil => exact absurd (List.append_nil p) hdiff
    | cons s r =>
        have hstart : startsWith (joinSegments p ++ joinSegments (s :: r)) (joinSegments p) =
            true := List.isPrefixOf_iff_prefix.2 (List.prefix_append _ _)
        rw [render_of_ne_nil hpne, render_of_ne_nil (by simp), joinSegments_append, hstart]
        simp

theorem lookup_of_noBuiltinUnder {p q : List Text} (hp : AreSegments p) (hq : AreSegments q)
    (hunder : p <+: q) (h : fs.hasOwnBuiltinAtOrUnder (render p) = false) :
    fs.builtins.lookup (render q) = none := by
  by_contra hsome
  have hin : render q ∈ fs.builtins.keys := by
    rw [← AList.mem_keys, ← AList.lookup_isSome, Option.isSome_iff_ne_none]
    exact hsome
  have hany : fs.hasOwnBuiltinAtOrUnder (render p) = true :=
    List.any_eq_true.2 ⟨_, hin, isAtOrUnder_of_prefix hp hq hunder⟩
  rw [h] at hany
  exact nomatch hany

structure Removable (content : InMemoryFileSystem) (p : List Text) : Prop where
  notRoot : p ≠ []
  directory : content.kindAt (render p) = some true
  childless : ∀ s, AreSegments [s] → content.kindAt (render (p ++ [s])) = none

theorem localRemoveDirectory_cases {content : InMemoryFileSystem} (h : IsTree content)
    (now : FileDateTime) (path : Text) :
    (content.localRemoveDirectory now path = (-1, content) ∧
      ¬ Removable content (virtualSegments path ['/'])) ∨
    (content.localRemoveDirectory now path =
        (0, content.eraseNode now (render (virtualSegments path ['/']))) ∧
      Removable content (virtualSegments path ['/'])) := by
  have hp := virtualSegments_areSegments path ['/']
  unfold InMemoryFileSystem.localRemoveDirectory normalizeVirtualPath
  simp only
  cases hlookup : content.nodes.lookup (render (virtualSegments path ['/'])) with
  | none =>
      left
      refine ⟨rfl, fun hremovable => ?_⟩
      exact nomatch (InMemoryFileSystem.kindAt_eq_none.2 hlookup).symm.trans hremovable.directory
  | some node =>
      have hkind := InMemoryFileSystem.kindAt_of_lookup hlookup
      simp only
      split_ifs with hrefused hchildren
      · left
        refine ⟨rfl, fun hremovable => ?_⟩
        rw [hremovable.directory] at hkind
        rw [← Option.some.inj hkind] at hrefused
        exact hremovable.notRoot ((render_eq_slash hp).1 (by simpa using hrefused))
      · left
        refine ⟨rfl, fun hremovable => ?_⟩
        obtain ⟨key, hin, hstart⟩ := List.any_eq_true.1 hchildren
        have hthere : content.kindAt key ≠ none := by
          rw [Ne, InMemoryFileSystem.kindAt_eq_none, AList.lookup_eq_none, not_not]
          exact AList.mem_keys.2 hin
        obtain ⟨q, hq, rfl⟩ := h.normalized key hthere
        obtain ⟨⟨r, rfl⟩, hdiff⟩ := (startsWith_slash_iff hq hp hremovable.notRoot).1 hstart
        cases r with
        | nil => exact hdiff (List.append_nil _)
        | cons s r =>
            have happend : virtualSegments path ['/'] ++ s :: r =
                virtualSegments path ['/'] ++ [s] ++ r := by simp
            rw [happend] at hq hthere
            exact h.above hq hthere (hremovable.childless s hq.left.right)
      · right
        have hne : virtualSegments path ['/'] ≠ [] := by
          intro hnil
          simp [hnil] at hrefused
        refine ⟨rfl, hne, ?_, fun s hs => childless_of_no_prefix hp hne hchildren hs⟩
        rw [hkind]
        simp at hrefused
        rw [hrefused.1]

theorem readDirectory_dots (h : WellFormed fs) (world : ω)
    (hbuiltin : fs.hasOwnBuiltinAtOrUnder (render (virtualSegments path ['/'])) = false)
    (hserved : ∀ e ∈ fs.servedEntries inMemory path world, isDotEntry e = true)
    {e : DirectoryEntry} (hin : e ∈ fs.readDirectory inMemory path world) :
    isDotEntry e = true := by
  have hd := virtualSegments_areSegments path ['/']
  rcases mem_putDotEntriesFirst hin with hdot | hin
  · exact hdot
  · rcases mem_addOwnBuiltinEntries hin with hin | ⟨key, hkey, hparent, -⟩
    · exact hserved e hin
    · obtain ⟨q, hne, hq, rfl⟩ := h.builtins key (AList.mem_keys.2 hkey)
      obtain ⟨p, s, rfl⟩ := exists_parent hne
      have hsame : p = virtualSegments path ['/'] := by
        rw [virtualParentOf_append hq.left (hq s (by simp))] at hparent
        exact (render_inj hq.left hd).1 hparent
      subst hsame
      have hnone := lookup_of_noBuiltinUnder hd hq (List.prefix_append _ _) hbuiltin
      have hsome : (fs.builtins.lookup (render (virtualSegments path ['/'] ++ [s]))).isSome :=
        AList.lookup_isSome.2 (AList.mem_keys.2 hkey)
      rw [hnone] at hsome
      exact nomatch hsome

theorem servedEntries_removable (h : WellFormed fs) (world : ω)
    (hroute : fs.resolve (render (virtualSegments path ['/'])) = none)
    (hremovable : Removable fs.content (virtualSegments path ['/']))
    (hbelow : ¬ MountBelow fs (virtualSegments path ['/'])) :
    ∀ e ∈ fs.servedEntries inMemory path world, isDotEntry e = true := by
  intro e hin
  rw [servedEntries_own path world hroute] at hin
  rcases mem_addSegments hin with hlocal | hsegment
  · have hname := localReadDirectory_names h.tree hlocal
    have hnamed := named_localReadDirectory h.tree path hname
    have hmem := mem_named.2 ⟨hlocal, rfl⟩
    rw [hnamed, hremovable.childless e.name
      fun s hs => by rwa [List.mem_singleton.1 hs]] at hmem
    exact nomatch hmem
  · obtain ⟨entry, hentry, rest, hm, hpath⟩ :=
      (MountPoints.mem_childSegments h.mounts (virtualSegments_areSegments path ['/'])).1 hsegment
    exact absurd ⟨entry, hentry, e.name, rest, hm, hpath⟩ hbelow

theorem removeDirectory_promise_iff (h : WellFormed fs)
    (hmounted : ∀ entry ∈ fs.mounts, Trustworthy entry.filesystem world) (now : FileDateTime)
    (path : Text) :
    (ownView ω δ').RemovesDirectory path (fs, world)
        (fs.removeDirectory inMemory now path world) ↔
      ¬ RemovableWayDown fs (virtualSegments path ['/']) := by
  have hd := virtualSegments_areSegments path ['/']
  rw [removeDirectory_eq]
  cases hbuiltin : fs.hasOwnBuiltinAtOrUnder (render (virtualSegments path ['/'])) with
  | true =>
      refine iff_of_true ⟨fun _ => rfl, fun hok => absurd (show (-1 : Int) ≠ 0 by decide) hok⟩
        fun hway => ?_
      exact nomatch hbuiltin.symm.trans hway.noBuiltin
  | false =>
      have hhere := lookup_of_noBuiltinUnder hd hd List.prefix_rfl hbuiltin
      simp only [Bool.false_eq_true, if_false]
      cases hroute : fs.resolve (render (virtualSegments path ['/'])) with
      | some route =>
          refine iff_of_true ?_ fun hway => nomatch hroute.symm.trans hway.noMount
          obtain ⟨entry, hin, r, hr, rfl⟩ := route_inner h hroute
          have hpromise := (hmounted entry hin).removeDirectory now r hr
          refine ⟨fun hfailed => ?_, fun hok => ?_⟩
          · exact Prod.ext rfl (hpromise.failure hfailed)
          · obtain ⟨⟨hbefore, hlisting⟩, hafter⟩ := hpromise.success hok
            refine ⟨⟨(typeOf_mounted hhere hroute world).trans hbefore, fun e he => ?_⟩,
              (typeOf_mounted hhere hroute _).trans hafter⟩
            refine readDirectory_dots h world hbuiltin ?_ he
            rw [servedEntries_mounted path world hroute]
            exact hlisting
      | none =>
          have hown : OwnPath fs (virtualSegments path ['/']) := ⟨hhere, hroute⟩
          have habsent := ownType_none h hd
          rcases localRemoveDirectory_cases h.tree now path with
            ⟨hremove, hnot⟩ | ⟨hremove, hremovable⟩
          · simp only [hremove]
            exact iff_of_true
              ⟨fun _ => rfl, fun hok => absurd (show (-1 : Int) ≠ 0 by decide) hok⟩
              fun hway => hnot ⟨hway.notRoot, hway.directory, hway.childless⟩
          · have hafter := typeOf_own_changed hown world
              (kindAt_eraseNode fs.content now (render (virtualSegments path ['/'])))
            rw [← hafter] at habsent
            simp only [hremove]
            constructor
            · intro hpromise hway
              exact habsent.1 (hpromise.success fun hfailed => hfailed rfl).2 hway.below
            · intro hnot
              have hbelow : ¬ MountBelow fs (virtualSegments path ['/']) := fun hbelow =>
                hnot ⟨hbuiltin, hroute, hbelow, hremovable.notRoot, hremovable.directory,
                  hremovable.childless⟩
              refine ⟨fun hfailed => absurd rfl hfailed, fun _ =>
                ⟨⟨typeOf_own_present hown world hremovable.directory, fun e he => ?_⟩,
                  habsent.2 hbelow⟩⟩
              exact readDirectory_dots h world hbuiltin
                (servedEntries_removable h world hroute hremovable hbelow) he

end MountableFileSystem

open MountableFileSystem

/-- A filesystem with no mounts of its own may be mounted in another one. -/
theorem trustworthy_operations {fs : MemoryFileSystem ω δ'} (h : WellFormed fs)
    (hmounts : fs.mounts = []) (world : ω) :
    Trustworthy (MountableFileSystem.operations inMemory) (fs, world) := by
  have hmounted : ∀ entry ∈ fs.mounts, Trustworthy entry.filesystem world := by
    rw [hmounts]
    exact fun _ hin => nomatch hin
  have hnone : ∀ p, ¬ MountBelow fs p := by
    rintro p ⟨entry, hin, -⟩
    rw [hmounts] at hin
    exact nomatch hin
  exact {
    createDirectory := fun now r mode _ =>
      (createDirectory_promise_iff h hmounted now (render r) mode).2
        fun hway => hnone _ hway.below
    openFile := fun now r flags mode _ =>
      (openFile_promise_iff h hmounted now (render r) flags mode).2
        fun _ hway => hnone _ hway.below
    removeDirectory := fun now r _ =>
      (removeDirectory_promise_iff h hmounted now (render r)).2 fun hway => hnone _ hway.below
    removeFile := fun now r _ =>
      (removeFile_promise_iff h hmounted now (render r)).2 fun hway => hnone _ hway.below }

/--
In every state of every run, each call keeps its promise about a path exactly where it
does not act on the tree above a mount point.
-/
theorem operations_agree_with_stat (now : FileDateTime) (world : ω)
    (actions : List (FileAction ω δ')) (s : Session ω δ')
    (hrun : Transition.run Session.step actions (.initial δ' now world) = some s)
    (hmounted : ∀ entry ∈ s.fs.mounts, Trustworthy entry.filesystem s.world)
    (time : FileDateTime) (path : Text) (flags : OpenFlags) (mode : Option Nat)
    (directoryMode : Nat) :
    ((ownView ω δ').CreatesDirectory path (s.fs, s.world)
        (s.fs.createDirectory inMemory time path directoryMode s.world) ↔
      ¬ CreatableWayDown s.fs (virtualSegments path ['/'])) ∧
    ((ownView ω δ').Opens path (s.fs, s.world)
        (s.fs.openFile inMemory time path flags mode s.world) ↔
      (flags.create = true → ¬ CreatableWayDown s.fs (virtualSegments path ['/']))) ∧
    ((ownView ω δ').RemovesDirectory path (s.fs, s.world)
        (s.fs.removeDirectory inMemory time path s.world) ↔
      ¬ RemovableWayDown s.fs (virtualSegments path ['/'])) ∧
    ((ownView ω δ').RemovesFile path (s.fs, s.world)
        (s.fs.removeFile inMemory time path s.world) ↔
      ¬ FileInTheWay s.fs (virtualSegments path ['/'])) := by
  have h := Session.wellFormed_run hrun
  exact ⟨createDirectory_promise_iff h hmounted time path directoryMode,
    openFile_promise_iff h hmounted time path flags mode,
    removeDirectory_promise_iff h hmounted time path,
    removeFile_promise_iff h hmounted time path⟩

/-- A mount point two levels down, the way to it not in the tree. -/
def mountTwoDown : List (FileAction MountedMemory (OpenedFile InMemoryFileDescriptor Unit)) :=
  [.mount {} (text "/a/b") (some mountedMemory)]

def sessionTwoDown : Session MountedMemory (OpenedFile InMemoryFileDescriptor Unit) :=
  let s := Session.initial (OpenedFile InMemoryFileDescriptor Unit) {} emptyMemory
  { s with fs := s.fs.mount inMemory {} (text "/a/b") (some mountedMemory) }

theorem run_mountTwoDown :
    Transition.run Session.step mountTwoDown (.initial _ {} emptyMemory) = some sessionTwoDown := rfl

theorem trustworthy_sessionTwoDown :
    ∀ entry ∈ sessionTwoDown.fs.mounts, Trustworthy entry.filesystem sessionTwoDown.world := by
  intro entry hin
  rw [List.mem_singleton.1 hin]
  exact trustworthy_operations (Session.wellFormed_initial {} ()) rfl ()

/-- `/a` is on the way to the mount point: it is created, but neither opened as a file nor removed,
and below the mount point all is as it should be. -/
theorem operations_agree_with_stat_mounted :
    let s := sessionTwoDown
    ¬ (ownView _ _).CreatesDirectory (text "/a") (s.fs, s.world)
        (s.fs.createDirectory inMemory {} (text "/a") 0 s.world) ∧
      (ownView _ _).CreatesDirectory (text "/a/b/c") (s.fs, s.world)
        (s.fs.createDirectory inMemory {} (text "/a/b/c") 0 s.world) ∧
      (ownView _ _).Opens (text "/a") (s.fs, s.world)
        (s.fs.openFile inMemory {} (text "/a") {} none s.world) ∧
      (ownView _ _).RemovesDirectory (text "/a") (s.fs, s.world)
        (s.fs.removeDirectory inMemory {} (text "/a") s.world) ∧
      (ownView _ _).RemovesFile (text "/a") (s.fs, s.world)
        (s.fs.removeFile inMemory {} (text "/a") s.world) := by
  have hall (path : Text) := operations_agree_with_stat {} emptyMemory _ _ run_mountTwoDown
    trustworthy_sessionTwoDown {} path {} none 0
  have hway : CreatableWayDown sessionTwoDown.fs [text "a"] :=
    { own := ⟨rfl, rfl⟩
      below := ⟨_, List.mem_singleton_self _, text "b", [], by decide, rfl⟩
      absent := rfl
      parent := rfl }
  refine ⟨fun h => (hall (text "/a")).1.1 h hway, ?_, ?_, ?_, ?_⟩
  · refine (hall (text "/a/b/c")).1.2 fun h => ?_
    exact nomatch h.own.noMount
  · exact (hall (text "/a")).2.1.2 nofun
  · refine (hall (text "/a")).2.2.1.2 fun h => ?_
    exact nomatch h.directory
  · refine (hall (text "/a")).2.2.2.2 fun h => ?_
    exact nomatch h.file

/-- `Stat` calls the way down a directory, and it is created all the same. -/
theorem mountTwoDown_created :
    ¬ ∀ s : Session MountedMemory (OpenedFile InMemoryFileDescriptor Unit),
      Transition.run Session.step mountTwoDown (.initial _ {} emptyMemory) = some s →
      (∀ entry ∈ s.fs.mounts, Trustworthy entry.filesystem s.world) →
      (ownView _ _).CreatesDirectory (text "/a") (s.fs, s.world)
        (s.fs.createDirectory inMemory {} (text "/a") 0 s.world) := by
  intro h
  have hcreated := h sessionTwoDown run_mountTwoDown trustworthy_sessionTwoDown
  have hresult : (sessionTwoDown.fs.createDirectory inMemory {} (text "/a") 0
      sessionTwoDown.world).1 = 0 := rfl
  have htype : sessionTwoDown.fs.entryTypeOf inMemory (text "/a") sessionTwoDown.world =
      some .dir := rfl
  have hbefore := (hcreated.success (not_not.2 hresult)).1
  exact nomatch htype.symm.trans hbefore

end Haisos.Filesystem
