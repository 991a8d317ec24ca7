import Haisos.Filesystem.Agreement

/-!
# The shape of an in-memory tree

What every run over an in-memory filesystem by itself leaves: a tree of files and
directories, told in the paths of its nodes, and what `ReadDirectory` and `Stat` say of it.
-/

namespace Haisos.Filesystem

open Hsh (Text text)
open InMemoryFileSystem

/-- The nodes are those of a tree, and it is shown as it is. -/
structure TreeShape {ω δ' : Type*} (fs : MemoryFileSystem ω δ') (world : ω) : Prop where
  root : ∃ node, fs.content.nodes.lookup ['/'] = some node ∧ node.isDirectory = true
  normalized : ∀ path ∈ fs.content.nodes.keys, normalizeVirtualPath path = path
  parents : ∀ path ∈ fs.content.nodes.keys, ∃ node,
    fs.content.nodes.lookup (virtualParentOf path) = some node ∧ node.isDirectory = true
  files : ∀ path node, fs.content.nodes.lookup path = some node → node.isDirectory = false →
    ∀ other ∈ fs.content.nodes.keys, virtualParentOf other ≠ path
  listing : ∀ path node, fs.content.nodes.lookup (normalizeVirtualPath path) = some node →
    node.isDirectory = true → ∃ children,
      fs.readDirectory inMemory path world = ⟨['.'], .dir⟩ :: ⟨['.', '.'], .dir⟩ :: children ∧
      (children.map (·.name)).Nodup ∧
      (∀ name type, (⟨name, type⟩ : DirectoryEntry) ∈ children ↔ IsSegment name ∧ ∃ child,
        fs.content.nodes.lookup (normalizeVirtualPath (path ++ '/' :: name)) = some child ∧
          child.type = type) ∧
      ∃ status, fs.stat inMemory path world = some status ∧ status.type = .dir ∧
        status.linkCount = 2 + children.countP fun entry => entry.type = .dir

/-! ## The tree -/

section
variable {fs : InMemoryFileSystem}

theorem mem_keys_iff {path : Text} : path ∈ fs.nodes.keys ↔ fs.kindAt path ≠ none := by
  rw [← AList.mem_keys, ← AList.lookup_isSome, Option.isSome_iff_ne_none]
  exact not_congr kindAt_eq_none.symm

theorem IsTree.normalized_key (h : IsTree fs) {path : Text} (hkey : path ∈ fs.nodes.keys) :
    normalizeVirtualPath path = path := by
  obtain ⟨p, hp, rfl⟩ := h.normalized path (mem_keys_iff.1 hkey)
  exact normalizeVirtualPath_render hp _

theorem IsTree.parent_directory (h : IsTree fs) {path : Text} (hkey : path ∈ fs.nodes.keys) :
    ∃ node, fs.nodes.lookup (virtualParentOf path) = some node ∧ node.isDirectory = true := by
  obtain ⟨p, hp, rfl⟩ := h.normalized path (mem_keys_iff.1 hkey)
  rcases eq_or_ne p [] with rfl | hne
  · exact kindAt_eq_some.1 h.root
  · obtain ⟨q, s, rfl⟩ := exists_parent hne
    rw [virtualParentOf_append hp.left (hp s (by simp))]
    exact kindAt_eq_some.1 (h.parents q s hp (mem_keys_iff.1 hkey))

theorem IsTree.childless_file (h : IsTree fs) {path : Text} {node : Node}
    (hnode : fs.nodes.lookup path = some node) (hfile : node.isDirectory = false) {other : Text}
    (hother : other ∈ fs.nodes.keys) : virtualParentOf other ≠ path := by
  rintro rfl
  obtain ⟨parent, hparent, hdirectory⟩ := h.parent_directory hother
  obtain rfl := Option.some.inj (hnode.symm.trans hparent)
  rw [hfile] at hdirectory
  cases hdirectory

/-! ## What is listed of a directory -/

theorem IsTree.nodup_localReadDirectory (h : IsTree fs) (path : Text) :
    ((fs.localReadDirectory path).map (·.name)).Nodup := by
  rw [nodup_names_iff]
  intro name
  by_cases hname : IsSegment name
  · rw [named_localReadDirectory h path hname]
    cases fs.kindAt (render (virtualSegments path ['/'] ++ [name])) <;> simp
  · have hnone : named name (fs.localReadDirectory path) = [] := by
      rw [List.eq_nil_iff_forall_not_mem]
      intro entry hentry
      obtain ⟨hin, rfl⟩ := mem_named.mp hentry
      exact hname (MountableFileSystem.localReadDirectory_names h hin)
    simp [hnone]

theorem IsTree.mem_localReadDirectory (h : IsTree fs) (path name : Text) (type : EntryType) :
    (⟨name, type⟩ : DirectoryEntry) ∈ fs.localReadDirectory path ↔ IsSegment name ∧
      ∃ child, fs.nodes.lookup (normalizeVirtualPath (path ++ '/' :: name)) = some child ∧
        child.type = type := by
  have hin : (⟨name, type⟩ : DirectoryEntry) ∈ fs.localReadDirectory path ↔
      (⟨name, type⟩ : DirectoryEntry) ∈ named name (fs.localReadDirectory path) := by
    rw [mem_named]
    simp
  by_cases hname : IsSegment name
  · rw [hin, named_localReadDirectory h path hname, normalizeVirtualPath,
      virtualSegments_entry path hname, kindAt, Option.map_map]
    cases fs.nodes.lookup (render (virtualSegments path ['/'] ++ [name])) with
    | none => simp
    | some child =>
        simp only [Option.map_some, Option.toList_some, List.mem_singleton, hname, true_and,
          Option.some.injEq, exists_eq_left']
        exact ⟨fun hentry => (congrArg DirectoryEntry.type hentry).symm, fun htype => htype ▸ rfl⟩
  · constructor
    · intro hentry
      exact absurd (MountableFileSystem.localReadDirectory_names h hentry) hname
    · rintro ⟨hsegment, -⟩
      exact absurd hsegment hname

theorem subdirectoryCount_eq {path : Text} {node : Node}
    (hnode : fs.nodes.lookup (normalizeVirtualPath path) = some node)
    (hdirectory : node.isDirectory = true) :
    fs.subdirectoryCount (normalizeVirtualPath path) =
      (fs.localReadDirectory path).countP fun entry => entry.type = .dir := by
  have hlisting : fs.localReadDirectory path =
      fs.nodes.entries.filterMap (entryIn (normalizeVirtualPath path)) := by
    simp [localReadDirectory, hnode, hdirectory]
  rw [hlisting, List.countP_filterMap, subdirectoryCount]
  apply List.countP_congr
  rintro ⟨key, child⟩ -
  by_cases hself : key = normalizeVirtualPath path
  · simp [entryIn, hself]
  · by_cases hroot : key = ['/']
    · have hparent : parentOf key ≠ normalizeVirtualPath path := by
        rw [hroot]
        exact fun hsame => hself (hroot.trans hsame)
      simp [entryIn, hself, hparent]
    · by_cases hparent : parentOf key = normalizeVirtualPath path
      · cases hkind : child.isDirectory <;> simp [entryIn, hself, hroot, hparent, Node.type, hkind]
      · simp [entryIn, hself, hparent]

end

/-! ## The filesystem by itself -/

/-- The calls that mount nothing and add no builtin. -/
def ByItself {ω δ' : Type*} : FileAction ω δ' → Prop
  | .openFile .. => True
  | .createDirectory .. => True
  | .removeDirectory .. => True
  | .removeFile .. => True
  | .read .. => True
  | .write .. => True
  | _ => False

structure Alone {ω δ' : Type*} (fs : MemoryFileSystem ω δ') : Prop where
  tree : IsTree fs.content
  mounts : fs.mounts = []
  builtins : fs.builtins = ∅

section
variable {ω δ' : Type*} {fs : MemoryFileSystem ω δ'}

theorem Alone.change (h : Alone fs) {content : InMemoryFileSystem}
    (hchange : TreeChange fs.content content) : Alone { fs with content := content } :=
  ⟨h.tree.change hchange, h.mounts, h.builtins⟩

namespace Session

theorem alone_initial (now : FileDateTime) (world : ω) : Alone (initial δ' now world).fs :=
  ⟨isTree_create now, rfl, rfl⟩

theorem alone_step {action : FileAction ω δ'} {s t : Session ω δ'}
    (hstep : step action s = some t) (honly : ByItself action) (h : Alone s.fs) : Alone t.fs := by
  cases action with
  | mount | unmount | addBuiltinCommand | removeBuiltinCommand | elsewhere => cases honly
  | openFile now path flags mode =>
      cases hstep
      obtain ⟨content, hfs, hchange⟩ :=
        MountableFileSystem.change_openFile h.tree now path flags mode s.world
      simpa [placed, joined, hfs] using h.change hchange
  | createDirectory now path mode =>
      cases hstep
      obtain ⟨content, hfs, hchange⟩ :=
        MountableFileSystem.change_createDirectory h.tree now path mode s.world
      simpa [placed, hfs] using h.change hchange
  | removeDirectory now path =>
      cases hstep
      obtain ⟨content, hfs, hchange⟩ :=
        MountableFileSystem.change_removeDirectory s.fs now path s.world
      simpa [placed, hfs] using h.change hchange
  | removeFile now path =>
      cases hstep
      obtain ⟨content, hfs, hchange⟩ :=
        MountableFileSystem.change_removeFile h.tree now path s.world
      simpa [placed, hfs] using h.change hchange
  | read now descriptor count =>
      obtain ⟨file, -, rfl⟩ := Option.map_eq_some_iff.1 hstep
      cases file with
      | builtin file => exact h
      | own file => exact h.change (change_read file now count)
      | mounted file => exact h
  | write now descriptor buf =>
      obtain ⟨file, -, rfl⟩ := Option.map_eq_some_iff.1 hstep
      cases file with
      | builtin file => exact h
      | own file => exact h.change (change_write file now buf)
      | mounted file => exact h

theorem alone_run {now : FileDateTime} {world : ω} {actions : List (FileAction ω δ')}
    {s : Session ω δ'} (hrun : Transition.run step actions (initial δ' now world) = some s)
    (honly : ∀ action ∈ actions, ByItself action) : Alone s.fs :=
  Transition.run_preserves_of_forall (P := fun s => Alone s.fs)
    (fun _ _ _ hstep honly h => alone_step hstep honly h) hrun honly (alone_initial now world)

end Session

namespace Alone

theorem readDirectory (h : Alone fs) {path : Text} {node : Node}
    (hnode : fs.content.nodes.lookup (normalizeVirtualPath path) = some node)
    (hdirectory : node.isDirectory = true) (world : ω) :
    fs.readDirectory inMemory path world =
      ⟨['.'], .dir⟩ :: ⟨['.', '.'], .dir⟩ :: fs.content.localReadDirectory path := by
  have hserved : fs.servedEntries inMemory path world = fs.content.localReadDirectory path := by
    rw [MountableFileSystem.servedEntries, MountableFileSystem.resolve, h.mounts]
    rfl
  have htype : fs.entryTypeOf inMemory path world = some .dir := by
    have hown : OwnPath fs (virtualSegments path ['/']) :=
      ⟨by rw [h.builtins]; rfl, by rw [MountableFileSystem.resolve, h.mounts]; rfl⟩
    rw [MountableFileSystem.typeOf_own_present hown world (kindAt_of_lookup hnode), hdirectory]
    rfl
  have hothers : (fs.content.localReadDirectory path).filter
      (fun entry => !MountableFileSystem.isDotEntry entry) = fs.content.localReadDirectory path := by
    rw [List.filter_eq_self]
    intro entry hentry
    have hname := MountableFileSystem.localReadDirectory_names h.tree hentry
    rw [Bool.not_eq_true', ← Bool.not_eq_true, MountableFileSystem.isDotEntry_iff]
    exact not_or.2 ⟨hname.ne_dot, hname.ne_dotDot⟩
  rw [MountableFileSystem.readDirectory, hserved, h.builtins]
  simp [MountableFileSystem.putDotEntriesFirst, MountableFileSystem.addOwnBuiltinEntries, htype,
    hothers]

theorem stat (h : Alone fs) {path : Text} {node : Node}
    (hnode : fs.content.nodes.lookup (normalizeVirtualPath path) = some node)
    (hdirectory : node.isDirectory = true) (world : ω) :
    ∃ status, fs.stat inMemory path world = some status ∧ status.type = .dir ∧
      status.linkCount = 2 + fs.content.subdirectoryCount (normalizeVirtualPath path) := by
  have hlocal : fs.stat inMemory path world = fs.content.localStat path := by
    rw [MountableFileSystem.stat, h.builtins, MountableFileSystem.resolve, h.mounts]
    have hstat : inMemory.stat path fs.content = fs.content.localStat path := rfl
    rw [hstat]
    cases fs.content.localStat path <;> rfl
  rw [hlocal, localStat, hnode]
  exact ⟨_, rfl, by simp [Node.type, hdirectory], by simp [hdirectory]⟩

/-- What a filesystem by itself shows is its tree. -/
theorem treeShape (h : Alone fs) (world : ω) : TreeShape fs world where
  root := kindAt_eq_some.1 h.tree.root
  normalized _ hkey := h.tree.normalized_key hkey
  parents _ hkey := h.tree.parent_directory hkey
  files _ _ hnode hfile _ hother := h.tree.childless_file hnode hfile hother
  listing path node hnode hdirectory := by
    obtain ⟨status, hstatus, htype, hlinks⟩ := h.stat hnode hdirectory world
    rw [subdirectoryCount_eq hnode hdirectory] at hlinks
    exact ⟨_, h.readDirectory hnode hdirectory world, h.tree.nodup_localReadDirectory path,
      h.tree.mem_localReadDirectory path, status, hstatus, htype, hlinks⟩

end Alone

namespace Session

/-- Whatever is opened, made, removed, read and written, an in-memory tree stays a tree. -/
theorem treeShape_run {now : FileDateTime} {world : ω} {actions : List (FileAction ω δ')}
    {s : Session ω δ'} (hrun : Transition.run step actions (initial δ' now world) = some s)
    (honly : ∀ action ∈ actions, ByItself action) : TreeShape s.fs s.world :=
  (alone_run hrun honly).treeShape s.world

/-- Odd spellings of `/a` and of `/a/b`. -/
def oddPaths : List (FileAction Unit Empty) :=
  [.createDirectory {} (text "/a") 0, .openFile {} (text "//a/./b/") { create := true } none,
    .removeDirectory {} (text "a"), .read {} 0 3]

theorem treeShape_run_oddPaths : ∃ s : Session Unit Empty,
    Transition.run step oddPaths (initial Empty {} ()) = some s ∧ TreeShape s.fs s.world := by
  have honly : ∀ action ∈ oddPaths, ByItself action := by simp [oddPaths, ByItself]
  obtain ⟨s, hrun⟩ : ∃ s, Transition.run step oddPaths (initial Empty {} ()) = some s := ⟨_, rfl⟩
  exact ⟨s, hrun, treeShape_run hrun honly⟩

end Session

end

end Haisos.Filesystem
