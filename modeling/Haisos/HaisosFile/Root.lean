import Haisos.Filesystem.FileTree
import Haisos.Filesystem.Agreement
import Haisos.HaisosFile.Operations

/-!
# An in-memory filesystem as the root

`InMemoryFileSystem` under the operations of a haisosfile.  With nothing mounted
in it and no builtins it is the tree of its files, and each of its calls is told
by what it does to that tree.
-/

namespace Haisos.HaisosFile

open Filesystem PathTree StateExcept
open Hsh (Text text)

abbrev RootState (ω : Type) := MemoryFileSystem ω Empty × ω

abbrev RootFile := OpenedFile InMemoryFileDescriptor Empty

/-- An `InMemoryFileSystem`, and what its open files do. -/
def rootView (ω : Type) : View (RootState ω) RootFile where
  toOperations := MountableFileSystem.operations inMemory
  read now file count state :=
    match file with
    | .builtin file =>
        let done := MountableFileSystem.readBuiltin file count
        (done.1, bytesOf done.2.1, .builtin done.2.2, state)
    | .own file =>
        let done := file.read state.1.content now count
        (done.1, done.2.1, .own done.2.2.1, { state.1 with content := done.2.2.2 }, state.2)
  write now file buf state :=
    match file with
    | .builtin file => (kIOError, .builtin file, state)
    | .own file =>
        let done := file.write state.1.content now buf
        (done.1, .own done.2.1, { state.1 with content := done.2.2 }, state.2)

abbrev FileTree := Tree Name (List UInt8)

/-- The root is an in-memory filesystem and nothing else, and these are its files. -/
structure Shows {ω : Type} (t : FileTree) (disk : Disk (RootState ω)) : Prop where
  mounts : disk.state.1.mounts = []
  builtins : disk.state.1.builtins = ∅
  tree : IsTree disk.state.1.content
  files : treeOf disk.state.1.content = t

def entryType : Entry (List UInt8) → EntryType
  | .dir => .dir
  | .file _ => .file

theorem map_entryType_eq_dir {entry : Option (Entry (List UInt8))} :
    entry.map entryType = some .dir ↔ entry = some .dir := by
  rcases entry with _ | _ | content <;> simp [entryType]

section

variable {ω : Type} {t : FileTree} {p : List Name} {s : Name} {clock : Nat → FileDateTime}

namespace Shows

variable {disk : Disk (RootState ω)}

theorem wellFormed (h : Shows t disk) : PathTree.WellFormed t := by
  rw [← h.files]
  exact wellFormed_treeOf h.tree

theorem noBuiltin (h : Shows t disk) (path : Text) : disk.state.1.builtins.lookup path = none := by
  rw [h.builtins]
  rfl

theorem noMount (h : Shows t disk) (path : Text) : disk.state.1.resolve path = none := by
  rw [MountableFileSystem.resolve, h.mounts]
  rfl

theorem changed (h : Shows t disk) {content : InMemoryFileSystem} {t' : FileTree}
    (htree : IsTree content) (hfiles : treeOf content = t') (ticks : Nat) :
    Shows t' ⟨({ disk.state.1 with content := content }, disk.state.2), ticks⟩ :=
  ⟨h.mounts, h.builtins, htree, hfiles⟩

theorem entryTypeOf_root (h : Shows t disk) (p : List Name) :
    exec (entryTypeOf (rootView ω) (nodePath p)) disk = (.ok ((t p).map entryType), disk) := by
  have htype := MountableFileSystem.entryTypeOf_eq disk.state.1 (nodePath p) disk.state.2
  have hkind := kindAt_nodePath disk.state.1.content p
  have hbelow : MountPoints.latestMountTimeBelow disk.state.1.mounts (nodePath p) = none := by
    rw [h.mounts]
    rfl
  rw [virtualSegments_nodePath, h.noBuiltin, h.noMount] at htype
  change (Except.ok (disk.state.1.entryTypeOf inMemory (nodePath p) disk.state.2), disk) = _
  rw [nodePath] at hbelow hkind
  rw [htype, hkind, h.files, hbelow]
  rcases t p with _ | _ | content
  · rfl
  · rfl
  · rfl

end Shows

/-! ## Calls -/

theorem exec_call {α σ : Type} (f : FileDateTime → σ → α × σ) (disk : Disk σ) :
    exec (call clock f) disk =
      (.ok (f (clock disk.ticks) disk.state).1,
        ⟨(f (clock disk.ticks) disk.state).2, disk.ticks + 1⟩) := rfl

theorem call_triple {α : Type} {f : FileDateTime → RootState ω → α × RootState ω}
    {post : α → Disk (RootState ω) → Prop} {failed : SetupFailure → Disk (RootState ω) → Prop}
    (h : ∀ (disk : Disk (RootState ω)) now, Shows t disk → ∃ a content t',
      f now disk.state = disk.state.1.withContent disk.state.2 (a, content) ∧
        IsTree content ∧ treeOf content = t' ∧ ∀ after, Shows t' after → post a after) :
    Triple (Shows t) (call clock f) post failed := by
  intro disk hdisk
  obtain ⟨a, content, t', hrun, htree, hfiles, hpost⟩ := h disk (clock disk.ticks) hdisk
  rw [exec_call, hrun]
  exact hpost _ (hdisk.changed htree hfiles _)

variable {failed : SetupFailure → Disk (RootState ω) → Prop}

theorem createDirectory_triple (mode : Nat) (habsent : t (p ++ [s]) = none)
    (hparent : t p = some .dir) :
    Triple (Shows t)
      (call clock fun now => (rootView ω).createDirectory now (nodePath (p ++ [s])) mode)
      (fun result disk => result = 0 ∧ Shows (Function.update t (p ++ [s]) (some .dir)) disk)
      failed := by
  refine call_triple fun disk now h => ?_
  rw [← h.files] at habsent hparent
  obtain ⟨content, hrun, htree, hfiles⟩ := localCreateDirectory_absent h.tree now habsent hparent
  refine ⟨0, content, _, ?_, htree, hfiles, fun after hafter => ⟨rfl, h.files ▸ hafter⟩⟩
  change disk.state.1.createDirectory inMemory now _ mode disk.state.2 = _
  rw [MountableFileSystem.createDirectory_eq, h.noBuiltin, h.noMount]
  simp only [hrun]

theorem removeFile_triple {content : List UInt8} (hentry : t (p ++ [s]) = some (.file content)) :
    Triple (Shows t) (call clock fun now => (rootView ω).removeFile now (nodePath (p ++ [s])))
      (fun result disk => result = 0 ∧ Shows (Function.update t (p ++ [s]) none) disk) failed := by
  refine call_triple fun disk now h => ?_
  rw [← h.files] at hentry
  obtain ⟨content, hrun, htree, hfiles⟩ := localRemoveFile_file h.tree now hentry
  refine ⟨0, content, _, ?_, htree, hfiles, fun after hafter => ⟨rfl, h.files ▸ hafter⟩⟩
  change disk.state.1.removeFile inMemory now _ disk.state.2 = _
  rw [MountableFileSystem.removeFile_eq, h.noBuiltin, h.noMount]
  simp only [hrun]

theorem removeDirectory_triple (hentry : t (p ++ [s]) = some .dir)
    (hempty : ∀ name, t (p ++ [s] ++ [name]) = none) :
    Triple (Shows t) (call clock fun now => (rootView ω).removeDirectory now (nodePath (p ++ [s])))
      (fun result disk => result = 0 ∧ Shows (Function.update t (p ++ [s]) none) disk) failed := by
  refine call_triple fun disk now h => ?_
  rw [← h.files] at hentry hempty
  obtain ⟨content, hrun, htree, hfiles⟩ := localRemoveDirectory_empty h.tree now hentry hempty
  have hnone : ∀ path, disk.state.1.hasOwnBuiltinAtOrUnder path = false := by
    intro path
    rw [MountableFileSystem.hasOwnBuiltinAtOrUnder, h.builtins]
    rfl
  refine ⟨0, content, _, ?_, htree, hfiles, fun after hafter => ⟨rfl, h.files ▸ hafter⟩⟩
  change disk.state.1.removeDirectory inMemory now _ disk.state.2 = _
  rw [MountableFileSystem.removeDirectory_eq, hnone, h.noMount]
  simp only [hrun]
  rfl

theorem openFile_triple {flags : OpenFlags} (mode : Option Nat) (hcreate : flags.create = true)
    (hnotDir : t (p ++ [s]) ≠ some .dir) (hparent : t p = some .dir) :
    Triple (Shows t)
      (call clock fun now => (rootView ω).openFile now (nodePath (p ++ [s])) flags mode)
      (fun file disk => file = some (.own (.make (nodePath (p ++ [s])) flags)) ∧
        Shows (Function.update t (p ++ [s])
          (some (.file (if flags.truncate then [] else contentAt t (p ++ [s]))))) disk)
      failed := by
  refine call_triple fun disk now h => ?_
  rw [← h.files] at hnotDir hparent
  obtain ⟨content, hrun, htree, hfiles⟩ :=
    localOpenFile_writing h.tree now hcreate hnotDir hparent
  refine ⟨_, content, _, ?_, htree, hfiles, fun after hafter => ⟨rfl, h.files ▸ hafter⟩⟩
  change disk.state.1.openFile inMemory now _ flags mode disk.state.2 = _
  rw [MountableFileSystem.openFile_eq, h.noBuiltin, h.noMount]
  simp only [hrun]
  rfl

theorem writeFile_triple {content buf : List UInt8} {d : InMemoryFileDescriptor}
    (hpath : d.path = nodePath p) (hwritable : d.writable = true) (hposition : d.position = 0)
    (hentry : t p = some (.file content)) (hplace : d.append = true ∨ content = [])
    (hfits : content.length + buf.length ≤ sizeMax) :
    Triple (Shows t) (writeFile clock (rootView ω) (.own d) buf)
      (fun result disk => result.1 = buf.length ∧
        Shows (Function.update t p (some (.file (content ++ buf)))) disk) failed := by
  refine call_triple fun disk now h => ?_
  rw [← h.files] at hentry
  obtain ⟨position, after, hrun, htree, hfiles⟩ := writeAt_file h.tree now hentry hplace hfits
  refine ⟨(buf.length, .own { d with position := position }), after, _, ?_, htree, hfiles,
    fun _ hafter => ⟨rfl, h.files ▸ hafter⟩⟩
  have hwrite : d.write disk.state.1.content now buf =
      ((buf.length : Int), { d with position := position }, after) := by
    rw [InMemoryFileDescriptor.write, hwritable, hpath, hposition, hrun]
    rfl
  change (((d.write disk.state.1.content now buf).1,
      OpenedFile.own (d.write disk.state.1.content now buf).2.1),
      ({ disk.state.1 with content := (d.write disk.state.1.content now buf).2.2 },
        disk.state.2)) = _
  rw [hwrite]
  rfl

/-! ## Listings -/

theorem filter_putDotEntriesFirst (fs : MemoryFileSystem ω Empty) (path : Text) (world : ω)
    {entries : List DirectoryEntry}
    (hnames : ∀ entry ∈ entries, MountableFileSystem.isDotEntry entry = false) :
    (fs.putDotEntriesFirst inMemory path world entries).filter
      (fun entry => !MountableFileSystem.isDotEntry entry) = entries := by
  have hall : entries.filter (fun entry => !MountableFileSystem.isDotEntry entry) = entries := by
    rw [List.filter_eq_self]
    intro entry hentry
    simp [hnames entry hentry]
  unfold MountableFileSystem.putDotEntriesFirst
  simp only [hall]
  split_ifs
  · exact hall
  · rw [List.filter_cons_of_neg (by decide), List.filter_cons_of_neg (by decide), hall]

theorem named_child {fs : InMemoryFileSystem} (h : IsTree fs) (p : List Name) (s : Name) :
    named s.1 (fs.localReadDirectory (nodePath p)) =
      ((treeOf fs (p ++ [s])).map fun entry => ⟨s.1, entryType entry⟩).toList := by
  have hnamed := named_localReadDirectory h (nodePath p) s.2
  have hpath : segmentsOf p ++ [s.1] = segmentsOf (p ++ [s]) := (segmentsOf_append p [s]).symm
  rw [virtualSegments_nodePath, hpath] at hnamed
  change named s.1 _ = ((fs.kindAt (nodePath (p ++ [s]))).map _).toList at hnamed
  rw [hnamed, kindAt_nodePath, Option.map_map]
  congr 2
  funext entry
  cases entry with
  | dir => rfl
  | file content => rfl

theorem localReadDirectory_children {fs : InMemoryFileSystem} (h : IsTree fs) (p : List Name) :
    ∃ names : List Name,
      (fs.localReadDirectory (nodePath p)).map (·.name) = segmentsOf names ∧ names.Nodup ∧
        ∀ s, s ∈ names ↔ treeOf fs (p ++ [s]) ≠ none := by
  have hsegments : AreSegments ((fs.localReadDirectory (nodePath p)).map (·.name)) := by
    intro name hname
    obtain ⟨entry, hentry, rfl⟩ := List.mem_map.mp hname
    exact MountableFileSystem.localReadDirectory_names h hentry
  obtain ⟨names, hnames⟩ := exists_names hsegments
  refine ⟨names, hnames, ?_, fun s => ?_⟩
  · have hnodup : ((fs.localReadDirectory (nodePath p)).map (·.name)).Nodup := by
      rw [nodup_names_iff]
      intro name
      by_cases hname : IsSegment name
      · rw [named_child h p ⟨name, hname⟩]
        cases treeOf fs (p ++ [⟨name, hname⟩]) <;> simp
      · have hnone : named name (fs.localReadDirectory (nodePath p)) = [] := by
          rw [List.eq_nil_iff_forall_not_mem]
          intro entry hentry
          obtain ⟨hin, rfl⟩ := mem_named.mp hentry
          exact hname (hsegments _ (List.mem_map_of_mem hin))
        simp [hnone]
    rw [hnames] at hnodup
    exact List.Nodup.of_map _ hnodup
  · have hmem : s ∈ names ↔ s.1 ∈ (fs.localReadDirectory (nodePath p)).map (·.name) := by
      rw [hnames, segmentsOf, List.mem_map_of_injective Subtype.val_injective]
    rw [hmem, List.mem_map]
    constructor
    · rintro ⟨entry, hentry, hname⟩
      have hin := mem_named.mpr ⟨hentry, hname⟩
      rw [named_child h] at hin
      intro hnone
      simp [hnone] at hin
    · intro hthere
      obtain ⟨entry, hentry⟩ := Option.ne_none_iff_exists'.mp hthere
      have hin : (⟨s.1, entryType entry⟩ : DirectoryEntry) ∈
          named s.1 (fs.localReadDirectory (nodePath p)) := by
        rw [named_child h, hentry]
        simp
      exact ⟨_, (mem_named.mp hin).1, rfl⟩

theorem Shows.readDirectory_root {disk : Disk (RootState ω)} (h : Shows t disk) (p : List Name) :
    ((rootView ω).readDirectory (nodePath p) disk.state).filter
        (fun entry => !MountableFileSystem.isDotEntry entry) =
      disk.state.1.content.localReadDirectory (nodePath p) := by
  have hserved := MountableFileSystem.servedEntries_own (nodePath p) disk.state.2
    (h.noMount (render (virtualSegments (nodePath p) ['/'])))
  rw [h.mounts] at hserved
  have hlisting : (rootView ω).readDirectory (nodePath p) disk.state =
      disk.state.1.putDotEntriesFirst inMemory (nodePath p) disk.state.2
        (disk.state.1.content.localReadDirectory (nodePath p)) := by
    change disk.state.1.putDotEntriesFirst inMemory (nodePath p) disk.state.2
      (MountableFileSystem.addOwnBuiltinEntries _ disk.state.1.builtins.keys
        (disk.state.1.servedEntries inMemory (nodePath p) disk.state.2)) = _
    rw [hserved, h.builtins]
    rfl
  rw [hlisting]
  refine filter_putDotEntriesFirst _ _ _ fun entry hentry => ?_
  have hname := MountableFileSystem.localReadDirectory_names h.tree hentry
  rw [← Bool.not_eq_true, MountableFileSystem.isDotEntry_iff]
  exact not_or.mpr ⟨hname.ne_dot, hname.ne_dotDot⟩

end

end Haisos.HaisosFile
