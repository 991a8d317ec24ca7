import Haisos.HaisosFile.Copy
import Haisos.HaisosFile.Root

/-!
# Copies within an in-memory filesystem

An in-memory filesystem as a store that views can share, and a file copied onto itself.
-/

namespace Haisos.HaisosFile

open Filesystem PathTree StateExcept
open Hsh (Text text)

def fileNamed (t : FileTree) (p : List Name) : Option (List Name) :=
  match t p with
  | some (.file _) => some p
  | _ => none

/-- The files of an in-memory filesystem, each known by its path. -/
def memoryStore (ω : Type) : Store (RootState ω) (List Name) (List Name) where
  Valid s := s.1.mounts = [] ∧ s.1.builtins = ∅ ∧ IsTree s.1.content
  fileAt s := fileNamed (treeOf s.1.content)
  content s := contentAt (treeOf s.1.content)
  deviceAt _ := False

section

variable {ω : Type} {s s' : RootState ω} {p q : List Name}

theorem fileNamed_eq_some {t : FileTree} :
    fileNamed t p = some q ↔ p = q ∧ ∃ content, t p = some (.file content) := by
  rw [fileNamed]
  rcases t p with _ | _ | content <;> simp

theorem contentAt_file {t : FileTree} {content : List UInt8} (h : t p = some (.file content)) :
    contentAt t p = content := by
  rw [contentAt, h]

theorem shows_of_valid (h : (memoryStore ω).Valid s) (ticks : Nat) :
    Shows (treeOf s.1.content) ⟨s, ticks⟩ :=
  ⟨h.1, h.2.1, h.2.2, rfl⟩

theorem memoryStore_keeps {content : InMemoryFileSystem} (h : (memoryStore ω).Valid s)
    (htree : IsTree content)
    (hfiles : ∀ p data, treeOf content p = some (.file data) ↔
      treeOf s.1.content p = some (.file data)) :
    (memoryStore ω).Keeps s ({ s.1 with content := content }, s.2) where
  valid := ⟨h.1, h.2.1, htree⟩
  names := by
    funext p
    refine Option.ext fun q => ?_
    change fileNamed (treeOf content) p = some q ↔ fileNamed (treeOf s.1.content) p = some q
    simp only [fileNamed_eq_some, hfiles]
  contents k p hp := by
    obtain ⟨rfl, data, hdata⟩ := fileNamed_eq_some.mp hp
    change contentAt (treeOf content) k = contentAt (treeOf s.1.content) k
    rw [contentAt_file hdata, contentAt_file ((hfiles k data).mpr hdata)]

theorem memoryStore_keepsBut {content : InMemoryFileSystem} {data : List UInt8}
    (h : (memoryStore ω).Valid s) (htree : IsTree content)
    (hfiles : treeOf content = Function.update (treeOf s.1.content) p (some (.file data))) :
    (memoryStore ω).KeepsBut (some p) s ({ s.1 with content := content }, s.2) where
  valid := ⟨h.1, h.2.1, htree⟩
  names k q hq := by
    obtain ⟨rfl, held, hheld⟩ := fileNamed_eq_some.mp hq
    refine fileNamed_eq_some.mpr ⟨rfl, ?_⟩
    change ∃ data, treeOf content k = some (.file data)
    rw [hfiles]
    by_cases hk : k = p
    · rw [hk, Function.update_self]
      exact ⟨data, rfl⟩
    · rw [Function.update_of_ne hk]
      exact ⟨held, hheld⟩
  contents k q hq hne := by
    obtain ⟨rfl, held, hheld⟩ := fileNamed_eq_some.mp hq
    have hk : k ≠ p := by simpa using hne
    change contentAt (treeOf content) k = contentAt (treeOf s.1.content) k
    rw [contentAt, contentAt, hfiles, Function.update_of_ne hk]

/-! ## The calls -/

theorem stat_root (h : (memoryStore ω).Valid s) (path : Text) :
    ((rootView ω).stat path s).map (·.type) =
      (treeOf s.1.content (pathOf path)).map entryType := by
  have hsame := MountableFileSystem.entryTypeOf_congr s.1 s.2 path (nodePath (pathOf path))
    (by rw [virtualSegments_nodePath, segmentsOf_pathOf])
  have hroot := (shows_of_valid h 0).entryTypeOf_root (pathOf path)
  have htype : s.1.entryTypeOf inMemory (nodePath (pathOf path)) s.2 =
      (treeOf s.1.content (pathOf path)).map entryType := by
    injection hroot with hvalue
    injection hvalue
  exact hsame.trans htype

theorem createDirectory_root (h : (memoryStore ω).Valid s) (now : FileDateTime) (path : Text)
    (mode : Nat) : (memoryStore ω).Keeps s ((rootView ω).createDirectory now path mode s).2 := by
  have hshows := shows_of_valid h 0
  change (memoryStore ω).Keeps s (s.1.createDirectory inMemory now path mode s.2).2
  rw [MountableFileSystem.createDirectory_eq, hshows.noBuiltin, hshows.noMount]
  simp only
  rw [MountableFileSystem.localCreateDirectory_eq]
  split_ifs with hcreated
  · have habsent : treeOf s.1.content (pathOf path) = none := by
      rw [← kindAt_eq_none_iff, nodePath, segmentsOf_pathOf]
      exact hcreated.1
    have hchange := change_localCreateDirectory h.2.2 now path
    rw [MountableFileSystem.localCreateDirectory_eq, if_pos hcreated] at hchange
    obtain ⟨q, name, hp⟩ : ∃ q name, pathOf path = q ++ [name] := by
      have hne : pathOf path ≠ [] := by
        intro hnil
        rw [hnil, hshows.wellFormed.root] at habsent
        cases habsent
      exact ⟨_, _, (List.dropLast_append_getLast hne).symm⟩
    have hrender : render (virtualSegments path ['/']) = nodePath (q ++ [name]) := by
      rw [← hp, nodePath, segmentsOf_pathOf]
    rw [hrender] at hchange ⊢
    refine memoryStore_keeps h (h.2.2.change hchange) fun p data => ?_
    rw [treeOf_emplace]
    rw [hp] at habsent
    by_cases hsame : p = q ++ [name]
    · rw [hsame, Function.update_self, habsent]
      simp
    · rw [Function.update_of_ne hsame]
  · exact Store.Keeps.refl h

theorem openFile_root (h : (memoryStore ω).Valid s) (now : FileDateTime) (path : Text)
    (flags : OpenFlags) (mode : Option Nat) :
    (rootView ω).openFile now path flags mode s =
      (((s.1.content.localOpenFile now path flags).1.map .own,
        { s.1 with content := (s.1.content.localOpenFile now path flags).2 }, s.2) :
          Option RootFile × RootState ω) := by
  have hshows := shows_of_valid h 0
  change s.1.openFile inMemory now path flags mode s.2 = _
  rw [MountableFileSystem.openFile_eq, hshows.noBuiltin, hshows.noMount]
  rfl

theorem localOpenFile_nodePath (fs : InMemoryFileSystem) (now : FileDateTime) (path : Text)
    (flags : OpenFlags) :
    fs.localOpenFile now path flags = fs.localOpenFile now (nodePath (pathOf path)) flags := by
  unfold InMemoryFileSystem.localOpenFile
  rw [normalizeVirtualPath_nodePath, normalizeVirtualPath_eq]

theorem localOpenFile_reading (fs : InMemoryFileSystem) (now : FileDateTime) (path : Text) :
    (fs.localOpenFile now path fileOpenReadOnly).2 = fs := by
  unfold InMemoryFileSystem.localOpenFile
  simp only
  split
  · split_ifs with hdirectory htruncate
    · rfl
    · exact absurd htruncate (by decide)
    · rfl
  · rfl

theorem localOpenFile_reading_file {fs : InMemoryFileSystem} {content : List UInt8}
    (h : treeOf fs p = some (.file content)) (now : FileDateTime) :
    (fs.localOpenFile now (nodePath p) fileOpenReadOnly).1 =
      some (.make (nodePath p) fileOpenReadOnly) := by
  obtain ⟨node, hnode, hkind, -⟩ := lookup_of_file h
  unfold InMemoryFileSystem.localOpenFile
  rw [normalizeVirtualPath_nodePath]
  simp only
  rw [hnode]
  simp [hkind]

theorem localOpenFile_truncating {fs : InMemoryFileSystem} (h : IsTree fs) (now : FileDateTime)
    {d : InMemoryFileDescriptor} {fs' : InMemoryFileSystem}
    (hopen : fs.localOpenFile now (nodePath p) fileOpenWriteCreateTruncate = (some d, fs')) :
    d = .make (nodePath p) fileOpenWriteCreateTruncate ∧ IsTree fs' ∧
      treeOf fs' = Function.update (treeOf fs) p (some (.file [])) ∧
      treeOf fs p ≠ some .dir := by
  have hsegments : render (virtualSegments (nodePath p) ['/']) = nodePath p := by
    rw [virtualSegments_nodePath, nodePath]
  rcases MountableFileSystem.localOpenFile_cases fs now (nodePath p) fileOpenWriteCreateTruncate with
    hrefused | ⟨file, fs'', -, -, hbefore⟩
  · rw [hrefused.1] at hopen
    cases hopen
  · rw [hsegments] at hbefore
    have hnotDir : treeOf fs p ≠ some .dir := by
      rw [Ne, ← kindAt_eq_dir_iff]
      rcases hbefore with hfile | ⟨hnone, -, -⟩
      · rw [hfile]
        decide
      · rw [hnone]
        decide
    have hne : p ≠ [] := by
      rintro rfl
      exact hnotDir (wellFormed_treeOf h).root
    obtain ⟨q, name, rfl⟩ : ∃ q name, p = q ++ [name] :=
      ⟨_, _, (List.dropLast_append_getLast hne).symm⟩
    have hparent : treeOf fs q = some .dir := by
      rcases hbefore with hfile | ⟨-, -, hparent⟩
      · refine (wellFormed_treeOf h).parents q name ?_
        rw [Ne, ← kindAt_eq_none_iff, hfile]
        simp
      · exact parentIsDirectory_nodePath.mp hparent
    obtain ⟨fs'', hrun, htree, hfiles⟩ := localOpenFile_writing h now
      (show fileOpenWriteCreateTruncate.create = true from rfl) hnotDir hparent
    rw [hrun] at hopen
    cases hopen
    exact ⟨rfl, htree, hfiles, hnotDir⟩

theorem treeOf_readAt (fs : InMemoryFileSystem) (now : FileDateTime) (p : List Name)
    (position count : Nat) :
    treeOf (fs.readAt now (nodePath p) position count).2.2.2 = treeOf fs := by
  unfold InMemoryFileSystem.readAt
  split
  · rfl
  · rename_i node hnode
    split_ifs
    · rfl
    · rw [treeOf_insert]
      refine Function.update_eq_self_iff.mpr ?_
      rw [treeOf, hnode]
      rfl

structure ReadsAt (p : List Name) (d : RootFile) (pos : Nat) : Prop where
  own : ∃ file, d = .own file ∧ file.path = nodePath p ∧ file.readable = true ∧ file.position = pos

structure WritesAt (p : List Name) (d : RootFile) (pos : Nat) : Prop where
  own : ∃ file, d = .own file ∧ file.path = nodePath p ∧ file.writable = true ∧
    file.append = false ∧ file.position = pos

theorem read_root {d : RootFile} {pos : Nat} (h : ReadsAt p d pos) (now : FileDateTime)
    (count : Nat) (s : RootState ω) :
    ∃ file : InMemoryFileDescriptor, d = .own file ∧ file.path = nodePath p ∧ file.readable = true ∧
      (rootView ω).read now d count s =
        ((s.1.content.readAt now (nodePath p) pos count).1,
          (s.1.content.readAt now (nodePath p) pos count).2.1,
          .own { file with position := (s.1.content.readAt now (nodePath p) pos count).2.2.1 },
          { s.1 with content := (s.1.content.readAt now (nodePath p) pos count).2.2.2 }, s.2) := by
  obtain ⟨file, rfl, hpath, hreadable, hpos⟩ := h.own
  refine ⟨file, rfl, hpath, hreadable, ?_⟩
  have hread : file.read s.1.content now count =
      ((s.1.content.readAt now (nodePath p) pos count).1,
        (s.1.content.readAt now (nodePath p) pos count).2.1,
        { file with position := (s.1.content.readAt now (nodePath p) pos count).2.2.1 },
        (s.1.content.readAt now (nodePath p) pos count).2.2.2) := by
    rw [InMemoryFileDescriptor.read, hreadable, hpath, hpos]
    rfl
  change ((file.read s.1.content now count).1, (file.read s.1.content now count).2.1,
    OpenedFile.own (file.read s.1.content now count).2.2.1,
    { s.1 with content := (file.read s.1.content now count).2.2.2 }, s.2) = _
  rw [hread]

theorem write_root {d : RootFile} {pos : Nat} (h : WritesAt p d pos) (now : FileDateTime)
    (buf : List UInt8) (s : RootState ω) :
    ∃ file : InMemoryFileDescriptor, d = .own file ∧ file.path = nodePath p ∧ file.writable = true ∧
      file.append = false ∧
      (rootView ω).write now d buf s =
        ((s.1.content.writeAt now (nodePath p) pos false buf).1,
          .own { file with position := (s.1.content.writeAt now (nodePath p) pos false buf).2.1 },
          { s.1 with content := (s.1.content.writeAt now (nodePath p) pos false buf).2.2 }, s.2) := by
  obtain ⟨file, rfl, hpath, hwritable, happend, hpos⟩ := h.own
  refine ⟨file, rfl, hpath, hwritable, happend, ?_⟩
  have hwrite : file.write s.1.content now buf =
      ((s.1.content.writeAt now (nodePath p) pos false buf).1,
        { file with position := (s.1.content.writeAt now (nodePath p) pos false buf).2.1 },
        (s.1.content.writeAt now (nodePath p) pos false buf).2.2) := by
    rw [InMemoryFileDescriptor.write, hwritable, hpath, hpos, happend]
    rfl
  change ((file.write s.1.content now buf).1,
    OpenedFile.own (file.write s.1.content now buf).2.1,
    { s.1 with content := (file.write s.1.content now buf).2.2 }, s.2) = _
  rw [hwrite]

theorem readAt_bytes {fs fs' : InMemoryFileSystem} {now : FileDateTime} {data chunk : List UInt8}
    {pos pos' count n : Nat} (hfile : treeOf fs p = some (.file data)) (hcount : 0 < count)
    (hread : fs.readAt now (nodePath p) pos count = ((n : Int), chunk, pos', fs')) :
    chunk = (data.drop pos).take n ∧ chunk.length = n ∧ (n = 0 → data.length ≤ pos) ∧
      pos' = pos + n := by
  obtain ⟨node, hnode, -, hdata⟩ := lookup_of_file hfile
  unfold InMemoryFileSystem.readAt at hread
  rw [hnode] at hread
  simp only [hdata] at hread
  split_ifs at hread with hend
  · simp only [Prod.mk.injEq] at hread
    obtain ⟨hn, rfl, rfl, -⟩ := hread
    obtain rfl : n = 0 := by exact_mod_cast hn.symm
    exact ⟨by simp, rfl, fun _ => hend, rfl⟩
  · simp only [Prod.mk.injEq] at hread
    obtain ⟨hn, rfl, rfl, -⟩ := hread
    obtain rfl : min count (data.length - pos) = n := by exact_mod_cast hn
    refine ⟨rfl, ?_, fun hzero => ?_, rfl⟩
    · rw [List.length_take, List.length_drop]
      omega
    · omega

theorem treeOf_writeAt (fs : InMemoryFileSystem) (now : FileDateTime) (p : List Name)
    (pos : Nat) (buf : List UInt8) :
    treeOf (fs.writeAt now (nodePath p) pos false buf).2.2 = treeOf fs ∨
      ∃ data, treeOf (fs.writeAt now (nodePath p) pos false buf).2.2 =
        Function.update (treeOf fs) p (some (.file data)) := by
  unfold InMemoryFileSystem.writeAt
  split
  · exact .inl rfl
  · rename_i node hnode
    simp only [Bool.false_eq_true, if_false]
    split_ifs
    · exact .inl rfl
    · rw [treeOf_insert]
      cases hkind : node.isDirectory with
      | true =>
          left
          refine Function.update_eq_self_iff.mpr ?_
          rw [treeOf, hnode]
          simp [Node.entry, Node.modified, hkind]
      | false =>
          right
          refine ⟨InMemoryFileSystem.written node.data pos buf, ?_⟩
          simp [Node.entry, Node.modified]

theorem writeAt_bytes {fs fs' : InMemoryFileSystem} {now : FileDateTime} {buf : List UInt8}
    {pos pos' n : Nat} (hwrite : fs.writeAt now (nodePath p) pos false buf = ((n : Int), pos', fs')) :
    n = buf.length ∧ pos' = pos + n ∧ ∀ data, treeOf fs p = some (.file data) →
      data.length = pos → contentAt (treeOf fs') p = data ++ buf := by
  unfold InMemoryFileSystem.writeAt at hwrite
  split at hwrite
  · simp [kIOError] at hwrite
  · rename_i node hnode
    simp only [Bool.false_eq_true, if_false] at hwrite
    split_ifs at hwrite
    · simp [kIOError] at hwrite
    · simp only [Prod.mk.injEq] at hwrite
      obtain ⟨hn, rfl, rfl⟩ := hwrite
      obtain rfl : buf.length = n := by exact_mod_cast hn
      refine ⟨rfl, rfl, fun data hfile hend => ?_⟩
      obtain ⟨node', hnode', hkind, hdata⟩ := lookup_of_file hfile
      cases hnode.symm.trans hnode'
      rw [treeOf_insert, contentAt, Function.update_self]
      simp [Node.entry, Node.modified, hkind, hdata, ← hend, written_end]

end

/-! ## The view -/

def rootSees (ω : Type) : Sees (memoryStore ω) (rootView ω) where
  place := pathOf
  Reads d p pos := ReadsAt p d pos
  Writes d target pos := ∃ p, target = some p ∧ WritesAt p d pos
  stat_file path s h := by
    rw [stat_root h path]
    constructor
    · intro htype
      rcases hentry : treeOf s.1.content (pathOf path) with _ | _ | data
      · rw [hentry] at htype
        cases htype
      · rw [hentry] at htype
        cases htype
      · exact ⟨pathOf path, fileNamed_eq_some.mpr ⟨rfl, data, hentry⟩⟩
    · rintro ⟨p, hp⟩
      obtain ⟨-, data, hdata⟩ := fileNamed_eq_some.mp hp
      rw [hdata]
      rfl
  createDirectory now path mode s h := createDirectory_root h now path mode
  openRead now path s h := by
    rw [openFile_root h, localOpenFile_reading]
    exact Store.Keeps.refl h
  openRead_file now path s d p h hp hd := by
    obtain ⟨rfl, data, hdata⟩ := fileNamed_eq_some.mp hp
    rw [openFile_root h, localOpenFile_nodePath, localOpenFile_reading_file hdata] at hd
    cases hd
    exact ⟨_, rfl, rfl, rfl, rfl⟩
  openWrite_none now path s h hnone := by
    rw [openFile_root h] at hnone ⊢
    rcases MountableFileSystem.localOpenFile_cases s.1.content now path
      fileOpenWriteCreateTruncate with hrefused | ⟨file, content, hopen, -⟩
    · rw [hrefused.1]
      exact Store.Keeps.refl h
    · rw [hopen] at hnone
      cases hnone
  openWrite_some now path s d s' h hopen := by
    rw [openFile_root h, localOpenFile_nodePath] at hopen
    rcases hlocal : s.1.content.localOpenFile now (nodePath (pathOf path))
      fileOpenWriteCreateTruncate with ⟨_ | file, content⟩
    · rw [hlocal] at hopen
      cases hopen
    · rw [hlocal] at hopen
      cases hopen
      obtain ⟨rfl, htree, hfiles, hnotDir⟩ := localOpenFile_truncating h.2.2 now hlocal
      have hthere : treeOf content (pathOf path) = some (.file []) := by
        rw [hfiles, Function.update_self]
      refine ⟨some (pathOf path), ⟨_, rfl, _, rfl, rfl, rfl, rfl, rfl⟩,
        memoryStore_keepsBut h htree hfiles, fileNamed_eq_some.mpr ⟨rfl, [], hthere⟩,
        fun hnone => absurd hnone (by simp), fun j hj => ?_⟩
      obtain rfl : pathOf path = j := by simpa using hj
      refine ⟨contentAt_file hthere, ?_⟩
      by_cases hfile : ∃ data, treeOf s.1.content (pathOf path) = some (.file data)
      · exact .inl (fileNamed_eq_some.mpr ⟨rfl, hfile⟩)
      · right
        intro k hk
        obtain ⟨rfl, hdata⟩ := fileNamed_eq_some.mp hk
        exact hfile hdata
  read_keeps now d count s p pos h hreads := by
    obtain ⟨file, -, -, -, hread⟩ := read_root hreads now count s
    rw [hread]
    refine memoryStore_keeps h (h.2.2.change (change_readAt now (nodePath p) pos count)) ?_
    intro q data
    rw [treeOf_readAt]
  read_bytes now d count s p k pos n chunk d' s' h hreads hk hcount hread := by
    obtain ⟨file, -, hpath, hreadable, hroot⟩ := read_root hreads now count s
    obtain ⟨rfl, data, hdata⟩ := fileNamed_eq_some.mp hk
    rcases hlocal : s.1.content.readAt now (nodePath k) pos count with ⟨m, out, pos', content⟩
    rw [hroot, hlocal] at hread
    cases hread
    obtain ⟨hchunk, hlength, hlast, rfl⟩ := readAt_bytes hdata hcount hlocal
    have hcontent : (memoryStore ω).content s k = data := contentAt_file hdata
    rw [hcontent]
    exact ⟨hchunk, hlength, hlast, _, rfl, hpath, hreadable, rfl⟩
  write_keeps now d buf s target pos h hwrites := by
    obtain ⟨p, rfl, hwrites⟩ := hwrites
    obtain ⟨file, -, -, -, -, hwrite⟩ := write_root hwrites now buf s
    rw [hwrite]
    have htree := h.2.2.change (change_writeAt now (nodePath p) pos false buf)
    rcases treeOf_writeAt s.1.content now p pos buf with hsame | ⟨data, hdata⟩
    · refine (memoryStore_keeps h htree fun q data => ?_).keepsBut _
      rw [hsame]
    · exact memoryStore_keepsBut h htree hdata
  write_bytes now d buf s target pos n d' s' h hwrites hwrite hn := by
    obtain ⟨p, rfl, hwrites⟩ := hwrites
    obtain ⟨file, -, hpath, hwritable, happend, hroot⟩ := write_root hwrites now buf s
    rcases hlocal : s.1.content.writeAt now (nodePath p) pos false buf with ⟨m, pos', content⟩
    rw [hroot, hlocal] at hwrite
    cases hwrite
    obtain ⟨rfl, rfl, hdata⟩ := writeAt_bytes hlocal
    refine ⟨le_refl _, ⟨p, rfl, _, rfl, hpath, hwritable, happend, rfl⟩, fun j k hj hk hend => ?_⟩
    obtain rfl : p = j := by simpa using hj
    obtain ⟨rfl, data, hfile⟩ := fileNamed_eq_some.mp hk
    have hcontent : (memoryStore ω).content s k = data := contentAt_file hfile
    rw [hcontent] at hend ⊢
    rw [List.take_length]
    exact hdata data hfile hend

/-! ## A file and two copies of it -/

/-- The file `/note` in an empty filesystem. -/
def noteFiles : InMemoryFileSystem :=
  (((InMemoryFileSystem.create {}).localOpenFile {} (text "/note")
    fileOpenWriteCreateTruncate).2.writeAt {} (text "/note") 0 false (bytesOf (text "x"))).2.2

theorem isTree_noteFiles : IsTree noteFiles :=
  ((isTree_create {}).change (change_localOpenFile (isTree_create {}) _ _ _)).change
    (change_writeAt _ _ _ _ _)

def noteDisk : Disk (RootState Unit) := { state := ({ content := noteFiles }, ()) }

/-- A copy to another path keeps the law. -/
theorem copyFileBetween_law_iff_note :
    CopyLaw (memoryStore Unit) (pathOf (text "/note")) (pathOf (text "/b/copy")) noteDisk.state
      (exec (copyFileBetween (fun _ => {}) 2 (rootView Unit) (text "/note") (rootView Unit)
        (text "/b/copy")) noteDisk).2.state
      (exec (copyFileBetween (fun _ => {}) 2 (rootView Unit) (text "/note") (rootView Unit)
        (text "/b/copy")) noteDisk).1 := by
  have hnote : (memoryStore Unit).fileAt noteDisk.state (pathOf (text "/note")) =
      some (pathOf (text "/note")) := by decide +kernel
  have hcopy : (memoryStore Unit).fileAt noteDisk.state (pathOf (text "/b/copy")) = none := by
    decide +kernel
  have hlength : ((memoryStore Unit).content noteDisk.state (pathOf (text "/note"))).length = 1 := by
    decide +kernel
  refine (copyFileBetween_law_iff (fun _ => {}) (memoryStore Unit) (rootView Unit) (rootView Unit)
    (rootSees Unit) (rootSees Unit) (text "/note") (text "/b/copy") noteDisk
    ⟨rfl, rfl, isTree_noteFiles⟩ 2 fun i hi => ?_).2.mpr fun hitself => ?_
  · cases hnote.symm.trans hi
    rw [hlength]
    decide
  · obtain ⟨i, -, hto, -⟩ := hitself.same
    cases hcopy.symm.trans hto

/-- A file copied onto itself is empty afterwards, and the copy succeeds. -/
theorem copyFileBetween_ontoItself :
    (exec (copyFileBetween (fun _ => {}) 2 (rootView Unit) (text "/note") (rootView Unit)
      (text "/note")) noteDisk).1 = .ok () ∧
    ¬ CopyLaw (memoryStore Unit) (pathOf (text "/note")) (pathOf (text "/note")) noteDisk.state
      (exec (copyFileBetween (fun _ => {}) 2 (rootView Unit) (text "/note") (rootView Unit)
        (text "/note")) noteDisk).2.state
      (exec (copyFileBetween (fun _ => {}) 2 (rootView Unit) (text "/note") (rootView Unit)
        (text "/note")) noteDisk).1 := by
  refine ⟨by decide +kernel, fun hlaw => ?_⟩
  have hnote : (memoryStore Unit).fileAt noteDisk.state (pathOf (text "/note")) =
      some (pathOf (text "/note")) := by decide +kernel
  have hbefore : (memoryStore Unit).content noteDisk.state (pathOf (text "/note")) =
      bytesOf (text "x") := by decide +kernel
  have hafter : (memoryStore Unit).content (exec (copyFileBetween (fun _ => {}) 2 (rootView Unit)
      (text "/note") (rootView Unit) (text "/note")) noteDisk).2.state (pathOf (text "/note")) = [] := by
    decide +kernel
  have hkept := (hlaw.keeps _ hnote hnote).2
  rw [hbefore, hafter] at hkept
  exact absurd hkept (by decide)

end Haisos.HaisosFile
