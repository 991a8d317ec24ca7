import Haisos.Filesystem.WayDown
import Haisos.PathTree

/-!
# The reference tree of an in-memory filesystem

What stands at each path, with the contents of the files, and what each call
does to it, when it does anything.
-/

namespace Haisos.Filesystem

open Hsh (Text text)
open PathTree InMemoryFileSystem

/-! ## Paths of names -/

abbrev Name := {s : Text // IsSegment s}

def segmentsOf (p : List Name) : List Text := p.map Subtype.val

theorem areSegments_segmentsOf (p : List Name) : AreSegments (segmentsOf p) := by
  intro s hs
  obtain ⟨name, -, rfl⟩ := List.mem_map.mp hs
  exact name.2

theorem segmentsOf_append (p q : List Name) :
    segmentsOf (p ++ q) = segmentsOf p ++ segmentsOf q := List.map_append

/-- The names of a path, as `NormalizeVirtualPath` leaves them. -/
def pathOf (path : Text) : List Name :=
  (virtualSegments path ['/']).attachWith IsSegment (virtualSegments_areSegments path ['/'])

theorem segmentsOf_pathOf (path : Text) : segmentsOf (pathOf path) = virtualSegments path ['/'] :=
  List.attachWith_map_subtype_val _

theorem exists_names {p : List Text} (h : AreSegments p) : ∃ names, p = segmentsOf names :=
  ⟨p.attachWith IsSegment h, (List.attachWith_map_subtype_val _).symm⟩

def nodePath (p : List Name) : Text := render (segmentsOf p)

theorem nodePath_inj {p q : List Name} : nodePath p = nodePath q ↔ p = q := by
  rw [nodePath, nodePath, render_inj (areSegments_segmentsOf p) (areSegments_segmentsOf q)]
  exact (List.map_injective_iff.mpr Subtype.val_injective).eq_iff

theorem nodePath_eq_root {p : List Name} : nodePath p = ['/'] ↔ p = [] := nodePath_inj (q := [])

theorem normalizeVirtualPath_eq (path : Text) : normalizeVirtualPath path = nodePath (pathOf path) := by
  rw [nodePath, segmentsOf_pathOf]
  rfl

theorem virtualSegments_nodePath (p : List Name) :
    virtualSegments (nodePath p) ['/'] = segmentsOf p :=
  virtualSegments_render (areSegments_segmentsOf p) ['/']

theorem normalizeVirtualPath_nodePath (p : List Name) :
    normalizeVirtualPath (nodePath p) = nodePath p :=
  normalizeVirtualPath_render (areSegments_segmentsOf p) ['/']

theorem joinSegments_concat (p : List Name) (s : Name) :
    joinSegments (segmentsOf p) ++ '/' :: s.1 = nodePath (p ++ [s]) := by
  rw [nodePath, segmentsOf_append, render_of_ne_nil (by simp [segmentsOf]), joinSegments_append]
  simp [segmentsOf]

theorem nodePath_concat {p : List Name} (h : p ≠ []) (s : Name) :
    nodePath p ++ '/' :: s.1 = nodePath (p ++ [s]) := by
  have hsegments : segmentsOf p ≠ [] := mt List.map_eq_nil_iff.mp h
  rw [← joinSegments_concat, nodePath, render_of_ne_nil hsegments]

theorem parentOf_nodePath (p : List Name) (s : Name) :
    parentOf (nodePath (p ++ [s])) = nodePath p := by
  rw [parentOf, nodePath, segmentsOf_append]
  exact virtualParentOf_append (areSegments_segmentsOf p) s.2

/-! ## The tree -/

def Node.entry (node : Node) : Entry (List UInt8) :=
  if node.isDirectory then .dir else .file node.data

def treeOf (fs : InMemoryFileSystem) : Tree Name (List UInt8) :=
  fun p => (fs.nodes.lookup (nodePath p)).map Node.entry

section

variable {fs : InMemoryFileSystem} {p : List Name} {s : Name}

theorem kindAt_nodePath (fs : InMemoryFileSystem) (p : List Name) :
    fs.kindAt (nodePath p) = (treeOf fs p).map fun entry => decide (entry = .dir) := by
  rw [kindAt, treeOf, Option.map_map]
  congr 1
  funext node
  by_cases h : node.isDirectory <;> simp [Node.entry, h]

theorem treeOf_eq_none : treeOf fs p = none ↔ fs.nodes.lookup (nodePath p) = none :=
  Option.map_eq_none_iff

theorem kindAt_eq_none_iff : fs.kindAt (nodePath p) = none ↔ treeOf fs p = none := by
  rw [kindAt_nodePath, Option.map_eq_none_iff]

theorem kindAt_eq_dir_iff : fs.kindAt (nodePath p) = some true ↔ treeOf fs p = some .dir := by
  rw [kindAt_nodePath]
  simp

theorem wellFormed_treeOf (h : IsTree fs) : PathTree.WellFormed (treeOf fs) where
  root := kindAt_eq_dir_iff.mp h.root
  parents p s hthere := by
    have hsegments := areSegments_segmentsOf (p ++ [s])
    have hkind := mt kindAt_eq_none_iff.mp hthere
    rw [nodePath, segmentsOf_append] at hkind
    rw [segmentsOf_append] at hsegments
    exact kindAt_eq_dir_iff.mp (h.parents _ _ hsegments hkind)

theorem lookup_of_dir (h : treeOf fs p = some .dir) :
    ∃ node, fs.nodes.lookup (nodePath p) = some node ∧ node.isDirectory = true :=
  kindAt_eq_some.mp (kindAt_eq_dir_iff.mpr h)

theorem lookup_of_file {content : List UInt8} (h : treeOf fs p = some (.file content)) :
    ∃ node, fs.nodes.lookup (nodePath p) = some node ∧ node.isDirectory = false ∧
      node.data = content := by
  obtain ⟨node, hnode, hentry⟩ := Option.map_eq_some_iff.mp h
  refine ⟨node, hnode, ?_⟩
  cases hkind : node.isDirectory <;> simp [Node.entry, hkind] at hentry
  exact ⟨rfl, hentry⟩

/-! ## Changes of the nodes -/

theorem treeOf_insert (nodes : Nodes) (p : List Name) (node : Node) :
    treeOf ⟨nodes.insert (nodePath p) node⟩ =
      Function.update (treeOf ⟨nodes⟩) p (some node.entry) := by
  funext q
  by_cases hq : q = p
  · rw [hq, Function.update_self, treeOf, AList.lookup_insert, Option.map_some]
  · rw [Function.update_of_ne hq, treeOf, treeOf,
      AList.lookup_insert_ne (mt nodePath_inj.mp hq)]

theorem treeOf_erase (nodes : Nodes) (p : List Name) :
    treeOf ⟨nodes.erase (nodePath p)⟩ = Function.update (treeOf ⟨nodes⟩) p none := by
  funext q
  by_cases hq : q = p
  · rw [hq, Function.update_self, treeOf, AList.lookup_erase, Option.map_none]
  · rw [Function.update_of_ne hq, treeOf, treeOf,
      AList.lookup_erase_ne (mt nodePath_inj.mp hq)]

theorem treeOf_touchDirectory (fs : InMemoryFileSystem) (now : FileDateTime) (p : List Name) :
    treeOf (fs.touchDirectory now (nodePath p)) = treeOf fs := by
  unfold touchDirectory
  split
  · rfl
  · rename_i node hnode
    rw [treeOf_insert]
    refine Function.update_eq_self_iff.mpr ?_
    rw [treeOf, hnode]
    rfl

theorem treeOf_emplace (fs : InMemoryFileSystem) (now : FileDateTime) (p : List Name) (s : Name)
    (isDirectory : Bool) :
    treeOf (fs.emplace now (nodePath (p ++ [s])) isDirectory) =
      Function.update (treeOf fs) (p ++ [s]) (some (if isDirectory then .dir else .file [])) := by
  rw [emplace, parentOf_nodePath, treeOf_touchDirectory, treeOf_insert]
  rfl

theorem treeOf_eraseNode (fs : InMemoryFileSystem) (now : FileDateTime) (p : List Name) (s : Name) :
    treeOf (fs.eraseNode now (nodePath (p ++ [s]))) =
      Function.update (treeOf fs) (p ++ [s]) none := by
  rw [eraseNode, parentOf_nodePath, treeOf_touchDirectory, treeOf_erase]

theorem parentIsDirectory_nodePath :
    fs.parentIsDirectory (nodePath (p ++ [s])) = true ↔ treeOf fs p = some .dir := by
  have hsegments := areSegments_segmentsOf (p ++ [s])
  rw [segmentsOf_append] at hsegments
  rw [nodePath, segmentsOf_append, ← kindAt_eq_dir_iff]
  exact parentIsDirectory_iff hsegments

/-! ## The calls -/

theorem localCreateDirectory_absent (h : IsTree fs) (now : FileDateTime)
    (habsent : treeOf fs (p ++ [s]) = none) (hparent : treeOf fs p = some .dir) :
    ∃ fs', fs.localCreateDirectory now (nodePath (p ++ [s])) = (0, fs') ∧ IsTree fs' ∧
      treeOf fs' = Function.update (treeOf fs) (p ++ [s]) (some .dir) := by
  have hchange := change_localCreateDirectory h now (nodePath (p ++ [s]))
  have hrun : fs.localCreateDirectory now (nodePath (p ++ [s])) =
      (0, fs.emplace now (nodePath (p ++ [s])) true) := by
    unfold localCreateDirectory
    rw [normalizeVirtualPath_nodePath]
    simp [treeOf_eq_none.mp habsent, parentIsDirectory_nodePath.mpr hparent]
  rw [hrun] at hchange
  exact ⟨_, hrun, h.change hchange, treeOf_emplace fs now p s true⟩

/-- The content of the file at a path, nothing when there is none. -/
def contentAt (t : Tree Name (List UInt8)) (p : List Name) : List UInt8 :=
  match t p with
  | some (.file content) => content
  | _ => []

theorem localOpenFile_writing (h : IsTree fs) (now : FileDateTime) {flags : OpenFlags}
    (hcreate : flags.create = true) (hnotDir : treeOf fs (p ++ [s]) ≠ some .dir)
    (hparent : treeOf fs p = some .dir) :
    ∃ fs', fs.localOpenFile now (nodePath (p ++ [s])) flags =
        (some (.make (nodePath (p ++ [s])) flags), fs') ∧ IsTree fs' ∧
      treeOf fs' = Function.update (treeOf fs) (p ++ [s])
        (some (.file (if flags.truncate then [] else contentAt (treeOf fs) (p ++ [s])))) := by
  have hchange := change_localOpenFile h now (nodePath (p ++ [s])) flags
  rcases hentry : treeOf fs (p ++ [s]) with _ | _ | content
  · have hrun : fs.localOpenFile now (nodePath (p ++ [s])) flags =
        (some (.make (nodePath (p ++ [s])) flags),
          fs.emplace now (nodePath (p ++ [s])) false) := by
      unfold localOpenFile
      rw [normalizeVirtualPath_nodePath]
      simp only
      rw [treeOf_eq_none.mp hentry]
      simp [parentIsDirectory_nodePath.mpr hparent, hcreate]
    rw [hrun] at hchange
    refine ⟨_, hrun, h.change hchange, ?_⟩
    rw [treeOf_emplace, contentAt, hentry]
    simp
  · exact absurd hentry hnotDir
  · obtain ⟨node, hnode, hkind, hdata⟩ := lookup_of_file hentry
    have hrun : fs.localOpenFile now (nodePath (p ++ [s])) flags =
        (some (.make (nodePath (p ++ [s])) flags),
          if flags.truncate then
            ⟨fs.nodes.insert (nodePath (p ++ [s])) ({ node with data := [] }.modified now)⟩
          else fs) := by
      unfold localOpenFile
      rw [normalizeVirtualPath_nodePath]
      simp only
      rw [hnode]
      simp [hkind]
    rw [hrun] at hchange
    refine ⟨_, hrun, h.change hchange, ?_⟩
    cases htruncate : flags.truncate with
    | true =>
        rw [if_pos rfl, treeOf_insert]
        simp [Node.entry, Node.modified, hkind]
    | false =>
        rw [if_neg (by simp), contentAt, hentry]
        exact (Function.update_eq_self_iff.mpr hentry.symm).symm

theorem written_end (data buf : List UInt8) : written data data.length buf = data ++ buf := by
  unfold written RingBuffer.overwrite
  split_ifs with h
  · simp
  · have hbuf : buf = [] := by
      simpa using h
    simp [hbuf]

theorem writeAt_file (h : IsTree fs) (now : FileDateTime) {content buf : List UInt8}
    {append : Bool} (hentry : treeOf fs p = some (.file content))
    (hplace : append = true ∨ content = [])
    (hfits : content.length + buf.length ≤ sizeMax) :
    ∃ pos fs', fs.writeAt now (nodePath p) 0 append buf = ((buf.length : Int), pos, fs') ∧ IsTree fs' ∧
      treeOf fs' = Function.update (treeOf fs) p (some (.file (content ++ buf))) := by
  obtain ⟨node, hnode, hkind, hdata⟩ := lookup_of_file hentry
  have hpos : (if append then node.data.length else 0) = content.length := by
    rcases hplace with rfl | rfl
    · rw [if_pos rfl, hdata]
    · split_ifs <;> simp [hdata]
  have hchange : TreeChange fs (fs.writeAt now (nodePath p) 0 append buf).2.2 :=
    change_writeAt now (nodePath p) 0 append buf
  have hrun : fs.writeAt now (nodePath p) 0 append buf =
      ((buf.length : Int), content.length + buf.length,
        ⟨fs.nodes.insert (nodePath p)
          ({ node with data := written node.data content.length buf }.modified now)⟩) := by
    unfold writeAt
    rw [hnode]
    simp only [hpos]
    rw [if_neg (by omega)]
  rw [hrun] at hchange
  refine ⟨_, _, hrun, h.change hchange, ?_⟩
  rw [treeOf_insert, ← hdata, written_end]
  simp [Node.entry, Node.modified, hkind]

theorem localRemoveFile_file (h : IsTree fs) (now : FileDateTime) {content : List UInt8}
    (hentry : treeOf fs (p ++ [s]) = some (.file content)) :
    ∃ fs', fs.localRemoveFile now (nodePath (p ++ [s])) = (0, fs') ∧ IsTree fs' ∧
      treeOf fs' = Function.update (treeOf fs) (p ++ [s]) none := by
  obtain ⟨node, hnode, hkind, -⟩ := lookup_of_file hentry
  have hchange := change_localRemoveFile h now (nodePath (p ++ [s]))
  have hrun : fs.localRemoveFile now (nodePath (p ++ [s])) =
      (0, fs.eraseNode now (nodePath (p ++ [s]))) := by
    unfold localRemoveFile
    rw [normalizeVirtualPath_nodePath]
    simp only
    rw [hnode]
    simp [hkind]
  rw [hrun] at hchange
  exact ⟨_, hrun, h.change hchange, treeOf_eraseNode fs now p s⟩

theorem localRemoveDirectory_empty (h : IsTree fs) (now : FileDateTime)
    (hentry : treeOf fs (p ++ [s]) = some .dir)
    (hempty : ∀ name, treeOf fs (p ++ [s] ++ [name]) = none) :
    ∃ fs', fs.localRemoveDirectory now (nodePath (p ++ [s])) = (0, fs') ∧ IsTree fs' ∧
      treeOf fs' = Function.update (treeOf fs) (p ++ [s]) none := by
  obtain ⟨node, hnode, hkind⟩ := lookup_of_dir hentry
  have hne : nodePath (p ++ [s]) ≠ ['/'] := by simp [nodePath_eq_root]
  have hnone : (fs.nodes.keys.any fun path => startsWith path (nodePath (p ++ [s]) ++ ['/'])) =
      false := by
    rw [List.any_eq_false]
    intro path hpath hstarts
    have hthere : fs.kindAt path ≠ none := by
      rw [Ne, kindAt_eq_none, AList.lookup_eq_none]
      exact not_not.mpr hpath
    obtain ⟨q, hq, rfl⟩ := h.normalized path hthere
    obtain ⟨names, rfl⟩ := exists_names hq
    have hbelow := (startsWith_slash_iff hq (areSegments_segmentsOf _)
      (by simp [segmentsOf])).mp hstarts
    obtain ⟨hle, hdiffer⟩ := hbelow
    obtain ⟨r, hr⟩ := hle
    have hrest : AreSegments r := by
      rw [← hr] at hq
      exact hq.right
    obtain ⟨below, rfl⟩ := exists_names hrest
    rw [← segmentsOf_append] at hr
    have hnames : p ++ [s] ++ below = names :=
      (List.map_injective_iff.mpr Subtype.val_injective) hr
    subst hnames
    rcases below with _ | ⟨name, below⟩
    · exact hdiffer (by simp)
    · refine hthere (kindAt_eq_none_iff.mpr ?_)
      by_cases hbelow : below = []
      · rw [hbelow]
        exact hempty name
      · rw [List.append_cons]
        exact (wellFormed_treeOf h).none_below (by rw [hempty name]; simp) hbelow
  have hchange : TreeChange fs (fs.localRemoveDirectory now (nodePath (p ++ [s]))).2 :=
    change_localRemoveDirectory now (nodePath (p ++ [s]))
  have hrun : fs.localRemoveDirectory now (nodePath (p ++ [s])) =
      (0, fs.eraseNode now (nodePath (p ++ [s]))) := by
    unfold localRemoveDirectory
    rw [normalizeVirtualPath_nodePath]
    simp only
    rw [hnode]
    simp only [hkind, hne, hnone]
    simp
  rw [hrun] at hchange
  exact ⟨_, hrun, h.change hchange, treeOf_eraseNode fs now p s⟩

end

end Haisos.Filesystem
