import Haisos.Filesystem.InMemory

/-!
# The tree of an in-memory filesystem

What stands at each path, file or directory, and the only three things an operation
can do to it: leave it, add one entry to a directory, or take one entry without
entries of its own away.
-/

namespace Haisos.Filesystem

open Hsh (Text text)

namespace InMemoryFileSystem

/-- Whether the node at a path is a directory, if there is one. -/
def kindAt (fs : InMemoryFileSystem) (path : Text) : Option Bool :=
  (fs.nodes.lookup path).map (·.isDirectory)

theorem kindAt_of_lookup {fs : InMemoryFileSystem} {path : Text} {node : Node}
    (h : fs.nodes.lookup path = some node) : fs.kindAt path = some node.isDirectory := by
  rw [kindAt, h, Option.map_some]

theorem kindAt_eq_none {fs : InMemoryFileSystem} {path : Text} :
    fs.kindAt path = none ↔ fs.nodes.lookup path = none := Option.map_eq_none_iff

theorem kindAt_eq_some {fs : InMemoryFileSystem} {path : Text} {isDirectory : Bool} :
    fs.kindAt path = some isDirectory ↔
      ∃ node, fs.nodes.lookup path = some node ∧ node.isDirectory = isDirectory :=
  Option.map_eq_some_iff

theorem kindAt_insert (nodes : Nodes) (path other : Text) (node : Node) :
    kindAt ⟨nodes.insert path node⟩ other =
      if other = path then some node.isDirectory else kindAt ⟨nodes⟩ other := by
  unfold kindAt
  split_ifs with h
  · rw [h, AList.lookup_insert, Option.map_some]
  · rw [AList.lookup_insert_ne h]

theorem kindAt_erase (nodes : Nodes) (path other : Text) :
    kindAt ⟨nodes.erase path⟩ other =
      if other = path then none else kindAt ⟨nodes⟩ other := by
  unfold kindAt
  split_ifs with h
  · rw [h, AList.lookup_erase, Option.map_none]
  · rw [AList.lookup_erase_ne h]

theorem kindAt_insert_same {fs : InMemoryFileSystem} {path : Text} {node node' : Node}
    (h : fs.nodes.lookup path = some node) (hkind : node'.isDirectory = node.isDirectory)
    (other : Text) : kindAt ⟨fs.nodes.insert path node'⟩ other = fs.kindAt other := by
  rw [kindAt_insert]
  split_ifs with hother
  · rw [hother, kindAt_of_lookup h, hkind]
  · rfl

@[simp]
theorem kindAt_touchDirectory (fs : InMemoryFileSystem) (now : FileDateTime)
    (path other : Text) : (fs.touchDirectory now path).kindAt other = fs.kindAt other := by
  unfold touchDirectory
  split
  · rfl
  · rename_i node hnode
    exact kindAt_insert_same hnode (by rfl) other

theorem parentIsDirectory_iff {fs : InMemoryFileSystem} {p : List Text} {s : Text}
    (hp : AreSegments (p ++ [s])) :
    fs.parentIsDirectory (render (p ++ [s])) = true ↔ fs.kindAt (render p) = some true := by
  rw [parentIsDirectory, parentOf, virtualParentOf_append hp.left (hp s (by simp)), kindAt]
  cases fs.nodes.lookup (render p) <;> simp

end InMemoryFileSystem

open InMemoryFileSystem

inductive TreeChange (before after : InMemoryFileSystem) : Prop
  | same (kinds : ∀ path, after.kindAt path = before.kindAt path)
  | added (p : List Text) (s : Text) (isDirectory : Bool) (segments : AreSegments (p ++ [s]))
      (absent : before.kindAt (render (p ++ [s])) = none)
      (parent : before.kindAt (render p) = some true)
      (kinds : ∀ path, after.kindAt path =
        if path = render (p ++ [s]) then some isDirectory else before.kindAt path)
  | removed (p : List Text) (s : Text) (segments : AreSegments (p ++ [s]))
      (present : before.kindAt (render (p ++ [s])) ≠ none)
      (childless : ∀ s', AreSegments [s'] → before.kindAt (render (p ++ [s] ++ [s'])) = none)
      (kinds : ∀ path, after.kindAt path =
        if path = render (p ++ [s]) then none else before.kindAt path)

/-- The nodes make a tree under the root, each under its normalized path. -/
structure IsTree (fs : InMemoryFileSystem) : Prop where
  root : fs.kindAt ['/'] = some true
  normalized : ∀ path, fs.kindAt path ≠ none → ∃ p, AreSegments p ∧ path = render p
  parents : ∀ p s, AreSegments (p ++ [s]) → fs.kindAt (render (p ++ [s])) ≠ none →
    fs.kindAt (render p) = some true

theorem isTree_create (now : FileDateTime) : IsTree (.create now) := by
  have hkinds : ∀ path, (InMemoryFileSystem.create now).kindAt path =
      if path = ['/'] then some true else none := fun path => kindAt_insert ∅ ['/'] path _
  refine ⟨hkinds _, fun path h => ?_, fun p s hp h => ?_⟩
  · rw [hkinds] at h
    split_ifs at h with hroot
    · exact ⟨[], areSegments_nil, hroot⟩
    · exact absurd rfl h
  · rw [hkinds] at h
    split_ifs at h with hroot
    · exact absurd ((render_eq_slash hp).1 hroot) (by simp)
    · exact absurd rfl h

theorem IsTree.change {before after : InMemoryFileSystem} (h : IsTree before)
    (hchange : TreeChange before after) : IsTree after := by
  cases hchange with
  | same kinds =>
      refine ⟨?_, ?_, ?_⟩ <;> simp only [kinds]
      · exact h.root
      · exact h.normalized
      · exact h.parents
  | added p s isDirectory segments absent parent kinds =>
      have hold : ∀ path, before.kindAt path = some true → after.kindAt path = some true := by
        intro path hpath
        rw [kinds, if_neg]
        · exact hpath
        · rintro rfl
          rw [absent] at hpath
          exact nomatch hpath
      refine ⟨hold _ h.root, fun path hpath => ?_, fun q s' hq hchild => ?_⟩
      · rw [kinds] at hpath
        split_ifs at hpath with hnew
        · exact ⟨p ++ [s], segments, hnew⟩
        · exact h.normalized path hpath
      · rw [kinds] at hchild
        split_ifs at hchild with hnew
        · have hsame := (List.append_inj' ((render_inj hq segments).1 hnew) rfl).1
          exact hold _ (hsame ▸ parent)
        · exact hold _ (h.parents q s' hq hchild)
  | removed p s segments present childless kinds =>
      have hold : ∀ q, AreSegments q → q ≠ p ++ [s] →
          after.kindAt (render q) = before.kindAt (render q) := by
        intro q hq hne
        rw [kinds, if_neg]
        rwa [render_inj hq segments]
      refine ⟨?_, fun path hpath => ?_, fun q s' hq hchild => ?_⟩
      · rw [← render_nil, hold [] areSegments_nil (by simp)]
        exact h.root
      · rw [kinds] at hpath
        split_ifs at hpath
        · exact absurd rfl hpath
        · exact h.normalized path hpath
      · rw [kinds] at hchild
        split_ifs at hchild
        · exact absurd rfl hchild
        · rw [hold q hq.left]
          · exact h.parents q s' hq hchild
          · rintro rfl
            exact hchild (childless s' hq.right)

theorem IsTree.above {fs : InMemoryFileSystem} (h : IsTree fs) {p r : List Text}
    (hp : AreSegments (p ++ r)) (hthere : fs.kindAt (render (p ++ r)) ≠ none) :
    fs.kindAt (render p) ≠ none := by
  induction r using List.reverseRecOn with
  | nil => simpa using hthere
  | append_singleton r s ih =>
      rw [← List.append_assoc] at hp hthere
      refine ih hp.left ?_
      rw [h.parents (p ++ r) s hp hthere]
      exact nofun

/-! ## The operations -/

section
variable {fs : InMemoryFileSystem}

theorem exists_parent {p : List Text} (hne : p ≠ []) : ∃ q s, p = q ++ [s] :=
  ⟨p.dropLast, p.getLast hne, (List.dropLast_append_getLast hne).symm⟩

theorem IsTree.parent_of_absent (h : IsTree fs) {p : List Text}
    (habsent : fs.nodes.lookup (render p) = none) : ∃ q s, p = q ++ [s] := by
  refine exists_parent ?_
  rintro rfl
  have hroot := h.root.symm.trans (kindAt_eq_none.2 habsent)
  exact nomatch hroot

theorem change_emplace (now : FileDateTime) {p : List Text} {s : Text} (isDirectory : Bool)
    (hp : AreSegments (p ++ [s])) (habsent : fs.nodes.lookup (render (p ++ [s])) = none)
    (hparent : fs.parentIsDirectory (render (p ++ [s])) = true) :
    TreeChange fs (fs.emplace now (render (p ++ [s])) isDirectory) :=
  .added p s isDirectory hp (kindAt_eq_none.2 habsent) ((parentIsDirectory_iff hp).1 hparent)
    fun path => by
      rw [emplace, kindAt_touchDirectory, kindAt_insert]
      rfl

theorem change_eraseNode (now : FileDateTime) {p : List Text} {s : Text}
    (hp : AreSegments (p ++ [s])) (hpresent : fs.kindAt (render (p ++ [s])) ≠ none)
    (hchildless : ∀ s', AreSegments [s'] →
      fs.kindAt (render (p ++ [s] ++ [s'])) = none) :
    TreeChange fs (fs.eraseNode now (render (p ++ [s]))) :=
  .removed p s hp hpresent hchildless fun path => by
    rw [eraseNode, kindAt_touchDirectory, kindAt_erase]

theorem change_localOpenFile (h : IsTree fs) (now : FileDateTime) (pathname : Text)
    (flags : OpenFlags) : TreeChange fs (fs.localOpenFile now pathname flags).2 := by
  have hsegments := virtualSegments_areSegments pathname ['/']
  unfold localOpenFile normalizeVirtualPath
  simp only
  split
  · rename_i node hnode
    split_ifs
    · exact .same fun _ => rfl
    · exact .same fun path => kindAt_insert_same hnode (by rfl) path
    · exact .same fun _ => rfl
  · rename_i habsent
    obtain ⟨p, s, hp⟩ := h.parent_of_absent habsent
    rw [hp] at hsegments habsent ⊢
    split_ifs with hcreate hparent
    · exact .same fun _ => rfl
    · exact .same fun _ => rfl
    · exact change_emplace now false hsegments habsent (by simpa using hparent)

theorem change_localCreateDirectory (h : IsTree fs) (now : FileDateTime) (pathname : Text) :
    TreeChange fs (fs.localCreateDirectory now pathname).2 := by
  have hsegments := virtualSegments_areSegments pathname ['/']
  unfold localCreateDirectory normalizeVirtualPath
  simp only
  split_ifs with hpresent hparent
  · exact .same fun _ => rfl
  · exact .same fun _ => rfl
  · have habsent : fs.nodes.lookup (render (virtualSegments pathname ['/'])) = none := by
      simpa using hpresent
    obtain ⟨p, s, hp⟩ := h.parent_of_absent habsent
    rw [hp] at hsegments habsent hparent ⊢
    exact change_emplace now true hsegments habsent (by simpa using hparent)

theorem childless_of_no_prefix {p : List Text} (hp : AreSegments p) (hne : p ≠ [])
    (hnone : ¬ (fs.nodes.keys.any fun path => startsWith path (render p ++ ['/'])) = true)
    {s' : Text} (hs' : AreSegments [s']) : fs.kindAt (render (p ++ [s'])) = none := by
  by_contra hsome
  refine hnone (List.any_eq_true.2 ⟨render (p ++ [s']), ?_, ?_⟩)
  · rw [← AList.mem_keys, ← AList.lookup_isSome, Option.isSome_iff_ne_none]
    exact mt kindAt_eq_none.2 hsome
  · exact (startsWith_slash_iff (hp.append hs') hp hne).2
      ⟨List.prefix_append p _, by simp⟩

theorem change_localRemoveDirectory (now : FileDateTime) (pathname : Text) :
    TreeChange fs (fs.localRemoveDirectory now pathname).2 := by
  have hsegments := virtualSegments_areSegments pathname ['/']
  unfold localRemoveDirectory normalizeVirtualPath
  simp only
  split
  · exact .same fun _ => rfl
  · rename_i node hnode
    split_ifs with hroot hchildren
    · exact .same fun _ => rfl
    · exact .same fun _ => rfl
    · have hne : virtualSegments pathname ['/'] ≠ [] := by
        intro hnil
        simp [hnil] at hroot
      have hchildless := fun s' (hs' : AreSegments [s']) =>
        childless_of_no_prefix hsegments hne hchildren hs'
      obtain ⟨p, s, hp⟩ := exists_parent hne
      rw [hp] at hsegments hnode hchildless ⊢
      exact change_eraseNode now hsegments (by simp [kindAt_of_lookup hnode]) hchildless

theorem change_localRemoveFile (h : IsTree fs) (now : FileDateTime) (pathname : Text) :
    TreeChange fs (fs.localRemoveFile now pathname).2 := by
  have hsegments := virtualSegments_areSegments pathname ['/']
  unfold localRemoveFile normalizeVirtualPath
  simp only
  split
  · exact .same fun _ => rfl
  · rename_i node hnode
    split_ifs with hdirectory
    · exact .same fun _ => rfl
    · have hkind := kindAt_of_lookup hnode
      have hne : virtualSegments pathname ['/'] ≠ [] := by
        intro hnil
        rw [hnil, render_nil, h.root] at hkind
        simp [← Option.some.inj hkind] at hdirectory
      obtain ⟨p, s, hp⟩ := exists_parent hne
      rw [hp] at hsegments hkind ⊢
      refine change_eraseNode now hsegments (by simp [hkind]) fun s' hs' => ?_
      -- a file is nobody's parent
      by_contra hchild
      have hparent := h.parents (p ++ [s]) s' (hsegments.append hs') hchild
      rw [hkind] at hparent
      exact hdirectory (Option.some.inj hparent)

theorem change_readAt (now : FileDateTime) (path : Text) (position count : Nat) :
    TreeChange fs (fs.readAt now path position count).2.2.2 := by
  unfold readAt
  split
  · exact .same fun _ => rfl
  · rename_i node hnode
    split_ifs
    · exact .same fun _ => rfl
    · exact .same fun other => kindAt_insert_same hnode (by rfl) other

theorem change_writeAt (now : FileDateTime) (path : Text) (position : Nat) (append : Bool)
    (buf : List UInt8) : TreeChange fs (fs.writeAt now path position append buf).2.2 := by
  unfold writeAt
  split
  · exact .same fun _ => rfl
  · rename_i node hnode
    simp only
    split_ifs
    · exact .same fun _ => rfl
    · exact .same fun other => kindAt_insert_same hnode (by rfl) other
    · exact .same fun _ => rfl
    · exact .same fun other => kindAt_insert_same hnode (by rfl) other

theorem change_read (d : InMemoryFileDescriptor) (now : FileDateTime) (count : Nat) :
    TreeChange fs (d.read fs now count).2.2.2 := by
  unfold InMemoryFileDescriptor.read
  split_ifs
  · exact .same fun _ => rfl
  · exact change_readAt now d.path d.position count

theorem change_write (d : InMemoryFileDescriptor) (now : FileDateTime) (buf : List UInt8) :
    TreeChange fs (d.write fs now buf).2.2 := by
  unfold InMemoryFileDescriptor.write
  split_ifs
  · exact .same fun _ => rfl
  · exact change_writeAt now d.path d.position d.append buf

end

end Haisos.Filesystem
