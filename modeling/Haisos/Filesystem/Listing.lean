import Haisos.Filesystem.Session

/-!
# What a listing holds under one name

A listing is put together from entries, segments and builtins, each added only if
its name is not listed yet.  What it holds under one name is read off here, source
by source.
-/

namespace Haisos.Filesystem

open Hsh (Text text)

/-- The entries of a listing with this name. -/
def named (name : Text) (entries : List DirectoryEntry) : List DirectoryEntry :=
  entries.filter fun entry => entry.name = name

def ListedOnce (entries : List DirectoryEntry) (name : Text) (type : EntryType) : Prop :=
  named name entries = [⟨name, type⟩]

theorem named_append (name : Text) (entries more : List DirectoryEntry) :
    named name (entries ++ more) = named name entries ++ named name more :=
  List.filter_append _ _

theorem any_name_iff {name : Text} {entries : List DirectoryEntry} :
    (entries.any fun entry => entry.name = name) = true ↔ named name entries ≠ [] := by
  rw [named, Ne, List.filter_eq_nil_iff, List.any_eq_true]
  simp

theorem named_singleton_self (name : Text) (type : EntryType) :
    named name [⟨name, type⟩] = [⟨name, type⟩] := by
  simp [named]

theorem named_singleton_of_ne {name other : Text} (h : other ≠ name) (type : EntryType) :
    named name [⟨other, type⟩] = [] := by
  simp [named, h]

namespace MountableFileSystem

theorem named_addSegments (name : Text) (segments : List Text)
    (entries : List DirectoryEntry) :
    named name (addSegments segments entries) =
      if named name entries ≠ [] then named name entries
      else if name ∈ segments then [⟨name, .dir⟩] else [] := by
  induction segments generalizing entries with
  | nil => simp [addSegments]
  | cons segment rest ih =>
      rw [addSegments]
      by_cases hname : segment = name
      · subst hname
        by_cases hany : named segment entries = []
        · rw [if_neg (mt any_name_iff.1 (not_not.2 hany)), ih, named_append, hany,
            named_singleton_self]
          simp
        · rw [if_pos (any_name_iff.2 hany), ih, if_pos hany, if_pos hany]
      · have hmem : name ∈ segment :: rest ↔ name ∈ rest := by simp [Ne.symm hname]
        simp only [hmem]
        by_cases hany : (entries.any fun entry => entry.name = segment) = true
        · rw [if_pos hany, ih]
        · rw [if_neg hany, ih, named_append, named_singleton_of_ne hname, List.append_nil]

theorem named_addOwnBuiltinEntries (name absolute : Text) (paths : List Text)
    (entries : List DirectoryEntry) :
    named name (addOwnBuiltinEntries absolute paths entries) =
      if named name entries ≠ [] then named name entries
      else if ∃ path ∈ paths, virtualParentOf path = absolute ∧
        virtualLastSegment path = name then [⟨name, .file⟩] else [] := by
  induction paths generalizing entries with
  | nil => simp [addOwnBuiltinEntries]
  | cons path rest ih =>
      rw [addOwnBuiltinEntries]
      by_cases hhere : virtualParentOf path = absolute ∧ virtualLastSegment path = name
      · obtain ⟨hparent, rfl⟩ := hhere
        rw [if_neg (not_not.2 hparent)]
        by_cases hany : named (virtualLastSegment path) entries = []
        · rw [if_neg (mt any_name_iff.1 (not_not.2 hany)), ih, named_append, hany,
            named_singleton_self]
          simp [hparent]
        · rw [if_pos (any_name_iff.2 hany), ih, if_pos hany, if_pos hany]
      · have hmem : (∃ other ∈ path :: rest, virtualParentOf other = absolute ∧
            virtualLastSegment other = name) ↔
            ∃ other ∈ rest, virtualParentOf other = absolute ∧
              virtualLastSegment other = name := by
          simp [hhere]
        simp only [hmem]
        by_cases hparent : virtualParentOf path = absolute
        · have hname : virtualLastSegment path ≠ name := fun h => hhere ⟨hparent, h⟩
          rw [if_neg (not_not.2 hparent)]
          by_cases hany : (entries.any fun entry =>
              entry.name = virtualLastSegment path) = true
          · rw [if_pos hany, ih]
          · rw [if_neg hany, ih, named_append, named_singleton_of_ne hname, List.append_nil]
        · rw [if_pos hparent, ih]

theorem isDotEntry_iff {entry : DirectoryEntry} :
    isDotEntry entry = true ↔ entry.name = ['.'] ∨ entry.name = ['.', '.'] := by
  simp [isDotEntry]

section
variable {σ ω δ δ' : Type*}

theorem named_putDotEntriesFirst (self : LocalOperations σ δ)
    (fs : MountableFileSystem σ ω δ') (path : Text) (world : ω) {name : Text}
    (hname : IsSegment name) (entries : List DirectoryEntry) :
    named name (fs.putDotEntriesFirst self path world entries) = named name entries := by
  have hothers : named name (entries.filter fun entry => !isDotEntry entry) =
      named name entries := by
    rw [named, named, List.filter_filter]
    refine List.filter_congr fun entry _ => ?_
    by_cases hsame : entry.name = name
    · have hnot : isDotEntry entry = false := by
        rw [← Bool.not_eq_true, isDotEntry_iff, hsame]
        exact not_or.2 ⟨hname.ne_dot, hname.ne_dotDot⟩
      simp [hsame, hnot]
    · simp [hsame]
  unfold putDotEntriesFirst
  simp only
  split_ifs
  · exact hothers
  · have hdot : named name [⟨['.'], .dir⟩, ⟨['.', '.'], .dir⟩] = [] := by
      simp [named, hname.ne_dot.symm, hname.ne_dotDot.symm]
    rw [← hothers]
    exact (named_append name [⟨['.'], .dir⟩, ⟨['.', '.'], .dir⟩] _).trans (by rw [hdot]; rfl)

theorem named_readDirectory (self : LocalOperations σ δ) (fs : MountableFileSystem σ ω δ')
    (path : Text) (world : ω) {name : Text} (hname : IsSegment name) :
    named name (fs.readDirectory self path world) =
      if named name (fs.servedEntries self path world) ≠ [] then
        named name (fs.servedEntries self path world)
      else if ∃ builtin ∈ fs.builtins.keys,
        virtualParentOf builtin = self.absolutePathFor path ∧
          virtualLastSegment builtin = name then [⟨name, .file⟩] else [] := by
  rw [readDirectory, named_putDotEntriesFirst self fs path world hname,
    named_addOwnBuiltinEntries]

end

end MountableFileSystem

/-! ## The entries of the in-memory tree -/

theorem filterMap_key {α : Type*} {β : Type*} {γ : Type*} [DecidableEq α]
    {l : List (Sigma fun _ : α => β)} (h : l.NodupKeys) (k : α) (g : β → γ) :
    (l.filterMap fun e => if e.1 = k then some (g e.2) else none) =
      ((l.dlookup k).map g).toList := by
  induction l with
  | nil => rfl
  | cons e l ih =>
      obtain ⟨a, b⟩ := e
      have hrest := ih (List.nodupKeys_cons.1 h).2
      by_cases hk : a = k
      · subst hk
        have hnone : l.dlookup a = none := List.dlookup_eq_none.2 (List.nodupKeys_cons.1 h).1
        rw [hnone] at hrest
        simp [hrest]
      · have hskip : List.dlookup k (⟨a, b⟩ :: l) = l.dlookup k :=
          List.dlookup_cons_ne l ⟨a, b⟩ (Ne.symm hk)
        simp [hk, hrest, hskip]

open InMemoryFileSystem

theorem entryIn_render {d q : List Text} (hd : AreSegments d) (hq : AreSegments q)
    {name : Text} (hname : IsSegment name) (node : Node) :
    (entryIn (render d) ⟨render q, node⟩).filter (fun entry => entry.name = name) =
      if render q = render (d ++ [name]) then some ⟨name, node.type⟩ else none := by
  have hchild : AreSegments (d ++ [name]) :=
    hd.append fun s hs => by rwa [List.mem_singleton.1 hs]
  simp only [render_inj hq hchild]
  rcases eq_or_ne q [] with rfl | hne
  · have hroot : entryIn (render d) ⟨render [], node⟩ = none := by
      by_cases hself : ['/'] = render d <;> simp [entryIn, hself]
    rw [hroot]
    simp
  · obtain ⟨p, s, rfl⟩ := exists_parent hne
    have hs := hq s (by simp)
    have hself : render (p ++ [s]) = render d ↔ p ++ [s] = d := render_inj hq hd
    have hparent : parentOf (render (p ++ [s])) = render d ↔ p = d := by
      rw [parentOf, virtualParentOf_append hq.left hs, render_inj hq.left hd]
    have hlast : lastSegment (render (p ++ [s])) = s := virtualLastSegment_append p hs
    unfold entryIn
    simp only [hself, hparent, hlast]
    by_cases hpd : p = d
    · subst hpd
      by_cases hsn : s = name
      · subst hsn
        simp [Option.filter]
      · simp [Option.filter, hsn]
    · have hne' : ¬ p ++ [s] = d ++ [name] := fun h => hpd (List.append_inj' h rfl).1
      by_cases hd' : p ++ [s] = d <;> simp [Option.filter, hpd, hne', hd']

theorem named_localReadDirectory {fs : InMemoryFileSystem} (h : IsTree fs) (path : Text)
    {name : Text} (hname : IsSegment name) :
    named name (fs.localReadDirectory path) =
      ((fs.kindAt (render (virtualSegments path ['/'] ++ [name]))).map fun isDirectory =>
        (⟨name, if isDirectory then .dir else .file⟩ : DirectoryEntry)).toList := by
  have hd := virtualSegments_areSegments path ['/']
  generalize hpath : virtualSegments path ['/'] = d at hd ⊢
  have hchild : AreSegments (d ++ [name]) :=
    hd.append fun s hs => by rwa [List.mem_singleton.1 hs]
  have hnone : fs.kindAt (render d) ≠ some true →
      fs.kindAt (render (d ++ [name])) = none := by
    intro hnot
    by_contra hsome
    exact hnot (h.parents d name hchild hsome)
  unfold localReadDirectory normalizeVirtualPath
  simp only [hpath]
  split
  · rename_i habsent
    rw [hpath] at habsent
    rw [hnone (by simp [kindAt, habsent])]
    rfl
  · rename_i node hnode
    rw [hpath] at hnode
    split_ifs with hkind
    · rw [hnone (by simpa [kindAt, hnode] using hkind)]
      rfl
    · have hentry : ∀ e ∈ fs.nodes.entries,
          (entryIn (render d) e).filter (fun entry => entry.name = name) =
            if e.1 = render (d ++ [name]) then
              some (⟨name, e.2.type⟩ : DirectoryEntry) else none := by
        rintro ⟨p, node⟩ hin
        have hlookup : fs.nodes.lookup p = some node := AList.mem_lookup_iff.2 hin
        obtain ⟨q, hq, rfl⟩ := h.normalized p (by simp [kindAt, hlookup])
        exact entryIn_render hd hq hname node
      have hkey := filterMap_key fs.nodes.nodupKeys (render (d ++ [name]))
        fun node : Node => (⟨name, node.type⟩ : DirectoryEntry)
      rw [named, List.filter_filterMap, List.filterMap_congr hentry, hkey, kindAt,
        Option.map_map]
      rfl

end Haisos.Filesystem
