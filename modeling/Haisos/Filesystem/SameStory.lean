import Haisos.Filesystem.WayDown

/-!
# Listing and `Stat`

When the two tell the same story about every directory.  A directory's story is told
name by name: what the listing holds under a name is what `Stat` says of the entry.
-/

namespace Haisos.Filesystem

open Hsh (Text text)
open InMemoryFileSystem (kindAt)

variable {ω δ' : Type*}

/-- The listing of a path that is there with this type, and no listing else. -/
def entryOf (name : Text) (type : Option EntryType) : List DirectoryEntry :=
  (type.map fun type => (⟨name, type⟩ : DirectoryEntry)).toList

/-- What `Stat` and `ReadDirectory` say agrees on every directory. -/
structure SameStory (typeOf : Text → Option EntryType)
    (listing : Text → List DirectoryEntry) : Prop where
  distinct : ∀ d, typeOf d = some .dir →
    (((listing d).filter fun e => !MountableFileSystem.isDotEntry e).map (·.name)).Nodup
  listed : ∀ d, typeOf d = some .dir → ∀ e ∈ listing d,
    MountableFileSystem.isDotEntry e = false →
      typeOf (d ++ '/' :: e.name) = some e.type
  complete : ∀ p d name, virtualSegments p ['/'] = virtualSegments d ['/'] ++ [name] →
    typeOf d = some .dir → typeOf p ≠ none → ∃ e ∈ listing d, e.name = name

/-- What is asked of a mounted filesystem: a root, proper names, and the same story. -/
structure MountedStory (filesystem : Operations ω δ') (world : ω) : Prop where
  root : (filesystem.stat ['/'] world).map (·.type) = some .dir
  names : ∀ r, AreSegments r →
    (filesystem.stat (render r) world).map (·.type) = some .dir →
    ∀ e ∈ filesystem.readDirectory (render r) world,
      MountableFileSystem.isDotEntry e = true ∨ IsSegment e.name
  story : ∀ r, AreSegments r →
    (filesystem.stat (render r) world).map (·.type) = some .dir →
    ∀ name, IsSegment name →
      named name (filesystem.readDirectory (render r) world) =
        entryOf name ((filesystem.stat (render (r ++ [name])) world).map (·.type))

/-- No mount point lies under another one. -/
def NotNested (mounts : List (MountEntry (Operations ω δ'))) : Prop :=
  ∀ a ∈ mounts, ∀ b ∈ mounts, MountPoints.isAtOrUnder a.path b.path = true → a.path = b.path

/--
No builtin lies on an entry of another type, and no mount point without one on a plain
file of the tree.
-/
def NoneHidden (fs : MemoryFileSystem ω δ') (world : ω) : Prop :=
  ∀ d name, IsSegment name → fs.entryTypeOf inMemory d world = some .dir →
    match fs.builtins.lookup (render (virtualSegments d ['/'] ++ [name])) with
    | some _ => ∀ e ∈ fs.servedEntries inMemory d world, e.name = name → e.type = .file
    | none =>
        (∃ entry ∈ fs.mounts, entry.path = render (virtualSegments d ['/'] ++ [name])) →
          fs.content.kindAt (render (virtualSegments d ['/'] ++ [name])) ≠ some false

/-! ## A story told name by name -/

theorem mem_named {name : Text} {entries : List DirectoryEntry} {e : DirectoryEntry} :
    e ∈ named name entries ↔ e ∈ entries ∧ e.name = name := by
  simp [named]

theorem named_eq_entryOf_iff {name : Text} {entries : List DirectoryEntry}
    {type : Option EntryType} :
    named name entries = entryOf name type ↔
      ((named name entries).length ≤ 1 ∧
        (∀ e ∈ entries, e.name = name → type = some e.type) ∧
        (type ≠ none → ∃ e ∈ entries, e.name = name)) := by
  constructor
  · intro h
    refine ⟨?_, fun e hin hname => ?_, fun htype => ?_⟩
    · rw [h]
      cases type <;> simp [entryOf]
    · have he : e ∈ entryOf name type := h ▸ mem_named.2 ⟨hin, hname⟩
      cases type with
      | none => simp [entryOf] at he
      | some type =>
          have hsame : e = ⟨name, type⟩ := by simpa [entryOf] using he
          rw [hsame]
    · obtain ⟨type, rfl⟩ := Option.ne_none_iff_exists'.1 htype
      have he : (⟨name, type⟩ : DirectoryEntry) ∈ named name entries := by
        rw [h]
        simp [entryOf]
      exact ⟨_, (mem_named.1 he).1, rfl⟩
  · rintro ⟨hone, htypes, hthere⟩
    cases hnamed : named name entries with
    | nil =>
        cases type with
        | none => rfl
        | some type =>
            obtain ⟨e, hin, hname⟩ := hthere nofun
            have he := mem_named.2 ⟨hin, hname⟩
            rw [hnamed] at he
            exact nomatch he
    | cons e rest =>
        have he : e ∈ named name entries := hnamed ▸ List.mem_cons_self
        obtain ⟨hin, hname⟩ := mem_named.1 he
        have hrest : rest = [] := by
          rw [hnamed] at hone
          exact List.eq_nil_of_length_eq_zero (by simpa using hone)
        rw [htypes e hin hname, hrest]
        simp [entryOf, ← hname]

theorem nodup_names_iff {entries : List DirectoryEntry} :
    (entries.map (·.name)).Nodup ↔ ∀ name, (named name entries).length ≤ 1 := by
  rw [List.nodup_iff_count_le_one]
  refine forall_congr' fun name => ?_
  have hsame : (fun e : DirectoryEntry => e.name == name) = fun e => decide (e.name = name) :=
    funext fun e => beq_eq_decide _ _
  rw [List.count, List.countP_map, List.countP_eq_length_filter, named, Function.comp_def, hsame]

theorem named_filter_not_dot {name : Text} (hname : IsSegment name)
    (entries : List DirectoryEntry) :
    named name (entries.filter fun e => !MountableFileSystem.isDotEntry e) =
      named name entries := by
  rw [named, named, List.filter_filter]
  refine List.filter_congr fun e _ => ?_
  by_cases hsame : e.name = name
  · have hnot : MountableFileSystem.isDotEntry e = false := by
      rw [← Bool.not_eq_true, MountableFileSystem.isDotEntry_iff, hsame]
      exact not_or.2 ⟨hname.ne_dot, hname.ne_dotDot⟩
    simp [hsame, hnot]
  · simp [hsame]

theorem sameStory_iff {typeOf : Text → Option EntryType}
    {listing : Text → List DirectoryEntry}
    (hcongr : ∀ p q, virtualSegments p ['/'] = virtualSegments q ['/'] → typeOf p = typeOf q)
    (hnames : ∀ d, typeOf d = some .dir → ∀ e ∈ listing d,
      MountableFileSystem.isDotEntry e = true ∨ IsSegment e.name) :
    SameStory typeOf listing ↔
      ∀ d, typeOf d = some .dir → ∀ name, IsSegment name →
        named name (listing d) = entryOf name (typeOf (d ++ '/' :: name)) := by
  constructor
  · intro h d hd name hname
    refine named_eq_entryOf_iff.2 ⟨?_, fun e hin hsame => ?_, fun hthere => ?_⟩
    · rw [← named_filter_not_dot hname]
      exact nodup_names_iff.1 (h.distinct d hd) name
    · rw [← hsame]
      refine h.listed d hd e hin ?_
      rw [← Bool.not_eq_true, MountableFileSystem.isDotEntry_iff, hsame]
      exact not_or.2 ⟨hname.ne_dot, hname.ne_dotDot⟩
    · exact h.complete _ d name (virtualSegments_entry d hname) hd hthere
  · intro h
    refine ⟨fun d hd => nodup_names_iff.2 fun name => ?_, fun d hd e hin hdot => ?_,
      fun p d name hp hd hthere => ?_⟩
    · by_cases hname : IsSegment name
      · rw [named_filter_not_dot hname]
        exact (named_eq_entryOf_iff.1 (h d hd name hname)).1
      · have hnone : named name
            ((listing d).filter fun e => !MountableFileSystem.isDotEntry e) = [] := by
          rw [List.eq_nil_iff_forall_not_mem]
          intro e he
          obtain ⟨hin, rfl⟩ := mem_named.1 he
          obtain ⟨hin, hnot⟩ := List.mem_filter.1 hin
          rcases hnames d hd e hin with hdot | hproper
          · simp [hdot] at hnot
          · exact hname hproper
        rw [hnone]
        exact Nat.zero_le 1
    · rcases hnames d hd e hin with htrue | hproper
      · rw [hdot] at htrue
        exact nomatch htrue
      · exact (named_eq_entryOf_iff.1 (h d hd e.name hproper)).2.1 e hin rfl
    · have hsegments := virtualSegments_areSegments p ['/']
      rw [hp] at hsegments
      have hname : IsSegment name := hsegments name (by simp)
      rw [hcongr p (d ++ '/' :: name) (hp.trans (virtualSegments_entry d hname).symm)] at hthere
      exact (named_eq_entryOf_iff.1 (h d hd name hname)).2.2 hthere

/-! ## The story of one name -/

namespace MountableFileSystem

variable {fs : MemoryFileSystem ω δ'} {world : ω}

theorem entryTypeOf_congr (fs : MemoryFileSystem ω δ') (world : ω) (p q : Text)
    (h : virtualSegments p ['/'] = virtualSegments q ['/']) :
    fs.entryTypeOf inMemory p world = fs.entryTypeOf inMemory q world := by
  rw [entryTypeOf_eq, entryTypeOf_eq, h]

theorem builtin_child_iff (h : WellFormed fs) {d : List Text} (hd : AreSegments d)
    {name : Text} (hname : IsSegment name) :
    (∃ path ∈ fs.builtins.keys, virtualParentOf path = render d ∧
      virtualLastSegment path = name) ↔
    (fs.builtins.lookup (render (d ++ [name]))).isSome = true := by
  have hchild : AreSegments (d ++ [name]) :=
    hd.append fun s hs => by rwa [List.mem_singleton.1 hs]
  constructor
  · rintro ⟨path, hin, hparent, hlast⟩
    obtain ⟨q, hne, hq, rfl⟩ := h.builtins path (AList.mem_keys.2 hin)
    obtain ⟨p, s, rfl⟩ := exists_parent hne
    rw [virtualParentOf_append hq.left (hq s (by simp)), render_inj hq.left hd] at hparent
    rw [virtualLastSegment_append p (hq s (by simp))] at hlast
    rw [← hparent, ← hlast, AList.lookup_isSome]
    exact AList.mem_keys.2 hin
  · intro hsome
    refine ⟨render (d ++ [name]), AList.mem_keys.1 (AList.lookup_isSome.1 hsome), ?_, ?_⟩
    · exact virtualParentOf_append hd hname
    · exact virtualLastSegment_append d hname

/-- A path no mount serves whose child one does: the child is a mount point. -/
theorem resolve_child {mounts : List (MountEntry (Operations ω δ'))}
    (hordered : MountPoints.Ordered mounts) {d : List Text} {name : Text}
    (hchild : AreSegments (d ++ [name]))
    (hroute : MountPoints.resolve mounts (render d) = none) {route : Route (Operations ω δ')}
    (hserved : MountPoints.resolve mounts (render (d ++ [name])) = some route) :
    ∃ entry ∈ mounts, entry.path = render (d ++ [name]) ∧
      route = ⟨entry.filesystem, ['/']⟩ := by
  obtain ⟨entry, hin, m, r, hm, hr, hpath, hsame, rfl⟩ :=
    MountPoints.resolve_eq_some hchild hordered hserved
  have hunserved := (MountPoints.resolve_eq_none_iff hchild.left hordered).1 hroute
    entry hin m hm hpath
  have hle : m <+: d ++ [name] := hsame ▸ List.prefix_append m r
  rcases List.prefix_concat_iff.1 hle with hfull | hshort
  · have hnil : r = [] := by simpa [hfull] using hsame
    exact ⟨entry, hin, by rw [hpath, hfull], by rw [hnil, render_nil]⟩
  · exact absurd hshort hunserved

theorem resolve_served_child {mounts : List (MountEntry (Operations ω δ'))}
    (hordered : MountPoints.Ordered mounts) (hnested : NotNested mounts)
    {d : List Text} {name : Text} (hchild : AreSegments (d ++ [name]))
    {route : Route (Operations ω δ')}
    (hroute : MountPoints.resolve mounts (render d) = some route) :
    ∃ entry ∈ mounts, ∃ r, AreSegments r ∧ route = ⟨entry.filesystem, render r⟩ ∧
      MountPoints.resolve mounts (render (d ++ [name])) =
        some ⟨entry.filesystem, render (r ++ [name])⟩ := by
  obtain ⟨entry, hin, m, r, hm, hr, hpath, rfl, rfl⟩ :=
    MountPoints.resolve_eq_some hchild.left hordered hroute
  refine ⟨entry, hin, r, hr, rfl, ?_⟩
  have hserved : MountPoints.resolve mounts (render (m ++ r ++ [name])) ≠ none := by
    intro hnone
    exact (MountPoints.resolve_eq_none_iff hchild hordered).1 hnone entry hin m hm hpath
      ((List.prefix_append m r).trans (List.prefix_append _ _))
  obtain ⟨route', hroute'⟩ := Option.ne_none_iff_exists'.1 hserved
  obtain ⟨entry', hin', m', r', hm', hr', hpath', hsame, rfl⟩ :=
    MountPoints.resolve_eq_some hchild hordered hroute'
  -- the two mount points are both on the way to the child, so one is under the other
  have hentry : entry' = entry := by
    have hm1 : m <+: m ++ r ++ [name] :=
      (List.prefix_append m r).trans (List.prefix_append _ _)
    have hm2 : m' <+: m ++ r ++ [name] := hsame ▸ List.prefix_append m' r'
    refine hordered.eq_of_path_eq hin' hin ?_
    rcases List.prefix_or_prefix_of_prefix hm1 hm2 with hle | hle
    · refine hnested entry' hin' entry hin ?_
      rw [hpath, hpath']
      exact (MountPoints.isAtOrUnder_iff hm' hm).2 hle
    · refine (hnested entry hin entry' hin' ?_).symm
      rw [hpath, hpath']
      exact (MountPoints.isAtOrUnder_iff hm hm').2 hle
  subst hentry
  have hsamePath : m' = m := (render_inj hm' hm).1 (hpath'.symm.trans hpath)
  subst hsamePath
  have hrest : r ++ [name] = r' := by
    rw [List.append_assoc] at hsame
    exact List.append_cancel_left hsame
  rw [hroute', hrest]

theorem entryOf_ne_nil {name : Text} {type : Option EntryType} :
    entryOf name type ≠ [] ↔ type ≠ none := by
  cases type <;> simp [entryOf]

theorem entryOf_inj {name : Text} {a b : Option EntryType} :
    entryOf name a = entryOf name b ↔ a = b := by
  cases a <;> cases b <;> simp [entryOf]

/-- A mount point lies under the child exactly where the listing shows the child for it. -/
theorem latestMountTimeBelow_child {mounts : List (MountEntry (Operations ω δ'))}
    (hordered : MountPoints.Ordered mounts) {d : List Text} {name : Text}
    (hd : AreSegments d) (hchild : AreSegments (d ++ [name]))
    (hroute : MountPoints.resolve mounts (render (d ++ [name])) = none) :
    (MountPoints.latestMountTimeBelow mounts (render (d ++ [name]))).isSome = true ↔
      name ∈ MountPoints.childSegments mounts (render d) := by
  rw [MountPoints.latestMountTimeBelow_isSome hordered hchild,
    MountPoints.mem_childSegments hordered hd]
  constructor
  · rintro ⟨entry, hin, seg, rest, hm, hpath⟩
    rw [List.append_assoc] at hm hpath
    exact ⟨entry, hin, seg :: rest, hm, hpath⟩
  · rintro ⟨entry, hin, rest, hm, hpath⟩
    cases rest with
    | nil =>
        exact absurd List.prefix_rfl
          ((MountPoints.resolve_eq_none_iff hchild hordered).1 hroute entry hin _ hchild hpath)
    | cons seg rest => exact ⟨entry, hin, seg, rest, by simpa using hm, by simpa using hpath⟩

/-- A mount point in a mounted directory would lie under the one that serves it. -/
theorem no_mountPoint_served {mounts : List (MountEntry (Operations ω δ'))}
    (hordered : MountPoints.Ordered mounts) (hnested : NotNested mounts)
    {d : List Text} {name : Text} (hd : AreSegments d) (hchild : AreSegments (d ++ [name]))
    {route : Route (Operations ω δ')}
    (hroute : MountPoints.resolve mounts (render d) = some route) :
    ¬ ∃ other ∈ mounts, other.path = render (d ++ [name]) := by
  rintro ⟨other, hother, hpath⟩
  obtain ⟨entry, hin, m, r, hm, -, hentry, hsame, -⟩ :=
    MountPoints.resolve_eq_some hd hordered hroute
  have hunder : other.path = entry.path := by
    refine hnested other hother entry hin ?_
    rw [hpath, hentry, MountPoints.isAtOrUnder_iff hchild hm, hsame, List.append_assoc]
    exact List.prefix_append m _
  rw [hpath, hentry, render_inj hchild hm, hsame] at hunder
  have hlength := congrArg List.length hunder
  simp at hlength

section
variable {d name : Text}

/-- Stat of an entry of the own tree says its kind, unless a mount point stands there. -/
theorem entryTypeOf_present_iff (h : WellFormed fs)
    (hmounted : ∀ entry ∈ fs.mounts, MountedStory entry.filesystem world) (hname : IsSegment name)
    (hroute : fs.resolve (render (virtualSegments d ['/'])) = none)
    (hbuiltin : fs.builtins.lookup (render (virtualSegments d ['/'] ++ [name])) = none)
    {isDirectory : Bool}
    (hlocal : fs.content.kindAt (render (virtualSegments d ['/'] ++ [name])) = some isDirectory) :
    fs.entryTypeOf inMemory (d ++ '/' :: name) world = some (kindType isDirectory) ↔
      ((∃ entry ∈ fs.mounts, entry.path = render (virtualSegments d ['/'] ++ [name])) →
        isDirectory ≠ false) := by
  have hchild : AreSegments (virtualSegments d ['/'] ++ [name]) :=
    (virtualSegments_areSegments d ['/']).append fun s hs => by rwa [List.mem_singleton.1 hs]
  rw [entryTypeOf_eq, virtualSegments_entry d hname]
  simp only [hbuiltin, hlocal]
  cases hserved : fs.resolve (render (virtualSegments d ['/'] ++ [name])) with
  | none =>
      simp only [true_iff]
      rintro ⟨entry, hin, hpath⟩
      exact absurd List.prefix_rfl
        ((MountPoints.resolve_eq_none_iff hchild h.mounts).1 hserved entry hin _ hchild hpath)
  | some route =>
      obtain ⟨entry, hin, hpath, rfl⟩ := resolve_child h.mounts hchild hroute hserved
      have hthere : ∃ entry ∈ fs.mounts,
          entry.path = render (virtualSegments d ['/'] ++ [name]) := ⟨entry, hin, hpath⟩
      simp only [(hmounted entry hin).root]
      cases isDirectory <;> simp [kindType, hthere]

/-- Stat of a name that the own tree has not: a directory where a mount point is at or under it. -/
theorem entryTypeOf_absent (h : WellFormed fs)
    (hmounted : ∀ entry ∈ fs.mounts, MountedStory entry.filesystem world) (hname : IsSegment name)
    (hroute : fs.resolve (render (virtualSegments d ['/'])) = none)
    (hbuiltin : fs.builtins.lookup (render (virtualSegments d ['/'] ++ [name])) = none)
    (hlocal : fs.content.kindAt (render (virtualSegments d ['/'] ++ [name])) = none) :
    fs.entryTypeOf inMemory (d ++ '/' :: name) world =
      if name ∈ MountPoints.childSegments fs.mounts (render (virtualSegments d ['/']))
        then some .dir else none := by
  have hd := virtualSegments_areSegments d ['/']
  have hchild : AreSegments (virtualSegments d ['/'] ++ [name]) :=
    hd.append fun s hs => by rwa [List.mem_singleton.1 hs]
  rw [entryTypeOf_eq, virtualSegments_entry d hname]
  simp only [hbuiltin, hlocal]
  cases hserved : fs.resolve (render (virtualSegments d ['/'] ++ [name])) with
  | some route =>
      obtain ⟨entry, hin, hpath, rfl⟩ := resolve_child h.mounts hchild hroute hserved
      rw [if_pos ((MountPoints.mem_childSegments h.mounts hd).2 ⟨entry, hin, [], hchild, hpath⟩)]
      exact (hmounted entry hin).root
  | none => exact if_congr (latestMountTimeBelow_child h.mounts hd hchild hserved) rfl rfl

theorem named_served_mounted (h : WellFormed fs) (hnested : NotNested fs.mounts)
    (hmounted : ∀ entry ∈ fs.mounts, MountedStory entry.filesystem world)
    (hdir : fs.entryTypeOf inMemory d world = some .dir) (hname : IsSegment name)
    (hhere : fs.builtins.lookup (render (virtualSegments d ['/'])) = none)
    {route : Route (Operations ω δ')}
    (hroute : fs.resolve (render (virtualSegments d ['/'])) = some route) :
    ∃ beneath, named name (fs.servedEntries inMemory d world) = entryOf name beneath ∧
      (fs.builtins.lookup (render (virtualSegments d ['/'] ++ [name])) = none →
        fs.entryTypeOf inMemory (d ++ '/' :: name) world = beneath) := by
  have hchild : AreSegments (virtualSegments d ['/'] ++ [name]) :=
    (virtualSegments_areSegments d ['/']).append fun s hs => by rwa [List.mem_singleton.1 hs]
  rw [entryTypeOf_eq] at hdir
  simp only [hhere, hroute] at hdir
  obtain ⟨entry, hin, r, hr, rfl, hserved⟩ := resolve_served_child h.mounts hnested hchild hroute
  rw [servedEntries_mounted d world hroute]
  refine ⟨_, (hmounted entry hin).story r hr hdir name hname, fun hbuiltin => ?_⟩
  rw [entryTypeOf_eq, virtualSegments_entry d hname]
  simp only [hbuiltin, resolve, hserved]

theorem named_served_eq (h : WellFormed fs) (hnested : NotNested fs.mounts)
    (hmounted : ∀ entry ∈ fs.mounts, MountedStory entry.filesystem world)
    (hdir : fs.entryTypeOf inMemory d world = some .dir) (hname : IsSegment name) :
    ∃ beneath, named name (fs.servedEntries inMemory d world) = entryOf name beneath ∧
      (fs.builtins.lookup (render (virtualSegments d ['/'] ++ [name])) = none →
        (fs.entryTypeOf inMemory (d ++ '/' :: name) world = beneath ↔
          ((∃ entry ∈ fs.mounts,
              entry.path = render (virtualSegments d ['/'] ++ [name])) →
            fs.content.kindAt (render (virtualSegments d ['/'] ++ [name])) ≠ some false))) := by
  have hd := virtualSegments_areSegments d ['/']
  have hchild : AreSegments (virtualSegments d ['/'] ++ [name]) :=
    hd.append fun s hs => by rwa [List.mem_singleton.1 hs]
  have hhere : fs.builtins.lookup (render (virtualSegments d ['/'])) = none := by
    rw [entryTypeOf_eq] at hdir
    cases hlookup : fs.builtins.lookup (render (virtualSegments d ['/'])) with
    | none => rfl
    | some builtin =>
        rw [hlookup] at hdir
        cases hdir
  cases hroute : fs.resolve (render (virtualSegments d ['/'])) with
  | some route =>
      obtain ⟨beneath, hlisted, hstat⟩ :=
        named_served_mounted h hnested hmounted hdir hname hhere hroute
      refine ⟨beneath, hlisted, fun hbuiltin => iff_of_true (hstat hbuiltin) fun hpoint => ?_⟩
      exact absurd hpoint (no_mountPoint_served h.mounts hnested hd hchild hroute)
  | none =>
      have hlisted := named_servedEntries_own h d world hroute hname
      cases hlocal : fs.content.kindAt (render (virtualSegments d ['/'] ++ [name])) with
      | some isDirectory =>
          rw [hlocal] at hlisted
          refine ⟨some (kindType isDirectory), hlisted, fun hbuiltin => ?_⟩
          simp only [ne_eq, Option.some.injEq]
          exact entryTypeOf_present_iff h hmounted hname hroute hbuiltin hlocal
      | none =>
          rw [hlocal] at hlisted
          refine ⟨_, ?_, fun hbuiltin => iff_of_true
            (entryTypeOf_absent h hmounted hname hroute hbuiltin hlocal) fun _ => by simp⟩
          rw [hlisted]
          split_ifs <;> rfl

end

/-- One name of a directory's story is told right exactly where nothing is hidden. -/
theorem named_story_iff (h : WellFormed fs) (hnested : NotNested fs.mounts)
    (hmounted : ∀ entry ∈ fs.mounts, MountedStory entry.filesystem world)
    {d : Text} (hdir : fs.entryTypeOf inMemory d world = some .dir)
    {name : Text} (hname : IsSegment name) :
    named name (fs.readDirectory inMemory d world) =
        entryOf name (fs.entryTypeOf inMemory (d ++ '/' :: name) world) ↔
      match fs.builtins.lookup (render (virtualSegments d ['/'] ++ [name])) with
      | some _ => ∀ e ∈ fs.servedEntries inMemory d world, e.name = name → e.type = .file
      | none =>
          (∃ entry ∈ fs.mounts, entry.path = render (virtualSegments d ['/'] ++ [name])) →
            fs.content.kindAt (render (virtualSegments d ['/'] ++ [name])) ≠ some false := by
  obtain ⟨beneath, hserved, hstat⟩ := named_served_eq h hnested hmounted hdir hname
  have hbuiltins := builtin_child_iff h (virtualSegments_areSegments d ['/']) hname
  rw [named_readDirectory inMemory fs d world hname]
  change (if _ then _ else if ∃ builtin ∈ fs.builtins.keys, virtualParentOf builtin =
    render (virtualSegments d ['/']) ∧ _ then _ else _) = _ ↔ _
  simp only [hbuiltins, hserved, entryOf_ne_nil]
  cases hlookup : fs.builtins.lookup (render (virtualSegments d ['/'] ++ [name])) with
  | some builtin =>
      have htype : fs.entryTypeOf inMemory (d ++ '/' :: name) world = some .file := by
        rw [entryTypeOf_eq, virtualSegments_entry d hname, hlookup]
      rw [htype]
      cases beneath with
      | none =>
          have hnone := named_eq_entryOf_iff.1 hserved
          simp only [ne_eq, not_true_eq_false, if_false, Option.isSome_some, if_true]
          refine iff_of_true rfl fun e hin hsame => ?_
          exact nomatch hnone.2.1 e hin hsame
      | some type =>
          have hone := named_eq_entryOf_iff.1 hserved
          simp only [ne_eq, reduceCtorEq, not_false_eq_true, if_true, entryOf_inj,
            Option.some.injEq]
          constructor
          · rintro rfl e hin hsame
            exact (Option.some.inj (hone.2.1 e hin hsame)).symm
          · intro hall
            obtain ⟨e, hin, hsame⟩ := hone.2.2 nofun
            rw [← hall e hin hsame]
            exact Option.some.inj (hone.2.1 e hin hsame)
  | none =>
      have hsame : (if beneath ≠ none then entryOf name beneath else
          if (none : Option Builtin).isSome = true then [⟨name, .file⟩] else []) =
          entryOf name beneath := by
        cases beneath <;> rfl
      rw [hsame, entryOf_inj, eq_comm]
      exact hstat hlookup

/-! ## Listings hold proper names -/

theorem mem_addSegments {segments : List Text} {entries : List DirectoryEntry}
    {e : DirectoryEntry} (h : e ∈ addSegments segments entries) :
    e ∈ entries ∨ e.name ∈ segments := by
  induction segments generalizing entries with
  | nil => exact .inl h
  | cons segment rest ih =>
      rw [addSegments] at h
      split_ifs at h
      · exact (ih h).imp_right (List.mem_cons_of_mem _)
      · rcases ih h with hin | hin
        · rcases List.mem_append.1 hin with hold | hnew
          · exact .inl hold
          · rw [List.mem_singleton.1 hnew]
            exact .inr List.mem_cons_self
        · exact .inr (List.mem_cons_of_mem _ hin)

theorem mem_addOwnBuiltinEntries {absolute : Text} {paths : List Text}
    {entries : List DirectoryEntry} {e : DirectoryEntry}
    (h : e ∈ addOwnBuiltinEntries absolute paths entries) :
    e ∈ entries ∨ ∃ path ∈ paths, virtualParentOf path = absolute ∧
      e.name = virtualLastSegment path := by
  induction paths generalizing entries with
  | nil => exact .inl h
  | cons path rest ih =>
      have hlater : ∀ {entries}, e ∈ addOwnBuiltinEntries absolute rest entries →
          e ∈ entries ∨ ∃ other ∈ path :: rest, virtualParentOf other = absolute ∧
            e.name = virtualLastSegment other := by
        intro entries hin
        refine (ih hin).imp_right ?_
        rintro ⟨other, hother, hname⟩
        exact ⟨other, List.mem_cons_of_mem _ hother, hname⟩
      rw [addOwnBuiltinEntries] at h
      split_ifs at h with hparent
      · exact hlater h
      · exact hlater h
      · rcases hlater h with hin | hin
        · rcases List.mem_append.1 hin with hold | hnew
          · exact .inl hold
          · rw [List.mem_singleton.1 hnew]
            exact .inr ⟨path, List.mem_cons_self, not_not.1 hparent, rfl⟩
        · exact .inr hin

theorem mem_putDotEntriesFirst {d : Text} {entries : List DirectoryEntry}
    {e : DirectoryEntry} (h : e ∈ fs.putDotEntriesFirst inMemory d world entries) :
    isDotEntry e = true ∨ e ∈ entries := by
  unfold putDotEntriesFirst at h
  simp only at h
  split_ifs at h
  · exact .inr (List.mem_of_mem_filter h)
  · rcases List.mem_cons.1 h with rfl | h
    · exact .inl rfl
    · rcases List.mem_cons.1 h with rfl | h
      · exact .inl rfl
      · exact .inr (List.mem_of_mem_filter h)

theorem localReadDirectory_names {content : InMemoryFileSystem} (h : IsTree content)
    {d : Text} {e : DirectoryEntry} (hin : e ∈ content.localReadDirectory d) :
    IsSegment e.name := by
  unfold InMemoryFileSystem.localReadDirectory normalizeVirtualPath at hin
  simp only at hin
  split at hin
  · exact nomatch hin
  · split_ifs at hin
    · exact nomatch hin
    · obtain ⟨⟨path, node⟩, hentry, hsome⟩ := List.mem_filterMap.1 hin
      have hlookup : content.nodes.lookup path = some node := AList.mem_lookup_iff.2 hentry
      obtain ⟨q, hq, rfl⟩ := h.normalized path (by simp [kindAt, hlookup])
      unfold InMemoryFileSystem.entryIn at hsome
      split_ifs at hsome with hself hparent
      cases hsome
      have hne : q ≠ [] := by
        rintro rfl
        exact hself hparent
      obtain ⟨p, s, rfl⟩ := exists_parent hne
      have hs := hq s (by simp)
      change IsSegment (virtualLastSegment (render (p ++ [s])))
      rw [virtualLastSegment_append p hs]
      exact hs

theorem readDirectory_names (h : WellFormed fs)
    (hmounted : ∀ entry ∈ fs.mounts, MountedStory entry.filesystem world) {d : Text}
    (hdir : fs.entryTypeOf inMemory d world = some .dir) {e : DirectoryEntry}
    (hin : e ∈ fs.readDirectory inMemory d world) :
    isDotEntry e = true ∨ IsSegment e.name := by
  have hd := virtualSegments_areSegments d ['/']
  rcases mem_putDotEntriesFirst hin with hdot | hin
  · exact .inl hdot
  · rcases mem_addOwnBuiltinEntries hin with hin | ⟨path, hpath, -, hname⟩
    · cases hroute : fs.resolve (render (virtualSegments d ['/'])) with
      | some route =>
          rw [servedEntries_mounted d world hroute] at hin
          rw [entryTypeOf_eq] at hdir
          cases hhere : fs.builtins.lookup (render (virtualSegments d ['/'])) with
          | some builtin =>
              rw [hhere] at hdir
              exact nomatch hdir
          | none =>
              simp only [hhere, hroute] at hdir
              obtain ⟨entry, hentry, m, r, hm, hr, -, -, rfl⟩ :=
                MountPoints.resolve_eq_some hd h.mounts hroute
              exact (hmounted entry hentry).names r hr hdir e hin
      | none =>
          right
          rw [servedEntries_own d world hroute] at hin
          rcases mem_addSegments hin with hlocal | hsegment
          · exact localReadDirectory_names h.tree hlocal
          · obtain ⟨entry, -, rest, hm, -⟩ :=
              (MountPoints.mem_childSegments h.mounts hd).1 hsegment
            exact hm e.name (by simp)
    · right
      obtain ⟨q, hne, hq, rfl⟩ := h.builtins path (AList.mem_keys.2 hpath)
      obtain ⟨p, s, rfl⟩ := exists_parent hne
      have hs := hq s (by simp)
      rw [hname, virtualLastSegment_append p hs]
      exact hs

end MountableFileSystem

open MountableFileSystem

/-- The whole story is told right exactly where nothing is hidden. -/
theorem sameStory_iff_noneHidden {fs : MemoryFileSystem ω δ'} {world : ω}
    (h : WellFormed fs) (hnested : NotNested fs.mounts)
    (hmounted : ∀ entry ∈ fs.mounts, MountedStory entry.filesystem world) :
    SameStory (fun p => fs.entryTypeOf inMemory p world)
      (fun d => fs.readDirectory inMemory d world) ↔ NoneHidden fs world := by
  rw [sameStory_iff (entryTypeOf_congr fs world)
    fun d hd e hin => readDirectory_names h hmounted hd hin]
  constructor
  · intro hstory d name hname hdir
    exact (named_story_iff h hnested hmounted hdir hname).1 (hstory d hdir name hname)
  · intro hnone d hdir name hname
    exact (named_story_iff h hnested hmounted hdir hname).2 (hnone d name hname hdir)

/-! ## A filesystem that tells the same story can be mounted -/

theorem entryTypeOf_root {fs : MemoryFileSystem ω δ'} {world : ω} (h : WellFormed fs)
    (hmounted : ∀ entry ∈ fs.mounts, MountedStory entry.filesystem world) :
    fs.entryTypeOf inMemory ['/'] world = some .dir := by
  have hsegments : virtualSegments ['/'] ['/'] = [] := by decide
  rw [entryTypeOf_eq, hsegments, render_nil]
  cases hbuiltin : fs.builtins.lookup ['/'] with
  | some builtin =>
      obtain ⟨p, hne, hp, hpath⟩ := h.builtins ['/']
        (AList.lookup_isSome.1 (by rw [hbuiltin]; rfl))
      exact absurd ((render_eq_slash hp).1 hpath.symm) hne
  | none =>
      cases hroute : fs.resolve ['/'] with
      | some route =>
          obtain ⟨entry, hin, m, r, hm, hr, -, hsame, rfl⟩ :=
            MountPoints.resolve_eq_some areSegments_nil h.mounts hroute
          obtain ⟨-, rfl⟩ := List.append_eq_nil_iff.1 hsame.symm
          exact (hmounted entry hin).root
      | none => simp only [h.tree.root, kindType, if_true]

theorem mountedStory_operations {fs : MemoryFileSystem ω δ'} {world : ω}
    (h : WellFormed fs) (hnested : NotNested fs.mounts)
    (hmounted : ∀ entry ∈ fs.mounts, MountedStory entry.filesystem world)
    (hnone : NoneHidden fs world) :
    MountedStory (MountableFileSystem.operations inMemory) (fs, world) where
  root := entryTypeOf_root h hmounted
  names r _ hdir e hin := readDirectory_names h hmounted hdir hin
  story r hr hdir name hname := by
    have hchild : AreSegments (r ++ [name]) :=
      hr.append fun s hs => by rwa [List.mem_singleton.1 hs]
    have hsame := entryTypeOf_congr fs world (render (r ++ [name])) (render r ++ '/' :: name)
      (by rw [virtualSegments_render hchild, virtualSegments_entry _ hname,
        virtualSegments_render hr])
    change named name (fs.readDirectory inMemory (render r) world) =
      entryOf name (fs.entryTypeOf inMemory (render (r ++ [name])) world)
    rw [hsame]
    exact (named_story_iff h hnested hmounted hdir hname).2 (hnone _ name hname hdir)

theorem mountedStory_empty : MountedStory mountedMemory emptyMemory := by
  have hnone : ∀ entry ∈ ([] : List (MountEntry (Operations Unit Unit))),
      MountedStory entry.filesystem () := fun _ h => nomatch h
  refine mountedStory_operations (Session.wellFormed_initial {} ()) (fun _ h => nomatch h)
    hnone fun d name hname hdir => ?_
  rintro ⟨entry, hin, -⟩
  exact nomatch hin

/--
In every state of every run whose mount points are not nested, listing and `Stat` tell
the same story exactly where no builtin and no mount point hides something else.
-/
theorem listing_agrees_with_stat (now : FileDateTime) (world : ω)
    (actions : List (FileAction ω δ')) (s : Session ω δ')
    (hrun : Transition.run Session.step actions (.initial δ' now world) = some s)
    (hnested : NotNested s.fs.mounts)
    (hmounted : ∀ entry ∈ s.fs.mounts, MountedStory entry.filesystem s.world) :
    SameStory (fun p => s.fs.entryTypeOf inMemory p s.world)
      (fun d => s.fs.readDirectory inMemory d s.world) ↔ NoneHidden s.fs s.world :=
  sameStory_iff_noneHidden (Session.wellFormed_run hrun) hnested hmounted

/-- A mounted filesystem in an empty tree. -/
theorem listing_agrees_with_stat_mounted :
    ∃ s : Session MountedMemory (OpenedFile InMemoryFileDescriptor Unit),
      Transition.run Session.step [.mount {} (text "/a") (some mountedMemory)]
        (.initial _ {} emptyMemory) = some s ∧
      (SameStory (fun p => s.fs.entryTypeOf inMemory p s.world)
        (fun d => s.fs.readDirectory inMemory d s.world) ↔ NoneHidden s.fs s.world) := by
  have hrun : Transition.run Session.step [.mount {} (text "/a") (some mountedMemory)]
      (.initial _ {} emptyMemory) = some _ := rfl
  refine ⟨_, hrun, listing_agrees_with_stat {} emptyMemory _ _ hrun ?_ ?_⟩
  · intro a ha b hb _
    rw [List.mem_singleton.1 ha, List.mem_singleton.1 hb]
  · intro entry hin
    rw [List.mem_singleton.1 hin]
    exact mountedStory_empty

/-- A builtin placed where nothing is, and a filesystem mounted over it. -/
def mountOverBuiltin :
    List (FileAction MountedMemory (OpenedFile InMemoryFileDescriptor Unit)) :=
  [.addBuiltinCommand {} (text "/a") (text "ls"), .mount {} (text "/a") (some mountedMemory)]

theorem mountOverBuiltin_run :
    ∃ s, Transition.run Session.step mountOverBuiltin (.initial _ {} emptyMemory) = some s ∧
      NotNested s.fs.mounts ∧
      (∀ entry ∈ s.fs.mounts, MountedStory entry.filesystem s.world) ∧
      s.fs.entryTypeOf inMemory ['/'] s.world = some .dir ∧
      (⟨['a'], .dir⟩ : DirectoryEntry) ∈ s.fs.readDirectory inMemory ['/'] s.world ∧
      s.fs.entryTypeOf inMemory (['/'] ++ '/' :: ['a']) s.world = some .file := by
  refine ⟨_, rfl, ?_, ?_, rfl, ?_, rfl⟩
  · intro a ha b hb _
    rw [List.mem_singleton.1 ha, List.mem_singleton.1 hb]
  · intro entry hin
    rw [List.mem_singleton.1 hin]
    exact mountedStory_empty
  · exact List.mem_cons_of_mem _ (List.mem_cons_of_mem _ List.mem_cons_self)

/-- The listing calls it a directory, `Stat` a file. -/
theorem mountOverBuiltin_disagrees :
    ¬ ∀ s : Session MountedMemory (OpenedFile InMemoryFileDescriptor Unit),
      Transition.run Session.step mountOverBuiltin (.initial _ {} emptyMemory) = some s →
      NotNested s.fs.mounts →
      (∀ entry ∈ s.fs.mounts, MountedStory entry.filesystem s.world) →
      SameStory (fun p => s.fs.entryTypeOf inMemory p s.world)
        (fun d => s.fs.readDirectory inMemory d s.world) := by
  intro h
  obtain ⟨s, hrun, hnested, hmounted, hroot, hin, htype⟩ := mountOverBuiltin_run
  have hlisted := (h s hrun hnested hmounted).listed ['/'] hroot _ hin rfl
  rw [htype] at hlisted
  exact nomatch hlisted

end Haisos.Filesystem
