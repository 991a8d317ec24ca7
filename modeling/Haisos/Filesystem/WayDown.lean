import Haisos.Filesystem.Listing

/-!
# The way down to a mount point

What `Stat` and `ReadDirectory` say about a directory above a mount point, and
exactly when they show the way down to it.
-/

namespace Haisos.Filesystem

open Hsh (Text text)
open InMemoryFileSystem (kindAt)

variable {ω δ' : Type*}

/-- The type `Stat` gives a node. -/
def kindType (isDirectory : Bool) : EntryType := if isDirectory then .dir else .file

theorem localStat_type (fs : InMemoryFileSystem) (path : Text) :
    (fs.localStat path).map (·.type) =
      (fs.kindAt (render (virtualSegments path ['/']))).map kindType := by
  unfold InMemoryFileSystem.localStat kindAt normalizeVirtualPath
  simp only
  split
  · rename_i habsent
    simp [habsent]
  · rename_i node hnode
    simp [hnode, kindType, Node.type]

namespace MountableFileSystem

variable {fs : MemoryFileSystem ω δ'} {path : Text} {world : ω}

theorem entryTypeOf_eq (fs : MemoryFileSystem ω δ') (path : Text) (world : ω) :
    fs.entryTypeOf inMemory path world =
      match fs.builtins.lookup (render (virtualSegments path ['/'])) with
      | some _ => some .file
      | none =>
          match fs.resolve (render (virtualSegments path ['/'])) with
          | some route => (route.filesystem.stat route.innerPath world).map (·.type)
          | none =>
              match fs.content.kindAt (render (virtualSegments path ['/'])) with
              | some isDirectory => some (kindType isDirectory)
              | none =>
                  if (MountPoints.latestMountTimeBelow fs.mounts
                    (render (virtualSegments path ['/']))).isSome then some .dir else none := by
  have hlocal := localStat_type fs.content path
  have habsolute : inMemory.absolutePathFor path = render (virtualSegments path ['/']) := rfl
  have hstat : inMemory.stat path fs.content = fs.content.localStat path := rfl
  have hbuiltin : fs.builtins.lookup (inMemory.absolutePathFor path) =
      fs.builtins.lookup (render (virtualSegments path ['/'])) := rfl
  rw [entryTypeOf, stat, hstat]
  simp only [hbuiltin, habsolute]
  cases fs.builtins.lookup (render (virtualSegments path ['/'])) with
  | some builtin => rfl
  | none =>
      cases fs.resolve (render (virtualSegments path ['/'])) with
      | some route => rfl
      | none =>
          cases hstat : fs.content.localStat path with
          | some status =>
              rw [hstat, Option.map_some] at hlocal
              obtain ⟨isDirectory, hkind, htype⟩ := Option.map_eq_some_iff.1 hlocal.symm
              simp [hkind, htype]
          | none =>
              rw [hstat, Option.map_none] at hlocal
              rw [Option.map_eq_none_iff.1 hlocal.symm]
              change Option.map _ (Option.map _ (MountPoints.latestMountTimeBelow fs.mounts
                (render (virtualSegments path ['/'])))) = _
              cases MountPoints.latestMountTimeBelow fs.mounts
                (render (virtualSegments path ['/'])) <;> rfl

theorem servedEntries_own (path : Text) (world : ω)
    (hroute : fs.resolve (render (virtualSegments path ['/'])) = none) :
    fs.servedEntries inMemory path world =
      addSegments (MountPoints.childSegments fs.mounts (render (virtualSegments path ['/'])))
        (fs.content.localReadDirectory path) := by
  unfold servedEntries
  change (match fs.resolve (render (virtualSegments path ['/'])) with
    | some route => _
    | none => _) = _
  rw [hroute]
  rfl

theorem named_servedEntries_own (h : WellFormed fs) (path : Text) (world : ω)
    (hroute : fs.resolve (render (virtualSegments path ['/'])) = none) {name : Text}
    (hname : IsSegment name) :
    named name (fs.servedEntries inMemory path world) =
      match fs.content.kindAt (render (virtualSegments path ['/'] ++ [name])) with
      | some isDirectory => [⟨name, kindType isDirectory⟩]
      | none =>
          if name ∈ MountPoints.childSegments fs.mounts
            (render (virtualSegments path ['/'])) then [⟨name, .dir⟩] else [] := by
  rw [servedEntries_own path world hroute, named_addSegments,
    named_localReadDirectory h.tree path hname]
  cases fs.content.kindAt (render (virtualSegments path ['/'] ++ [name])) with
  | none => simp
  | some isDirectory => simp [kindType]

theorem servedEntries_mounted (path : Text) (world : ω) {route : Route (Operations ω δ')}
    (hroute : fs.resolve (render (virtualSegments path ['/'])) = some route) :
    fs.servedEntries inMemory path world =
      route.filesystem.readDirectory route.innerPath world := by
  unfold servedEntries
  change (match fs.resolve (render (virtualSegments path ['/'])) with
    | some route => _
    | none => _) = _
  rw [hroute]

/-! ## The way is shown -/

/-- `Stat` and the listing of a directory show the way on to the next segment. -/
def ShowsWay (fs : MemoryFileSystem ω δ') (world : ω) (directory : Text)
    (segment : Text) : Prop :=
  fs.entryTypeOf inMemory directory world = some .dir ∧
    ListedOnce (fs.readDirectory inMemory directory world) segment .dir

/--
No builtin sits on the directory, and what serves it does not have something else in
the way: a mounted filesystem has the way itself, or the tree has no plain file at the
directory or the next segment.
-/
def WayFree (fs : MemoryFileSystem ω δ') (world : ω) (directory : List Text)
    (segment : Text) : Prop :=
  fs.builtins.lookup (render directory) = none ∧
    match fs.resolve (render directory) with
    | some route =>
        (route.filesystem.stat route.innerPath world).map (·.type) = some .dir ∧
          ListedOnce (route.filesystem.readDirectory route.innerPath world) segment .dir
    | none =>
        fs.content.kindAt (render directory) ≠ some false ∧
          fs.content.kindAt (render (directory ++ [segment])) ≠ some false

theorem listedOnce_readDirectory_iff (path : Text) (world : ω) {name : Text}
    (hname : IsSegment name) :
    ListedOnce (fs.readDirectory inMemory path world) name .dir ↔
      ListedOnce (fs.servedEntries inMemory path world) name .dir := by
  unfold ListedOnce
  rw [named_readDirectory inMemory fs path world hname]
  by_cases hnone : named name (fs.servedEntries inMemory path world) = []
  · rw [if_neg (not_not.2 hnone), hnone]
    split_ifs <;> simp
  · rw [if_pos hnone]

theorem showsWay_iff (h : WellFormed fs) (world : ω) {directory : Text} {segment : Text}
    {rest : List Text}
    (hsegments : AreSegments (virtualSegments directory ['/'] ++ segment :: rest))
    {entry : MountEntry (Operations ω δ')} (hentry : entry ∈ fs.mounts)
    (hpath : entry.path = render (virtualSegments directory ['/'] ++ segment :: rest)) :
    ShowsWay fs world directory segment ↔
      WayFree fs world (virtualSegments directory ['/']) segment := by
  have hd := hsegments.left
  have hsegment : IsSegment segment := hsegments segment (by simp)
  unfold ShowsWay WayFree
  rw [entryTypeOf_eq, listedOnce_readDirectory_iff directory world hsegment]
  cases fs.builtins.lookup (render (virtualSegments directory ['/'])) with
  | some builtin => simp
  | none =>
      cases hroute : fs.resolve (render (virtualSegments directory ['/'])) with
      | some route =>
          rw [servedEntries_mounted directory world hroute]
          simp
      | none =>
          have hbelow : (MountPoints.latestMountTimeBelow fs.mounts
              (render (virtualSegments directory ['/']))).isSome = true :=
            (MountPoints.latestMountTimeBelow_isSome h.mounts hd).2
              ⟨entry, hentry, segment, rest, hsegments, hpath⟩
          have hchild : segment ∈ MountPoints.childSegments fs.mounts
              (render (virtualSegments directory ['/'])) :=
            (MountPoints.mem_childSegments h.mounts hd).2 ⟨entry, hentry, rest, hsegments, hpath⟩
          have hserved := named_servedEntries_own h directory world hroute hsegment
          have hhere : (match fs.content.kindAt (render (virtualSegments directory ['/'])) with
              | some isDirectory => some (kindType isDirectory)
              | none => if (MountPoints.latestMountTimeBelow fs.mounts
                  (render (virtualSegments directory ['/']))).isSome then some .dir
                else none) = some EntryType.dir ↔
              fs.content.kindAt (render (virtualSegments directory ['/'])) ≠ some false := by
            cases fs.content.kindAt (render (virtualSegments directory ['/'])) with
            | none => simp [hbelow]
            | some isDirectory => cases isDirectory <;> simp [kindType]
          have hnext : ListedOnce (fs.servedEntries inMemory directory world) segment .dir ↔
              fs.content.kindAt (render (virtualSegments directory ['/'] ++ [segment])) ≠
                some false := by
            unfold ListedOnce
            rw [hserved]
            cases fs.content.kindAt (render (virtualSegments directory ['/'] ++ [segment])) with
            | none => simp [hchild]
            | some isDirectory => cases isDirectory <;> simp [kindType]
          simp only [hhere, hnext, true_and]

end MountableFileSystem

open MountableFileSystem

/--
In every state of every run, the directories above a mount point show the way down to
it exactly where nothing else is in the way.
-/
theorem mountPoint_reachable (now : FileDateTime) (world : ω)
    (actions : List (FileAction ω δ')) (s : Session ω δ')
    (hrun : Transition.run Session.step actions (.initial δ' now world) = some s)
    (entry : MountEntry (Operations ω δ')) (hentry : entry ∈ s.fs.mounts)
    (directory segment : Text) (rest : List Text)
    (hsegments : AreSegments (virtualSegments directory ['/'] ++ segment :: rest))
    (hpath : entry.path = render (virtualSegments directory ['/'] ++ segment :: rest)) :
    ShowsWay s.fs s.world directory segment ↔
      WayFree s.fs s.world (virtualSegments directory ['/']) segment :=
  showsWay_iff (Session.wellFormed_run hrun) s.world hsegments hentry hpath

/-- An empty in-memory filesystem, as what is mounted in another one. -/
abbrev MountedMemory := MemoryFileSystem Unit Unit × Unit

def mountedMemory : Operations MountedMemory (OpenedFile InMemoryFileDescriptor Unit) :=
  MountableFileSystem.operations inMemory

def emptyMemory : MountedMemory := ({ content := .create {} }, ())

/-- A mount over an empty tree is found from the root. -/
theorem mountPoint_reachable_fromRoot :
    ∃ s : Session MountedMemory (OpenedFile InMemoryFileDescriptor Unit),
      Transition.run Session.step [.mount {} (text "/a/b") (some mountedMemory)]
        (.initial _ {} emptyMemory) = some s ∧
      ShowsWay s.fs s.world ['/'] ['a'] := by
  have hrun : Transition.run Session.step [.mount {} (text "/a/b") (some mountedMemory)]
      (.initial _ {} emptyMemory) = some _ := rfl
  refine ⟨_, hrun, (mountPoint_reachable {} emptyMemory _ _ hrun
    ⟨text "/a/b", mountedMemory, {}⟩ ?_ ['/'] ['a'] [['b']] (by decide) (by decide)).2 ?_⟩
  · exact List.mem_singleton.2 rfl
  · exact ⟨rfl, show (some true : Option Bool) ≠ some false by decide,
      show (none : Option Bool) ≠ some false by decide⟩

/-- A mount point two directories under another one. -/
def nestedMounts : List (FileAction MountedMemory (OpenedFile InMemoryFileDescriptor Unit)) :=
  [.mount {} (text "/m") (some mountedMemory), .mount {} (text "/m/x/y") (some mountedMemory)]

theorem nestedMounts_run :
    ∃ s, Transition.run Session.step nestedMounts (.initial _ {} emptyMemory) = some s ∧
      s.fs.mounts.map (·.path) = [text "/m/x/y", text "/m"] ∧
      s.fs.entryTypeOf inMemory (text "/m/x") s.world = none :=
  ⟨_, rfl, rfl, rfl⟩

/-- The directory between the two is not there. -/
theorem nestedMounts_hidden :
    ¬ ∀ s : Session MountedMemory (OpenedFile InMemoryFileDescriptor Unit),
      Transition.run Session.step nestedMounts (.initial _ {} emptyMemory) = some s →
      ∀ entry ∈ s.fs.mounts, ∀ (directory segment : Text) (rest : List Text),
        AreSegments (virtualSegments directory ['/'] ++ segment :: rest) →
        entry.path = render (virtualSegments directory ['/'] ++ segment :: rest) →
        ShowsWay s.fs s.world directory segment := by
  intro h
  obtain ⟨s, hrun, hpaths, htype⟩ := nestedMounts_run
  have hin : text "/m/x/y" ∈ s.fs.mounts.map (·.path) := by
    rw [hpaths]
    exact List.mem_cons_self
  obtain ⟨entry, hentry, hpath⟩ := List.mem_map.1 hin
  have hway := h s hrun entry hentry (text "/m/x") ['y'] [] (by decide)
    (hpath.trans (by decide))
  rw [ShowsWay, htype] at hway
  exact nomatch hway.1

end Haisos.Filesystem
