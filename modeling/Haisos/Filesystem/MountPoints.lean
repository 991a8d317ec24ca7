import Mathlib.Data.List.Sort
import Haisos.Filesystem.Status
import Haisos.Filesystem.VirtualPath

/-!
# Mount points

`MountPoints.cpp`: the table of what is mounted where, the longest path first, and
the three questions asked of it.  What a path is to the table is shown in terms of
segments: at or under a mount point is having its segments as a prefix.
-/

namespace Haisos.Filesystem

open Hsh (Text text)

structure MountEntry (F : Type*) where
  path : Text
  filesystem : F
  mountedAt : FileDateTime

/-- `MountPoints::Route`: the filesystem that serves a path, and the path in it. -/
structure Route (F : Type*) where
  filesystem : F
  innerPath : Text

namespace MountPoints

variable {F : Type*}

/-- `/a/b` contains `/a/b` and `/a/b/c`, but not `/a/bc`. -/
def isAtOrUnder (path mountPoint : Text) : Bool :=
  if mountPoint = ['/'] then true
  else if !startsWith path mountPoint then false
  else path.length == mountPoint.length || path[mountPoint.length]? == some '/'

def replaceAt (normalized : Text) (filesystem : F) (now : FileDateTime) :
    List (MountEntry F) → List (MountEntry F)
  | [] => []
  | entry :: rest =>
      if entry.path = normalized then ⟨entry.path, filesystem, now⟩ :: rest
      else entry :: replaceAt normalized filesystem now rest

def sorted (mounts : List (MountEntry F)) : List (MountEntry F) :=
  mounts.insertionSort fun a b => b.path.length ≤ a.path.length

def mount (mounts : List (MountEntry F)) (now : FileDateTime) (path : Text) :
    Option F → List (MountEntry F)
  | none => mounts
  | some filesystem =>
      let normalized := normalizeVirtualPath path
      if mounts.any fun entry => entry.path = normalized then
        replaceAt normalized filesystem now mounts
      else sorted (mounts ++ [⟨normalized, filesystem, now⟩])

def unmount (mounts : List (MountEntry F)) (path : Text) : List (MountEntry F) :=
  let normalized := normalizeVirtualPath path
  mounts.filter fun entry => entry.path ≠ normalized

def resolve (mounts : List (MountEntry F)) (path : Text) : Option (Route F) :=
  (mounts.find? fun entry => isAtOrUnder path entry.path).map fun entry =>
    ⟨entry.filesystem, (relativeToBase entry.path path).getD ['/']⟩

/-- The segment of a mount point that follows `base`, if the mount point is below it. -/
def segmentBelow (base : Text) (entry : MountEntry F) : Option Text :=
  if entry.path.length ≤ base.length ||
      !isAtOrUnder entry.path (if base = [] then ['/'] else base) then none
  else
    let segment := (entry.path.drop (base.length + 1)).takeWhile (· ≠ '/')
    if segment = [] then none else some segment

def pushSegments (base : Text) : List (MountEntry F) → List Text → List Text
  | [], segments => segments
  | entry :: rest, segments =>
      match segmentBelow base entry with
      | none => pushSegments base rest segments
      | some segment =>
          if segment ∈ segments then pushSegments base rest segments
          else pushSegments base rest (segments ++ [segment])

def childSegments (mounts : List (MountEntry F)) (directory : Text) : List Text :=
  pushSegments (if directory = ['/'] then [] else directory) mounts []

/-- `!latest || entry.mountedAt > *latest`. -/
def isLater (mountedAt : FileDateTime) : Option FileDateTime → Bool
  | none => true
  | some latest => latest.before mountedAt

def latestFrom (directory : Text) :
    List (MountEntry F) → Option FileDateTime → Option FileDateTime
  | [], latest => latest
  | entry :: rest, latest =>
      if entry.path ≠ directory ∧ isAtOrUnder entry.path directory = true ∧
          isLater entry.mountedAt latest = true then
        latestFrom directory rest (some entry.mountedAt)
      else latestFrom directory rest latest

def latestMountTimeBelow (mounts : List (MountEntry F)) (directory : Text) :
    Option FileDateTime :=
  latestFrom directory mounts none

/-! ## The table in terms of segments -/

theorem isAtOrUnder_iff {p m : List Text} (hp : AreSegments p) (hm : AreSegments m) :
    isAtOrUnder (render p) (render m) = true ↔ m <+: p := by
  rcases eq_or_ne m [] with rfl | hmne
  · simp [isAtOrUnder]
  · have hslash : render m ≠ ['/'] := mt (render_eq_slash hm).1 hmne
    rw [isAtOrUnder, if_neg hslash]
    constructor
    · intro h
      split at h
      · exact nomatch h
      · rename_i hstart
        obtain ⟨t, ht⟩ : render m <+: render p := by simpa [startsWith] using hstart
        have hends : EndsSegment t := by
          rw [← ht] at h
          cases t with
          | nil => exact .inl rfl
          | cons c t => exact .inr (by simpa using h)
        have hpne : p ≠ [] := by
          rintro rfl
          rw [render_of_ne_nil hmne] at ht
          cases m with
          | nil => exact hmne rfl
          | cons s m => simp [(hm s List.mem_cons_self).ne_nil] at ht
        rw [render_of_ne_nil hmne, render_of_ne_nil hpne] at ht
        exact (startsWith_join_iff hp hm).1 ⟨t, hends, ht.symm⟩
    · rintro ⟨r, rfl⟩
      rw [render_of_ne_nil hmne, render_of_ne_nil (by simp [hmne]), joinSegments_append]
      have hstart : startsWith (joinSegments m ++ joinSegments r) (joinSegments m) = true :=
        List.isPrefixOf_iff_prefix.2 (List.prefix_append _ _)
      rw [hstart]
      cases r with
      | nil => simp
      | cons s r => simp

structure Ordered (mounts : List (MountEntry F)) : Prop where
  normalized : ∀ entry ∈ mounts, ∃ p, AreSegments p ∧ entry.path = render p
  distinct : (mounts.map (·.path)).Nodup
  longestFirst : mounts.Pairwise fun a b => b.path.length ≤ a.path.length

theorem ordered_nil : Ordered ([] : List (MountEntry F)) :=
  ⟨fun _ h => (nomatch h), List.nodup_nil, .nil⟩

theorem map_path_replaceAt (normalized : Text) (filesystem : F) (now : FileDateTime)
    (mounts : List (MountEntry F)) :
    (replaceAt normalized filesystem now mounts).map (·.path) = mounts.map (·.path) := by
  induction mounts with
  | nil => rfl
  | cons entry rest ih =>
      rw [replaceAt]
      split_ifs <;> simp [ih]

theorem ordered_iff (mounts : List (MountEntry F)) :
    Ordered mounts ↔
      (∀ path ∈ mounts.map (·.path), ∃ p, AreSegments p ∧ path = render p) ∧
      (mounts.map (·.path)).Nodup ∧
      (mounts.map (·.path)).Pairwise fun a b => b.length ≤ a.length := by
  constructor
  · intro h
    refine ⟨?_, h.distinct, List.pairwise_map.2 h.longestFirst⟩
    intro path hin
    obtain ⟨entry, hentry, rfl⟩ := List.mem_map.1 hin
    exact h.normalized entry hentry
  · rintro ⟨hnormalized, hdistinct, hlongest⟩
    exact ⟨fun entry hin => hnormalized _ (List.mem_map_of_mem hin), hdistinct,
      List.pairwise_map.1 hlongest⟩

theorem Ordered.mount {mounts : List (MountEntry F)} (h : Ordered mounts)
    (now : FileDateTime) (path : Text) (filesystem : Option F) :
    Ordered (mount mounts now path filesystem) := by
  cases filesystem with
  | none => exact h
  | some filesystem =>
      rw [MountPoints.mount]
      split_ifs with hany
      · rw [ordered_iff, map_path_replaceAt]
        exact (ordered_iff mounts).1 h
      · have hperm : (sorted (mounts ++ [⟨normalizeVirtualPath path, filesystem, now⟩])).Perm
            (mounts ++ [⟨normalizeVirtualPath path, filesystem, now⟩]) :=
          List.perm_insertionSort _ _
        refine ⟨fun entry hin => ?_, ?_, ?_⟩
        · rcases List.mem_append.1 (hperm.subset hin) with hold | hnew
          · exact h.normalized entry hold
          · rw [List.mem_singleton.1 hnew]
            exact ⟨_, virtualSegments_areSegments path ['/'], rfl⟩
        · rw [(hperm.map (·.path)).nodup_iff, List.map_append, List.nodup_append]
          refine ⟨h.distinct, by simp, ?_⟩
          rintro a ha b hb rfl
          obtain ⟨entry, hentry, rfl⟩ := List.mem_map.1 ha
          have hsame : entry.path = normalizeVirtualPath path := by simpa using hb
          exact hany (List.any_eq_true.2 ⟨entry, hentry, by simpa using hsame⟩)
        · have htotal : Std.Total fun a b : MountEntry F => b.path.length ≤ a.path.length :=
            ⟨fun a b => Nat.le_total _ _⟩
          have htrans : IsTrans (MountEntry F) fun a b => b.path.length ≤ a.path.length :=
            ⟨fun a b c hab hbc => hbc.trans hab⟩
          exact List.pairwise_insertionSort _ _

theorem Ordered.unmount {mounts : List (MountEntry F)} (h : Ordered mounts) (path : Text) :
    Ordered (unmount mounts path) := by
  have hsublist : (MountPoints.unmount mounts path).Sublist mounts := List.filter_sublist
  exact ⟨fun entry hin => h.normalized entry (hsublist.subset hin),
    h.distinct.sublist (hsublist.map _), h.longestFirst.sublist hsublist⟩

/-! ## Who serves a path -/

theorem resolve_eq_none_iff {mounts : List (MountEntry F)} {p : List Text}
    (hp : AreSegments p) (h : Ordered mounts) :
    resolve mounts (render p) = none ↔
      ∀ entry ∈ mounts, ∀ m, AreSegments m → entry.path = render m → ¬ m <+: p := by
  rw [resolve, Option.map_eq_none_iff, List.find?_eq_none]
  constructor
  · intro hnone entry hin m hm hpath hle
    refine hnone entry hin ?_
    rw [hpath]
    exact (isAtOrUnder_iff hp hm).2 hle
  · intro hnone entry hin hunder
    obtain ⟨m, hm, hpath⟩ := h.normalized entry hin
    rw [hpath] at hunder
    exact hnone entry hin m hm hpath ((isAtOrUnder_iff hp hm).1 hunder)

theorem resolve_eq_some {mounts : List (MountEntry F)} {p : List Text}
    (hp : AreSegments p) (h : Ordered mounts) {route : Route F}
    (hroute : resolve mounts (render p) = some route) :
    ∃ entry ∈ mounts, ∃ m r, AreSegments m ∧ AreSegments r ∧ entry.path = render m ∧
      p = m ++ r ∧ route = ⟨entry.filesystem, render r⟩ := by
  rw [resolve, Option.map_eq_some_iff] at hroute
  obtain ⟨entry, hfind, rfl⟩ := hroute
  have hin := List.mem_of_find?_eq_some hfind
  have hunder := List.find?_some hfind
  obtain ⟨m, hm, hpath⟩ := h.normalized entry hin
  rw [hpath] at hunder
  obtain ⟨r, rfl⟩ := (isAtOrUnder_iff hp hm).1 hunder
  refine ⟨entry, hin, m, r, hm, hp.right, hpath, rfl, ?_⟩
  rw [hpath, relativeToBase_append hm hp.right]
  rfl

theorem Ordered.eq_of_path_eq {mounts : List (MountEntry F)} (h : Ordered mounts)
    {a b : MountEntry F} (ha : a ∈ mounts) (hb : b ∈ mounts) (hpath : a.path = b.path) :
    a = b :=
  List.inj_on_of_nodup_map h.distinct ha hb hpath

/-! ## The way down -/

theorem render_length_le {d r : List Text} :
    (render (d ++ r)).length ≤ (joinSegments d).length ↔ r = [] ∧ d ≠ [] := by
  rcases eq_or_ne (d ++ r) [] with hnil | hne
  · obtain ⟨rfl, rfl⟩ := List.append_eq_nil_iff.1 hnil
    simp
  · rw [render_of_ne_nil hne, joinSegments_append]
    have hr : (joinSegments r).length = 0 ↔ r = [] := by simp
    simp only [List.length_append, ← hr]
    constructor
    · intro hle
      have hzero : (joinSegments r).length = 0 := by omega
      refine ⟨hzero, ?_⟩
      rintro rfl
      exact hne (by simpa using hr.1 hzero)
    · rintro ⟨hzero, -⟩
      omega

theorem segmentBelow_of_below {d : List Text} {seg : Text} {rest : List Text}
    (hm : AreSegments (d ++ seg :: rest)) {entry : MountEntry F}
    (hpath : entry.path = render (d ++ seg :: rest)) :
    segmentBelow (joinSegments d) entry = some seg := by
  have hseg : IsSegment seg := hm seg (by simp)
  have hlength : ¬ (render (d ++ seg :: rest)).length ≤ (joinSegments d).length :=
    fun hle => nomatch (render_length_le.1 hle).1
  have hbase : (if joinSegments d = [] then ['/'] else joinSegments d) = render d := by
    simp [render]
  have hunder := (isAtOrUnder_iff hm hm.left).2 (List.prefix_append d (seg :: rest))
  have hrest : (render (d ++ seg :: rest)).drop ((joinSegments d).length + 1) =
      seg ++ joinSegments rest := by
    rw [render_of_ne_nil (by simp), joinSegments_append, joinSegments_cons, List.drop_append]
    simp
  have htake := takeWhile_segment hseg.slashFree (endsSegment_join rest)
  simp only [segmentBelow, hpath, hbase, hunder, hlength, hrest, htake, decide_false,
    Bool.not_true, Bool.or_self, Bool.false_eq_true, if_false, hseg.ne_nil]

theorem segmentBelow_eq_some {d m : List Text} (hd : AreSegments d) (hm : AreSegments m)
    {entry : MountEntry F} (hpath : entry.path = render m) {seg : Text}
    (h : segmentBelow (joinSegments d) entry = some seg) : ∃ rest, m = d ++ seg :: rest := by
  have hbase : (if joinSegments d = [] then ['/'] else joinSegments d) = render d := by
    simp [render]
  have hcondition : ¬ (render m).length ≤ (joinSegments d).length ∧
      isAtOrUnder (render m) (render d) = true := by
    rw [segmentBelow, hpath, hbase] at h
    split at h
    · exact nomatch h
    · rename_i hcondition
      simpa using hcondition
  obtain ⟨r, rfl⟩ := (isAtOrUnder_iff hm hd).1 hcondition.2
  cases r with
  | nil =>
      rcases eq_or_ne d [] with rfl | hne
      · simp [segmentBelow, hpath] at h
      · exact absurd (render_length_le.2 ⟨rfl, hne⟩) hcondition.1
  | cons s rest =>
      rw [segmentBelow_of_below hm hpath] at h
      cases h
      exact ⟨rest, rfl⟩

theorem mem_pushSegments {base : Text} {mounts : List (MountEntry F)} {segments : List Text}
    {seg : Text} :
    seg ∈ pushSegments base mounts segments ↔
      seg ∈ segments ∨ ∃ entry ∈ mounts, segmentBelow base entry = some seg := by
  induction mounts generalizing segments with
  | nil => simp [pushSegments]
  | cons entry rest ih =>
      rw [pushSegments]
      cases hentry : segmentBelow base entry with
      | none => simp [ih, hentry]
      | some s =>
          by_cases hin : s ∈ segments
          · simp only [hin, if_true, ih, List.mem_cons, exists_eq_or_imp, hentry,
              Option.some.injEq]
            constructor
            · rintro (h | h)
              · exact .inl h
              · exact .inr (.inr h)
            · rintro (h | rfl | h)
              · exact .inl h
              · exact .inl hin
              · exact .inr h
          · simp only [hin, if_false, ih, List.mem_append, List.mem_cons,
              List.not_mem_nil, or_false, exists_eq_or_imp, hentry, Option.some.injEq,
              or_assoc, eq_comm (a := seg)]

theorem childBase (d : List Text) (hd : AreSegments d) :
    (if render d = ['/'] then [] else render d) = joinSegments d := by
  rcases eq_or_ne d [] with rfl | hne
  · rfl
  · rw [if_neg (mt (render_eq_slash hd).1 hne), render_of_ne_nil hne]

theorem mem_childSegments {mounts : List (MountEntry F)} (h : Ordered mounts)
    {d : List Text} (hd : AreSegments d) {seg : Text} :
    seg ∈ childSegments mounts (render d) ↔
      ∃ entry ∈ mounts, ∃ rest, AreSegments (d ++ seg :: rest) ∧
        entry.path = render (d ++ seg :: rest) := by
  rw [childSegments, childBase d hd, mem_pushSegments]
  constructor
  · rintro (hnil | ⟨entry, hin, hsegment⟩)
    · exact nomatch hnil
    · obtain ⟨m, hm, hpath⟩ := h.normalized entry hin
      obtain ⟨rest, rfl⟩ := segmentBelow_eq_some hd hm hpath hsegment
      exact ⟨entry, hin, rest, hm, hpath⟩
  · rintro ⟨entry, hin, rest, hm, hpath⟩
    exact .inr ⟨entry, hin, segmentBelow_of_below hm hpath⟩

theorem latestFrom_isSome {directory : Text} {mounts : List (MountEntry F)}
    {latest : Option FileDateTime} :
    (latestFrom directory mounts latest).isSome = true ↔
      latest.isSome = true ∨ ∃ entry ∈ mounts, entry.path ≠ directory ∧
        isAtOrUnder entry.path directory = true := by
  induction mounts generalizing latest with
  | nil => simp [latestFrom]
  | cons entry rest ih =>
      rw [latestFrom]
      cases latest with
      | none =>
          by_cases hne : entry.path = directory <;>
            by_cases hunder : isAtOrUnder entry.path directory = true <;>
            simp [ih, hne, hunder, isLater]
      | some time =>
          split_ifs <;> simp [ih]

theorem latestMountTimeBelow_isSome {mounts : List (MountEntry F)} (h : Ordered mounts)
    {d : List Text} (hd : AreSegments d) :
    (latestMountTimeBelow mounts (render d)).isSome = true ↔
      ∃ entry ∈ mounts, ∃ seg rest, AreSegments (d ++ seg :: rest) ∧
        entry.path = render (d ++ seg :: rest) := by
  rw [latestMountTimeBelow, latestFrom_isSome]
  constructor
  · rintro (hnone | ⟨entry, hin, hne, hunder⟩)
    · exact nomatch hnone
    · obtain ⟨m, hm, hpath⟩ := h.normalized entry hin
      rw [hpath] at hne hunder
      obtain ⟨r, rfl⟩ := (isAtOrUnder_iff hm hd).1 hunder
      cases r with
      | nil => exact absurd (by simp) hne
      | cons seg rest => exact ⟨entry, hin, seg, rest, hm, hpath⟩
  · rintro ⟨entry, hin, seg, rest, hm, hpath⟩
    refine .inr ⟨entry, hin, ?_, ?_⟩
    · rw [hpath, Ne, render_inj hm hd]
      simp
    · rw [hpath]
      exact (isAtOrUnder_iff hm hd).2 (List.prefix_append d _)

end MountPoints

end Haisos.Filesystem
