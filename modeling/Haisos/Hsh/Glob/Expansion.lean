import Haisos.Hsh.Glob.Components

/-!
# Pathname expansion over a directory tree

What a pattern names in a directory tree, one component after the other, and
that `ExpandPathname` finds exactly that with the components of its own scan.
Where that scan keeps a slash in a bracket expression, what it finds has fewer
slashes than what the pattern names.
-/

namespace Haisos.Hsh

/-! ## Directory trees -/

/-- A prefix under which names are looked up: none, or one that ends in a slash. -/
def IsPrefix (pathPrefix : Text) : Prop := pathPrefix = [] ∨ pathPrefix.getLast? = some '/'

/-- The paths, written with a slash at the end, at which there is a directory. -/
inductive DirectoryAt (readDirectory : Text → List DirectoryEntry) : Text → Prop where
  | root : DirectoryAt readDirectory ['/']
  | entry {pathPrefix : Text} {entry : DirectoryEntry} (prefix_shape : IsPrefix pathPrefix)
      (listed : entry ∈ readDirectory (directoryOf pathPrefix)) (is_dir : entry.isDir = true) :
      DirectoryAt readDirectory (pathPrefix ++ entry.name ++ ['/'])
  | doubled {path : Text} (directory : DirectoryAt readDirectory (path ++ ['/'])) :
      DirectoryAt readDirectory (path ++ ['/', '/'])

inductive Present (readDirectory : Text → List DirectoryEntry) : Text → Prop where
  | entry {pathPrefix : Text} {entry : DirectoryEntry} (prefix_shape : IsPrefix pathPrefix)
      (listed : entry ∈ readDirectory (directoryOf pathPrefix)) (named : entry.name ≠ []) :
      Present readDirectory (pathPrefix ++ entry.name)
  | directory {path : Text} (directory : DirectoryAt readDirectory path) :
      Present readDirectory path

/-- A directory tree: names are distinct and without slashes, and what exists is what is listed. -/
structure DirectoryTree extends PathnameSource where
  distinct : ∀ path, ((readDirectory path).map DirectoryEntry.name).Nodup
  slash_free : ∀ path, ∀ entry ∈ readDirectory path, '/' ∉ entry.name
  exists_iff : ∀ path, path ≠ [] → (pathExists path = true ↔ Present readDirectory path)

/-! ## What a pattern names -/

/-- The component begins with a `.` that is meant as such. -/
def BeginsWithDot (component : Text) : Prop :=
  component.head? = some '.' ∨ component.take 2 = ['\\', '.']

/-- A component with pattern characters takes an entry, the last one of any kind. -/
def Takes (component : Text) (last : Bool) (entry : DirectoryEntry) : Prop :=
  matchPattern component entry.name = true ∧
    (entry.name.head? = some '.' → BeginsWithDot component) ∧
    (last = false → entry.isDir = true)

inductive Names (tree : DirectoryTree) : List Text → Text → Text → Prop where
  | lastLiteral {component pathPrefix : Text} (literal : hasPatternCharacters component = false)
      (present : tree.pathExists (pathPrefix ++ unescapePattern component) = true) :
      Names tree [component] pathPrefix (pathPrefix ++ unescapePattern component)
  | lastEntry {component pathPrefix : Text} {entry : DirectoryEntry}
      (special : hasPatternCharacters component = true)
      (listed : entry ∈ tree.readDirectory (directoryOf pathPrefix))
      (takes : Takes component true entry) :
      Names tree [component] pathPrefix (pathPrefix ++ entry.name)
  | literal {component pathPrefix path : Text} {components : List Text}
      (literal : hasPatternCharacters component = false) (more : components ≠ [])
      (next : Names tree components (pathPrefix ++ unescapePattern component ++ ['/']) path) :
      Names tree (component :: components) pathPrefix path
  | entry {component pathPrefix path : Text} {components : List Text} {entry : DirectoryEntry}
      (special : hasPatternCharacters component = true)
      (listed : entry ∈ tree.readDirectory (directoryOf pathPrefix))
      (takes : Takes component false entry) (more : components ≠ [])
      (next : Names tree components (pathPrefix ++ entry.name ++ ['/']) path) :
      Names tree (component :: components) pathPrefix path

/-- From the root where the pattern begins with a slash, else from the working directory. -/
def NamesFrom (tree : DirectoryTree) (pattern : Text) (components : List Text) (path : Text) :
    Prop :=
  if pattern.head? = some '/' then Names tree components.tail ['/'] path
  else Names tree components [] path

/-! ## What is found -/

theorem mem_expandComponent_literal {source : PathnameSource} {component path : Text} {last : Bool}
    {prefixes : List Text} (h : hasPatternCharacters component = false) :
    path ∈ expandComponent source component last prefixes ↔
      ∃ pathPrefix ∈ prefixes,
        if last then source.pathExists (pathPrefix ++ unescapePattern component) = true ∧
          path = pathPrefix ++ unescapePattern component
        else path = pathPrefix ++ unescapePattern component ++ ['/'] := by
  cases last with
  | true =>
      simp only [expandComponent, h, Bool.not_false, if_true, List.mem_filter, List.mem_map]
      constructor
      · rintro ⟨⟨pathPrefix, hmem, rfl⟩, hexists⟩
        exact ⟨pathPrefix, hmem, hexists, rfl⟩
      · rintro ⟨pathPrefix, hmem, hexists, rfl⟩
        exact ⟨⟨pathPrefix, hmem, rfl⟩, hexists⟩
  | false => simp [expandComponent, h, eq_comm]

theorem mem_expandComponent_special {source : PathnameSource} {component path : Text} {last : Bool}
    {prefixes : List Text} (h : hasPatternCharacters component = true) :
    path ∈ expandComponent source component last prefixes ↔
      ∃ pathPrefix ∈ prefixes, ∃ entry ∈ source.readDirectory (directoryOf pathPrefix),
        Takes component last entry ∧
          path = pathPrefix ++ entry.name ++ if last then [] else ['/'] := by
  have htakes : ∀ entry : DirectoryEntry,
      (decide ((component.head? = some '.' ∨ component.take 2 = ['\\', '.']) ∨
        entry.name.head? ≠ some '.') && matchPattern component entry.name &&
          (last || entry.isDir)) = true ↔ Takes component last entry := by
    intro entry
    unfold Takes BeginsWithDot
    cases last <;> simp <;> tauto
  simp only [expandComponent, h, Bool.not_true, Bool.false_eq_true, if_false, List.mem_flatMap,
    List.mem_map, List.mem_filter, htakes]
  constructor
  · rintro ⟨pathPrefix, hmem, entry, ⟨hlisted, htake⟩, rfl⟩
    refine ⟨pathPrefix, hmem, entry, hlisted, htake, ?_⟩
    cases last <;> simp
  · rintro ⟨pathPrefix, hmem, entry, hlisted, htake, rfl⟩
    refine ⟨pathPrefix, hmem, entry, ⟨hlisted, htake⟩, ?_⟩
    cases last <;> simp

theorem names_last_iff {tree : DirectoryTree} {component pathPrefix path : Text} :
    Names tree [component] pathPrefix path ↔
      path ∈ expandComponent tree.toPathnameSource component true [pathPrefix] := by
  cases h : hasPatternCharacters component with
  | false =>
      rw [mem_expandComponent_literal h]
      simp only [List.mem_singleton, exists_eq_left, if_true]
      constructor
      · intro hnames
        cases hnames with
        | lastLiteral _ present => exact ⟨present, rfl⟩
        | lastEntry special => simp [h] at special
        | literal _ more => exact absurd rfl more
        | entry _ _ _ more => exact absurd rfl more
      · rintro ⟨present, rfl⟩
        exact .lastLiteral h present
  | true =>
      rw [mem_expandComponent_special h]
      simp only [List.mem_singleton, exists_eq_left, if_true, List.append_nil]
      constructor
      · intro hnames
        cases hnames with
        | lastLiteral literal => simp [h] at literal
        | lastEntry _ listed takes => exact ⟨_, listed, takes, rfl⟩
        | literal _ more => exact absurd rfl more
        | entry _ _ _ more => exact absurd rfl more
      · rintro ⟨entry, listed, takes, rfl⟩
        exact .lastEntry h listed takes

theorem names_cons_iff {tree : DirectoryTree} {component pathPrefix path : Text}
    {components : List Text} (hmore : components ≠ []) :
    Names tree (component :: components) pathPrefix path ↔
      ∃ next ∈ expandComponent tree.toPathnameSource component false [pathPrefix],
        Names tree components next path := by
  cases h : hasPatternCharacters component with
  | false =>
      simp only [mem_expandComponent_literal h, List.mem_singleton, exists_eq_left,
        Bool.false_eq_true, if_false]
      constructor
      · intro hnames
        cases hnames with
        | lastLiteral => exact absurd rfl hmore
        | lastEntry => exact absurd rfl hmore
        | literal _ _ next => exact next
        | entry special => simp [h] at special
      · exact .literal h hmore
  | true =>
      simp only [mem_expandComponent_special h, List.mem_singleton, exists_eq_left,
        Bool.false_eq_true, if_false]
      constructor
      · intro hnames
        cases hnames with
        | lastLiteral => exact absurd rfl hmore
        | lastEntry => exact absurd rfl hmore
        | literal literal => simp [h] at literal
        | entry _ listed takes _ next => exact ⟨_, ⟨_, listed, takes, rfl⟩, next⟩
      · rintro ⟨_, ⟨entry, listed, takes, rfl⟩, next⟩
        exact .entry h listed takes hmore next

theorem mem_expandComponent {source : PathnameSource} {component path : Text} {last : Bool}
    {prefixes : List Text} :
    path ∈ expandComponent source component last prefixes ↔
      ∃ pathPrefix ∈ prefixes, path ∈ expandComponent source component last [pathPrefix] := by
  cases h : hasPatternCharacters component with
  | false => simp [mem_expandComponent_literal h]
  | true => simp [mem_expandComponent_special h]

/-- The components find from some prefixes on what they name from one of them. -/
theorem mem_expandComponents {tree : DirectoryTree} {components prefixes : List Text} {path : Text}
    (h : components ≠ []) :
    path ∈ expandComponents tree.toPathnameSource components prefixes ↔
      ∃ pathPrefix ∈ prefixes, Names tree components pathPrefix path := by
  induction components generalizing prefixes with
  | nil => exact absurd rfl h
  | cons component components ih =>
      by_cases hprefixes : prefixes = []
      · simp [expandComponents, hprefixes]
      · rw [expandComponents, if_neg hprefixes]
        by_cases hmore : components = []
        · subst hmore
          rw [expandComponents, List.isEmpty_nil, mem_expandComponent]
          simp only [names_last_iff]
        · have hlast : components.isEmpty = false := by simpa using hmore
          rw [ih hmore, hlast]
          simp only [names_cons_iff hmore]
          constructor
          · rintro ⟨next, hnext, hnames⟩
            obtain ⟨pathPrefix, hmem, hnext⟩ := mem_expandComponent.mp hnext
            exact ⟨pathPrefix, hmem, next, hnext, hnames⟩
          · rintro ⟨pathPrefix, hmem, next, hnext, hnames⟩
            exact ⟨next, mem_expandComponent.mpr ⟨pathPrefix, hmem, hnext⟩, hnames⟩

/-! ## No path is found twice -/

/-- Prefixes as the expansion grows them: the first one, or all with a slash at the end. -/
def Grown (prefixes : List Text) : Prop :=
  (∃ pathPrefix, prefixes = [pathPrefix]) ∨
    ∀ pathPrefix ∈ prefixes, pathPrefix.getLast? = some '/'

theorem append_slash_free_inj {pathPrefix pathPrefix' name name' : Text}
    (hslashed : pathPrefix.getLast? = some '/') (hslashed' : pathPrefix'.getLast? = some '/')
    (hname : '/' ∉ name) (hname' : '/' ∉ name')
    (h : pathPrefix ++ name = pathPrefix' ++ name') : pathPrefix = pathPrefix' := by
  rcases List.append_eq_append_iff.mp h with ⟨between, rfl, rfl⟩ | ⟨between, rfl, rfl⟩
  · by_cases hbetween : between = []
    · simp [hbetween]
    · rw [List.getLast?_append_of_ne_nil _ hbetween] at hslashed'
      exact absurd (List.mem_append_left _ (List.mem_of_getLast? hslashed')) hname
  · by_cases hbetween : between = []
    · simp [hbetween]
    · rw [List.getLast?_append_of_ne_nil _ hbetween] at hslashed
      exact absurd (List.mem_append_left _ (List.mem_of_getLast? hslashed)) hname'

theorem Grown.append_inj {prefixes : List Text} (h : Grown prefixes)
    {pathPrefix pathPrefix' name name' : Text} (hmem : pathPrefix ∈ prefixes)
    (hmem' : pathPrefix' ∈ prefixes) (hname : '/' ∉ name) (hname' : '/' ∉ name')
    (heq : pathPrefix ++ name = pathPrefix' ++ name') : pathPrefix = pathPrefix' := by
  rcases h with ⟨first, rfl⟩ | hslash
  · rw [List.mem_singleton.mp hmem, List.mem_singleton.mp hmem']
  · exact append_slash_free_inj (hslash _ hmem) (hslash _ hmem') hname hname' heq

theorem Grown.expandComponent {source : PathnameSource} {component : Text} (prefixes : List Text) :
    Grown (Hsh.expandComponent source component false prefixes) := by
  refine .inr fun next hnext => ?_
  cases h : hasPatternCharacters component with
  | false =>
      obtain ⟨pathPrefix, -, rfl⟩ := (mem_expandComponent_literal h).mp hnext
      simp
  | true =>
      obtain ⟨pathPrefix, -, entry, -, -, rfl⟩ := (mem_expandComponent_special h).mp hnext
      simp

theorem nodup_expandComponent (tree : DirectoryTree) (component : Text) (last : Bool)
    {prefixes : List Text} (hgrown : Grown prefixes) (hnodup : prefixes.Nodup) :
    (expandComponent tree.toPathnameSource component last prefixes).Nodup := by
  cases h : hasPatternCharacters component with
  | false =>
      cases last with
      | true =>
          simp only [expandComponent, h, Bool.not_false, if_true]
          exact (hnodup.map fun _ _ => List.append_cancel_right).filter _
      | false =>
          simp only [expandComponent, h, Bool.not_false, if_true, Bool.false_eq_true, if_false]
          refine hnodup.map fun _ _ heq => ?_
          exact List.append_cancel_right (List.append_cancel_right heq)
  | true =>
      simp only [expandComponent, h, Bool.not_true, Bool.false_eq_true, if_false]
      rw [List.nodup_flatMap]
      constructor
      · intro pathPrefix _
        have hentries := tree.distinct (directoryOf pathPrefix)
        refine List.Nodup.map_on ?_ (hentries.of_map.filter _)
        intro entry hentry entry' hentry' heq
        have hname : entry.name = entry'.name := by
          cases last <;> simpa using heq
        exact List.inj_on_of_nodup_map hentries (List.mem_of_mem_filter hentry)
          (List.mem_of_mem_filter hentry') hname
      · refine hnodup.pairwise_of_forall_ne fun pathPrefix hmem pathPrefix' hmem' hne => ?_
        rw [Function.onFun, List.disjoint_left]
        intro path hpath hpath'
        simp only [List.mem_map, List.mem_filter] at hpath hpath'
        obtain ⟨entry, ⟨hentry, -⟩, rfl⟩ := hpath
        obtain ⟨entry', ⟨hentry', -⟩, heq⟩ := hpath'
        refine hne (hgrown.append_inj hmem hmem' (tree.slash_free _ _ hentry)
          (tree.slash_free _ _ hentry') ?_)
        cases last with
        | true => simpa using heq.symm
        | false => simpa only [Bool.false_eq_true, if_false, List.append_left_inj] using heq.symm

theorem nodup_expandComponents (tree : DirectoryTree) (components : List Text)
    {prefixes : List Text} (hgrown : Grown prefixes) (hnodup : prefixes.Nodup) :
    (expandComponents tree.toPathnameSource components prefixes).Nodup := by
  induction components generalizing prefixes with
  | nil => exact hnodup
  | cons component components ih =>
      rw [expandComponents]
      split_ifs with hprefixes
      · exact List.nodup_nil
      · have hnext := nodup_expandComponent tree component components.isEmpty hgrown
          hnodup
        cases hlast : components.isEmpty with
        | true =>
            rw [List.isEmpty_iff] at hlast
            subst hlast
            exact hnext
        | false =>
            rw [hlast] at hnext
            exact ih (.expandComponent prefixes) hnext

/-! ## Slashes of the paths -/

def ownSlashes (component : Text) : Nat :=
  if hasPatternCharacters component then 0 else (unescapePattern component).count '/'

def slashWeight (components : List Text) : Nat :=
  (components.map fun component => ownSlashes component + 1).sum

@[simp] theorem slashWeight_cons (component : Text) (components : List Text) :
    slashWeight (component :: components) = ownSlashes component + 1 + slashWeight components := rfl

theorem length_le_slashWeight (components : List Text) :
    components.length ≤ slashWeight components := by
  induction components with
  | nil => exact le_rfl
  | cons component components ih =>
      simp only [List.length_cons, slashWeight_cons]
      omega

theorem ownSlashes_literal {component : Text} (h : hasPatternCharacters component = false) :
    ownSlashes component = (unescapePattern component).count '/' := by
  simp [ownSlashes, h]

theorem ownSlashes_special {component : Text} (h : hasPatternCharacters component = true) :
    ownSlashes component = 0 := by
  simp [ownSlashes, h]

theorem Names.count_slash {tree : DirectoryTree} {components : List Text} {pathPrefix path : Text}
    (h : Names tree components pathPrefix path) :
    path.count '/' + 1 = pathPrefix.count '/' + slashWeight components := by
  induction h with
  | lastLiteral literal present =>
      simp only [List.count_append, slashWeight, List.map_cons, List.map_nil, List.sum_cons,
        List.sum_nil, ownSlashes_literal literal]
      omega
  | lastEntry special listed takes =>
      have hname := List.count_eq_zero.mpr (tree.slash_free _ _ listed)
      simp only [List.count_append, slashWeight, List.map_cons, List.map_nil, List.sum_cons,
        List.sum_nil, ownSlashes_special special, hname]
      omega
  | literal literal more next ih =>
      rw [ih]
      simp only [List.count_append, slashWeight_cons, ownSlashes_literal literal,
        List.count_singleton_self]
      omega
  | entry special listed takes more next ih =>
      have hname := List.count_eq_zero.mpr (tree.slash_free _ _ listed)
      rw [ih]
      simp only [List.count_append, slashWeight_cons, ownSlashes_special special, hname,
        List.count_singleton_self]
      omega

/-- Components divided further at slashes in their bracket expressions name longer paths. -/
theorem slashWeight_flatMap {components : List Text}
    (h : ∀ component ∈ components, slashComponents component = [component] ∨
      hasPatternCharacters component = true) :
    slashWeight components + (components.flatMap slashComponents).length ≤
      slashWeight (components.flatMap slashComponents) + components.length := by
  induction components with
  | nil => simp
  | cons component components ih =>
      simp only [List.mem_cons, forall_eq_or_imp] at h
      have hrest := ih h.2
      have happend : slashWeight (slashComponents component ++
          components.flatMap slashComponents) =
          slashWeight (slashComponents component) +
            slashWeight (components.flatMap slashComponents) := by
        simp [slashWeight]
      rw [List.flatMap_cons, happend]
      simp only [slashWeight_cons, List.length_append, List.length_cons]
      rcases h.1 with hsame | hspecial
      · rw [hsame]
        simp only [slashWeight, List.map_cons, List.map_nil, List.sum_cons, List.sum_nil,
          List.length_singleton] at hrest ⊢
        omega
      · have hlength := length_le_slashWeight (slashComponents component)
        rw [ownSlashes_special hspecial]
        omega

/-! ## The law of pathname expansion -/

/-- No bracket expression that the scan keeps has an unescaped slash in it. -/
def BracketsUndivided (pattern : Text) : Prop :=
  ∃ chunks, Chunks pattern chunks ∧
    ∀ inside, .bracket inside ∈ chunks → (slashComponents inside).length = 1

/--
What is found is what the components between the unescaped slashes name, in
order and once each, and directories only where the pattern ends in a slash.
-/
def ExpansionLaw (pattern : Text) (tree : DirectoryTree) : Prop :=
  (∀ path, path ∈ expandPathname pattern tree.toPathnameSource ↔
    NamesFrom tree pattern (slashComponents pattern) path) ∧
  (expandPathname pattern tree.toPathnameSource).Pairwise (· ≤ ·) ∧
  (expandPathname pattern tree.toPathnameSource).Nodup ∧
  (pattern ≠ [] → (slashComponents pattern).getLast? = some [] →
    ∀ path ∈ expandPathname pattern tree.toPathnameSource,
      DirectoryAt tree.readDirectory path)

theorem head_eq_slash {pattern : Text} (h : pattern.head? = some '/') :
    ∃ rest, pattern = '/' :: rest := by
  rcases pattern with _ | ⟨c, rest⟩
  · cases h
  · exact ⟨rest, by simpa using h⟩

theorem splitComponents_slash (rest : Text) :
    splitComponents ('/' :: rest) = [] :: splitComponents rest := by
  obtain ⟨chunks, hchunks⟩ := exists_chunks rest
  rw [hchunks.splitComponents, (Chunks.slash hchunks).splitComponents]
  rfl

theorem splitComponents_ne_nil (pattern : Text) : splitComponents pattern ≠ [] := by
  obtain ⟨chunks, hchunks⟩ := exists_chunks pattern
  rw [hchunks.splitComponents]
  exact Chunk.components_ne_nil chunks

theorem mem_expandPathname {pattern path : Text} {tree : DirectoryTree} :
    path ∈ expandPathname pattern tree.toPathnameSource ↔
      NamesFrom tree pattern (splitComponents pattern) path := by
  unfold expandPathname NamesFrom
  rw [List.mem_mergeSort]
  split_ifs with habsolute
  · obtain ⟨rest, rfl⟩ := head_eq_slash habsolute
    rw [splitComponents_slash, List.tail_cons, mem_expandComponents (splitComponents_ne_nil rest)]
    simp
  · rw [mem_expandComponents (splitComponents_ne_nil pattern)]
    simp

theorem expandPathname_sorted (pattern : Text) (source : PathnameSource) :
    (expandPathname pattern source).Pairwise (· ≤ ·) := by
  have htrans : ∀ a b c : Text, decide (a ≤ b) = true → decide (b ≤ c) = true →
      decide (a ≤ c) = true := by
    intro a b c hab hbc
    exact decide_eq_true (le_trans (of_decide_eq_true hab) (of_decide_eq_true hbc))
  have htotal : ∀ a b : Text, (decide (a ≤ b) || decide (b ≤ a)) = true := by
    intro a b
    simpa using le_total a b
  unfold expandPathname
  refine (List.pairwise_mergeSort htrans htotal _).imp fun h => ?_
  simpa using h

theorem expandPathname_nodup (pattern : Text) (tree : DirectoryTree) :
    (expandPathname pattern tree.toPathnameSource).Nodup := by
  unfold expandPathname
  rw [(List.mergeSort_perm _ _).nodup_iff]
  split_ifs
  · exact nodup_expandComponents tree _ (.inl ⟨_, rfl⟩) (List.nodup_singleton _)
  · exact nodup_expandComponents tree _ (.inl ⟨_, rfl⟩) (List.nodup_singleton _)

theorem NamesFrom.count_slash {tree : DirectoryTree} {pattern path : Text} {components : List Text}
    (h : NamesFrom tree pattern components path)
    (hfirst : pattern.head? = some '/' → components.head? = some []) :
    path.count '/' + 1 = slashWeight components := by
  unfold NamesFrom at h
  split_ifs at h with habsolute
  · obtain ⟨tail, rfl⟩ : ∃ tail, components = [] :: tail := by
      rcases components with _ | ⟨first, tail⟩
      · simp at hfirst
        exact absurd habsolute hfirst
      · exact ⟨tail, by simpa using hfirst habsolute⟩
    have hown : ownSlashes [] = 0 := by decide
    rw [h.count_slash, slashWeight_cons, hown]
    rfl
  · rw [h.count_slash]
    simp

theorem Names.of_last_empty {tree : DirectoryTree} {components : List Text}
    {pathPrefix path : Text} (h : Names tree components pathPrefix path)
    (hlast : components.getLast? = some [])
    (hslashed : pathPrefix.getLast? = some '/' ∨ 2 ≤ components.length) :
    path.getLast? = some '/' ∧ tree.pathExists path = true := by
  induction h with
  | @lastLiteral component pathPrefix literal present =>
      have hempty : component = [] := by simpa using hlast
      subst hempty
      simp only [unescapePattern, List.append_nil] at present ⊢
      exact ⟨by simpa using hslashed, present⟩
  | @lastEntry component pathPrefix entry special listed takes =>
      have hempty : component = [] := by simpa using hlast
      subst hempty
      cases special
  | literal literal more next ih =>
      refine ih ?_ (.inl (by simp))
      rwa [List.getLast?_cons_of_ne_nil more] at hlast
  | entry special listed takes more next ih =>
      refine ih ?_ (.inl (by simp))
      rwa [List.getLast?_cons_of_ne_nil more] at hlast

theorem DirectoryTree.directoryAt {tree : DirectoryTree} {path : Text}
    (hlast : path.getLast? = some '/') (hexists : tree.pathExists path = true) :
    DirectoryAt tree.readDirectory path := by
  have hne : path ≠ [] := by
    rintro rfl
    cases hlast
  have hpresent := (tree.exists_iff path hne).mp hexists
  cases hpresent with
  | entry prefix_shape listed named =>
      rw [List.getLast?_append_of_ne_nil _ named] at hlast
      exact absurd (List.mem_of_getLast? hlast) (tree.slash_free _ _ listed)
  | directory directory => exact directory

theorem slashComponents_slash (rest : Text) :
    slashComponents ('/' :: rest) = [] :: slashComponents rest := by
  rw [slashComponents]

theorem slashComponents_head_ne {c : Char} (rest : Text) (h : c ≠ '/') :
    (slashComponents (c :: rest)).head? ≠ some [] := by
  rw [slashComponents.eq_def]
  split
  · simp_all
  · rename_i heq
    cases heq
    exact absurd rfl h
  · cases slashComponents _ <;> simp [addFront]
  · cases slashComponents _ <;> simp [addFront]

/-- Where the pattern ends in a slash that no backslash escapes, only directories are named. -/
theorem NamesFrom.directoryAt {tree : DirectoryTree} {pattern path : Text}
    (h : NamesFrom tree pattern (slashComponents pattern) path) (hne : pattern ≠ [])
    (hlast : (slashComponents pattern).getLast? = some []) :
    DirectoryAt tree.readDirectory path := by
  unfold NamesFrom at h
  split_ifs at h with habsolute
  · obtain ⟨rest, rfl⟩ := head_eq_slash habsolute
    rw [slashComponents_slash] at h hlast
    rw [List.getLast?_cons_of_ne_nil (slashComponents_ne_nil rest)] at hlast
    obtain ⟨hslash, hexists⟩ := h.of_last_empty hlast (.inl rfl)
    exact tree.directoryAt hslash hexists
  · obtain ⟨c, rest, rfl⟩ := List.exists_cons_of_ne_nil hne
    have hc : c ≠ '/' := by simpa using habsolute
    have hfirst := slashComponents_head_ne rest hc
    have hlength : 2 ≤ (slashComponents (c :: rest)).length := by
      rcases hcomponents : slashComponents (c :: rest) with _ | ⟨first, _ | ⟨second, tail⟩⟩
      · exact absurd hcomponents (slashComponents_ne_nil _)
      · rw [hcomponents] at hfirst hlast
        exact absurd hlast hfirst
      · simp
    obtain ⟨hslash, hexists⟩ := h.of_last_empty hlast (.inr hlength)
    exact tree.directoryAt hslash hexists

/-- A bracket expression kept with a slash makes the scan's paths shorter. -/
theorem slashWeight_lt {pattern : Text} (h : ¬BracketsUndivided pattern) :
    slashWeight (splitComponents pattern) < slashWeight (slashComponents pattern) := by
  obtain ⟨chunks, hchunks⟩ := exists_chunks pattern
  have hspanned : 0 < (chunks.map Chunk.spanned).sum := by
    rw [Nat.pos_iff_ne_zero, ne_eq, List.sum_eq_zero_iff]
    intro hzero
    refine h ⟨chunks, hchunks, fun inside hmem => ?_⟩
    have hnone := hzero _ (List.mem_map_of_mem hmem)
    have hpos := List.length_pos_iff.mpr (slashComponents_ne_nil inside)
    simp only [Chunk.spanned] at hnone
    omega
  have hweight := slashWeight_flatMap hchunks.kept
  have hlength := hchunks.length_slashComponents
  rw [← hchunks.slashComponents] at hweight
  rw [hchunks.splitComponents]
  omega

theorem slashComponents_eq_singleton {component : Text}
    (h : (slashComponents component).length = 1) : slashComponents component = [component] := by
  induction component using slashComponents.induct with
  | case1 => rw [slashComponents]
  | case2 rest ih =>
      have hpos := List.length_pos_iff.mpr (slashComponents_ne_nil rest)
      rw [slashComponents, List.length_cons] at h
      omega
  | case3 c rest ih =>
      rw [slashComponents, length_addFront (slashComponents_ne_nil rest)] at h
      rw [slashComponents, ih h, addFront]
      rfl
  | case4 c rest hslash hescape ih =>
      have hc : slashComponents (c :: rest) = addFront [c] (slashComponents rest) := by
        rw [slashComponents]
        · exact hslash
        · exact hescape
      rw [hc, length_addFront (slashComponents_ne_nil rest)] at h
      rw [hc, ih h, addFront]
      rfl

theorem length_le_flatMap (components : List Text) :
    components.length ≤ (components.flatMap slashComponents).length := by
  induction components with
  | nil => exact le_rfl
  | cons component components ih =>
      have hpos := List.length_pos_iff.mpr (slashComponents_ne_nil component)
      rw [List.flatMap_cons, List.length_append, List.length_cons]
      omega

theorem flatMap_eq_self {components : List Text}
    (h : (components.flatMap slashComponents).length = components.length) :
    components.flatMap slashComponents = components := by
  induction components with
  | nil => rfl
  | cons component components ih =>
      have hpos := List.length_pos_iff.mpr (slashComponents_ne_nil component)
      have hle := length_le_flatMap components
      rw [List.flatMap_cons, List.length_append, List.length_cons] at h
      rw [List.flatMap_cons, slashComponents_eq_singleton (by omega), ih (by omega),
        List.singleton_append]

/-- With no slash in a bracket expression the scan divides at the unescaped slashes. -/
theorem BracketsUndivided.splitComponents_eq {pattern : Text} (h : BracketsUndivided pattern) :
    splitComponents pattern = slashComponents pattern := by
  obtain ⟨chunks, hchunks, hundivided⟩ := h
  have hspanned : (chunks.map Chunk.spanned).sum = 0 := by
    rw [List.sum_eq_zero_iff]
    intro n hn
    obtain ⟨chunk, hmem, rfl⟩ := List.mem_map.mp hn
    cases chunk with
    | bracket inside => simp [Chunk.spanned, hundivided inside hmem]
    | _ => rfl
  have hlength := hchunks.length_slashComponents
  rw [hspanned, Nat.add_zero, hchunks.slashComponents] at hlength
  rw [hchunks.splitComponents, hchunks.slashComponents]
  exact (flatMap_eq_self hlength).symm

/--
The law holds where no bracket expression is kept with a slash in it; and
elsewhere when there is nothing to find by either division.
-/
theorem expansionLaw_iff (pattern : Text) (tree : DirectoryTree) :
    ExpansionLaw pattern tree ↔ BracketsUndivided pattern ∨
      ((∀ path, ¬NamesFrom tree pattern (splitComponents pattern) path) ∧
        ∀ path, ¬NamesFrom tree pattern (slashComponents pattern) path) := by
  have hsplit : pattern.head? = some '/' → (splitComponents pattern).head? = some [] := by
    intro habsolute
    obtain ⟨rest, rfl⟩ := head_eq_slash habsolute
    rw [splitComponents_slash]
    rfl
  have hslash : pattern.head? = some '/' → (slashComponents pattern).head? = some [] := by
    intro habsolute
    obtain ⟨rest, rfl⟩ := head_eq_slash habsolute
    rw [slashComponents_slash]
    rfl
  constructor
  · rintro ⟨hfound, -⟩
    by_cases hundivided : BracketsUndivided pattern
    · exact .inl hundivided
    · have hnone : ∀ path, ¬NamesFrom tree pattern (splitComponents pattern) path := by
        intro path hnames
        have hcount := hnames.count_slash hsplit
        have hcount' := ((hfound path).mp (mem_expandPathname.mpr hnames)).count_slash hslash
        have hlt := slashWeight_lt hundivided
        omega
      refine .inr ⟨hnone, fun path hnames => ?_⟩
      exact hnone path (mem_expandPathname.mp ((hfound path).mpr hnames))
  · intro h
    have hfound : ∀ path, path ∈ expandPathname pattern tree.toPathnameSource ↔
        NamesFrom tree pattern (slashComponents pattern) path := by
      intro path
      rw [mem_expandPathname]
      rcases h with hundivided | ⟨hnone, hnone'⟩
      · rw [hundivided.splitComponents_eq]
      · exact iff_of_false (hnone path) (hnone' path)
    refine ⟨hfound, expandPathname_sorted _ _, expandPathname_nodup _ _, ?_⟩
    intro hne hlast path hpath
    exact ((hfound path).mp hpath).directoryAt hne hlast

/-- The working directory holds one file `x`, and nothing else holds anything. -/
def fileEntries (path : Text) : List DirectoryEntry :=
  if path = ['.'] then [⟨['x'], false⟩] else []

theorem mem_fileEntries {path : Text} {entry : DirectoryEntry} :
    entry ∈ fileEntries path ↔ path = ['.'] ∧ entry = ⟨['x'], false⟩ := by
  unfold fileEntries
  split_ifs with h <;> simp [h]

theorem directoryOf_eq_here {pathPrefix : Text} (h : IsPrefix pathPrefix)
    (hhere : directoryOf pathPrefix = ['.']) : pathPrefix = [] ∨ pathPrefix = ['.', '/'] := by
  unfold directoryOf at hhere
  split_ifs at hhere with hempty hroot
  · exact .inl hempty
  · simp at hhere
  · rcases h with hempty' | hslash
    · exact .inl hempty'
    · right
      have := List.dropLast_append_getLast? '/' hslash
      rw [← this, hhere]
      rfl

theorem directoryAt_fileEntries {path : Text} :
    DirectoryAt fileEntries path ↔ path ≠ [] ∧ ∀ c ∈ path, c = '/' := by
  constructor
  · intro h
    induction h with
    | root => simp
    | entry prefix_shape listed is_dir =>
        obtain ⟨-, rfl⟩ := mem_fileEntries.mp listed
        cases is_dir
    | doubled directory ih => simpa using ih
  · rintro ⟨hne, hall⟩
    rw [List.eq_replicate_of_mem hall]
    have hpos := List.length_pos_iff.mpr hne
    generalize path.length = n at hpos
    induction n with
    | zero => omega
    | succ n ih =>
        cases n with
        | zero => exact .root
        | succ n =>
            have := ih (by omega)
            rw [List.replicate_succ'] at this
            have := this.doubled
            simpa [List.replicate_succ'] using this

def fileTree : DirectoryTree where
  readDirectory := fileEntries
  pathExists path := path == ['x'] || path == ['.', '/', 'x'] || path.all (· == '/')
  distinct path := by
    unfold fileEntries
    split_ifs <;> simp
  slash_free path entry hentry := by
    obtain ⟨-, rfl⟩ := mem_fileEntries.mp hentry
    decide
  exists_iff path hne := by
    simp only [Bool.or_eq_true, beq_iff_eq, List.all_eq_true]
    constructor
    · rintro ((rfl | rfl) | hall)
      · have hentry : (⟨['x'], false⟩ : DirectoryEntry) ∈ fileEntries (directoryOf []) := by decide
        exact Present.entry (.inl rfl) hentry (by decide)
      · have hentry : (⟨['x'], false⟩ : DirectoryEntry) ∈
            fileEntries (directoryOf ['.', '/']) := by decide
        exact Present.entry (.inr rfl) hentry (by decide)
      · exact .directory (directoryAt_fileEntries.mpr ⟨hne, hall⟩)
    · intro hpresent
      cases hpresent with
      | entry prefix_shape listed named =>
          obtain ⟨hhere, rfl⟩ := mem_fileEntries.mp listed
          rcases directoryOf_eq_here prefix_shape hhere with rfl | rfl <;> simp
      | directory directory => exact .inr (directoryAt_fileEntries.mp directory).2

/-- `[[:/:]x]` is two components, but it is matched with the file as one. -/
theorem expansionLaw_slashInClass : ¬ExpansionLaw (text "[[:/:]x]") fileTree := by
  rintro ⟨hfound, -⟩
  have hmem : ['x'] ∈ expandPathname (text "[[:/:]x]") fileTree.toPathnameSource := by
    decide +kernel
  have hcount := ((hfound ['x']).mp hmem).count_slash (by decide)
  have hweight : slashWeight (slashComponents (text "[[:/:]x]")) = 2 := by decide +kernel
  rw [hweight] at hcount
  cases hcount

end Haisos.Hsh
