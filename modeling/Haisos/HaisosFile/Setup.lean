import Haisos.HaisosFile.Root

/-!
# What a haisosfile leaves behind

The operations that stay in the root, each told by the reference update it is: it
succeeds unless the update is refused, and one that fails takes nothing away.
-/

namespace Haisos.HaisosFile

open Filesystem PathTree StateExcept
open Hsh (Text text)

section

variable {ω : Type} {t : FileTree} {p : List Name} {s : Name} {clock : Nat → FileDateTime}
  {failed : SetupFailure → Disk (RootState ω) → Prop}

structure Refuses (refused : Prop) (t : FileTree) (e : SetupFailure) (disk : Disk (RootState ω)) :
    Prop where
  failed : ∃ reason, e = .failed reason
  refused : refused
  kept : ∃ t', Kept t t' ∧ Shows t' disk

theorem giveUp_triple {α : Type} {refused : Prop} (h : refused) (reason : Text)
    {post : α → Disk (RootState ω) → Prop} :
    Triple (Shows t) (giveUp reason) post (Refuses refused t) :=
  Triple.throw_intro fun _ hdisk => ⟨⟨reason, rfl⟩, h, t, Kept.refl t, hdisk⟩

@[simp] theorem giveUp_bind {α β : Type} {σ : Type} (reason : Text) (f : α → Setup σ β) :
    giveUp reason >>= f = giveUp reason := rfl

theorem Refuses.mono {refused refused' : Prop} {t t' : FileTree} {e : SetupFailure}
    {disk : Disk (RootState ω)} (h : Refuses refused t' e disk) (himp : refused → refused')
    (hkept : Kept t t') : Refuses refused' t e disk := by
  obtain ⟨after, hafter, hshows⟩ := h.kept
  exact ⟨h.failed, himp h.refused, after, hkept.trans hafter, hshows⟩

/-! ## Directories -/

theorem pathSegments_joinSegments (p : List Name) :
    pathSegments (joinSegments (segmentsOf p)) = segmentsOf p := by
  induction p using List.reverseRecOn with
  | nil => rfl
  | append_singleton p s ih =>
      rw [segmentsOf_append, joinSegments_append]
      have hlast : joinSegments (segmentsOf [s]) = '/' :: s.1 := by simp [segmentsOf]
      rw [hlast, pathSegments, List.splitOn_append_cons_self, List.filter_append]
      rw [pathSegments] at ih
      rw [ih, List.splitOn_eq_singleton s.2.slashFree]
      simp [segmentsOf, s.2.ne_nil]

theorem pathSegments_nodePath (p : List Name) : pathSegments (nodePath p) = segmentsOf p := by
  by_cases hp : p = []
  · subst hp
    rfl
  · have hsegments : segmentsOf p ≠ [] := mt List.map_eq_nil_iff.mp hp
    rw [nodePath, render_of_ne_nil hsegments, pathSegments_joinSegments]

theorem joinSegments_segmentsOf (p : List Name) (s : Name) :
    joinSegments (segmentsOf (p ++ [s])) = nodePath (p ++ [s]) := by
  rw [nodePath, render_of_ne_nil (by simp [segmentsOf])]

theorem ensureBelow_triple (r : List Name) (hp : t p = some .dir) :
    Triple (Shows t)
      (ensureBelow clock (rootView ω) (joinSegments (segmentsOf p)) (segmentsOf r))
      (fun _ disk => ¬ Blocked t (p ++ r) ∧ Shows (ensure (p ++ r) t) disk)
      (Refuses (Blocked t (p ++ r)) t) := by
  induction r generalizing p t with
  | nil =>
      refine Triple.pure_intro fun disk h => ?_
      rw [List.append_nil, ensure_dir h.wellFormed hp]
      exact ⟨h.wellFormed.not_blocked hp, h⟩
  | cons s r ih =>
      refine Triple.of_pre fun disk h => ?_
      change Triple _ (ensureBelow clock (rootView ω) _ (s.1 :: segmentsOf r)) _ _
      unfold ensureBelow
      simp only [joinSegments_concat]
      refine Triple.at_bind (h.entryTypeOf_root (p ++ [s])) ?_
      rcases hentry : t (p ++ [s]) with _ | _ | content
      · -- the directories below are created in one that was not there
        have hfree := h.wellFormed.not_blocked_of_absent (r := r) hp hentry
        refine Triple.bind_intro ((createDirectory_triple _ hentry hp).at_state h) fun result => ?_
        refine Triple.of_pre fun after hafter => ?_
        obtain ⟨rfl, hafter⟩ := hafter
        have hbelow := ih (Function.update_self (p ++ [s]) (some Entry.dir) t)
        rw [joinSegments_segmentsOf, ← List.append_cons, ensure_update hentry] at hbelow
        rw [if_pos rfl]
        refine (hbelow.at_state hafter).consequence (fun _ => id) ?_ ?_
        · rintro - disk ⟨-, hdisk⟩
          exact ⟨hfree, hdisk⟩
        · intro e disk hrefused
          exact hrefused.mono blocked_of_update_dir (kept_update hentry _)
      · have hbelow := ih hentry
        rw [joinSegments_segmentsOf, ← List.append_cons] at hbelow
        exact hbelow.at_state h
      · exact (giveUp_triple (blocked_of_file hentry) _).at_state h

theorem ensureDirectories_triple (p : List Name) :
    Triple (Shows t) (ensureDirectories clock (rootView ω) (nodePath p))
      (fun _ disk => ¬ Blocked t p ∧ Shows (ensure p t) disk) (Refuses (Blocked t p) t) := by
  refine Triple.of_pre fun disk h => ?_
  rw [ensureDirectories, pathSegments_nodePath]
  exact (ensureBelow_triple p h.wellFormed.root).at_state h

/-! ## Writing -/

/-- What `WriteContent` leaves in the file. -/
def newContent (t : FileTree) (p : List Name) (content : List UInt8) (append : Bool) :
    List UInt8 :=
  if append then appended t p content else content

theorem opened_append (t : FileTree) (p : List Name) (content : List UInt8) (append : Bool) :
    (if append then contentAt t p else []) ++ content = newContent t p content append := by
  cases append with
  | false => rfl
  | true =>
      rw [newContent, if_pos rfl, if_pos rfl, contentAt, appended]
      rcases t p with _ | _ | held <;> rfl

/-- `content` is written to the end of what the open file `d` at `p` holds. -/
structure OpenFor (p : List Name) (d : InMemoryFileDescriptor) (held : List UInt8) : Prop where
  path : d.path = nodePath p
  writable : d.writable = true
  position : d.position = 0
  place : d.append = true ∨ held = []

theorem writeAll_triple {held data : List UInt8} {d : InMemoryFileDescriptor}
    (hopen : OpenFor p d held) (hentry : t p = some (.file held))
    (hfits : held.length + data.length ≤ sizeMax) :
    Triple (Shows t) (writeAll clock (rootView ω) (.own d) data)
      (fun written disk => written.1 = true ∧
        Shows (Function.update t p (some (.file (held ++ data)))) disk) failed := by
  cases data with
  | nil =>
      refine Triple.pure_intro fun disk h => ⟨rfl, ?_⟩
      rwa [List.append_nil, Function.update_eq_self_iff.mpr hentry.symm]
  | cons b data =>
      rw [writeAll]
      change Triple _ (writeRest clock (rootView ω) (data.length + 1) _ (b :: data)) _ _
      unfold writeRest
      refine Triple.bind_intro
        (writeFile_triple hopen.path hopen.writable hopen.position hentry hopen.place hfits)
        fun result => ?_
      refine Triple.of_pre fun disk hdisk => ?_
      obtain ⟨n, file⟩ := result
      obtain ⟨rfl, h⟩ := hdisk
      have hsome : ¬ ((b :: data).length : Int) ≤ 0 := by simp
      have hall : (b :: data).drop ((b :: data).length : Int).toNat = [] := by simp
      simp only
      rw [if_neg hsome, hall]
      unfold writeRest
      refine Triple.at_pure ?_
      exact ⟨rfl, h⟩

theorem openContent_triple (append : Bool) (hnotDir : t (p ++ [s]) ≠ some .dir)
    (hparent : t p = some .dir) :
    Triple (Shows t)
      (call clock fun now => (rootView ω).openFile now (nodePath (p ++ [s]))
        (if append then fileOpenWriteCreateAppend else fileOpenWriteCreateTruncate)
        (some fileCreateMode))
      (fun file disk => ∃ d, file = some (.own d) ∧
        OpenFor (p ++ [s]) d (if append then contentAt t (p ++ [s]) else []) ∧
        Shows (Function.update t (p ++ [s])
          (some (.file (if append then contentAt t (p ++ [s]) else [])))) disk) failed := by
  cases append with
  | false =>
      refine (openFile_triple _ rfl hnotDir hparent).consequence (fun _ => id) ?_ fun _ _ => id
      rintro file disk ⟨rfl, h⟩
      exact ⟨_, rfl, ⟨rfl, rfl, rfl, .inr rfl⟩, h⟩
  | true =>
      refine (openFile_triple _ rfl hnotDir hparent).consequence (fun _ => id) ?_ fun _ _ => id
      rintro file disk ⟨rfl, h⟩
      exact ⟨_, rfl, ⟨rfl, rfl, rfl, .inl rfl⟩, h⟩

theorem writeContent_triple {content : List UInt8} (append : Bool)
    (hfits : (newContent t (p ++ [s]) content append).length ≤ sizeMax) :
    Triple (Shows t)
      (writeContent clock (rootView ω) (nodePath (p ++ [s])) content append)
      (fun _ disk => ¬ (t (p ++ [s]) = some .dir ∨ Blocked t p) ∧
        Shows (put (p ++ [s]) (newContent t (p ++ [s]) content append) t) disk)
      (Refuses (t (p ++ [s]) = some .dir ∨ Blocked t p) t) := by
  refine Triple.of_pre fun disk h => ?_
  unfold writeContent
  refine Triple.at_bind (h.entryTypeOf_root (p ++ [s])) ?_
  by_cases hdir : t (p ++ [s]) = some .dir
  · simp only [if_pos (map_entryType_eq_dir.mpr hdir), giveUp_bind]
    exact (giveUp_triple (.inl hdir) _).at_state h
  · simp only [if_neg (mt map_entryType_eq_dir.mp hdir)]
    have hparents : Triple (Shows t)
        (ensureParentDirectories clock (rootView ω) (nodePath (p ++ [s])))
        (fun _ disk => ¬ Blocked t p ∧ Shows (ensure p t) disk)
        (Refuses (t (p ++ [s]) = some .dir ∨ Blocked t p) t) := by
      have hparent : virtualParentOf (nodePath (p ++ [s])) = nodePath p := parentOf_nodePath p s
      rw [ensureParentDirectories, hparent]
      exact (ensureDirectories_triple p).consequence (fun _ => id) (fun _ _ => id)
        fun e after hrefused => hrefused.mono .inr (Kept.refl t)
    refine Triple.bind_intro (hparents.at_state h) fun _ => ?_
    refine Triple.of_pre fun after hafter => ?_
    obtain ⟨hfree, hafter⟩ := hafter
    have hchild := ensure_child p s t
    have hsame : newContent (ensure p t) (p ++ [s]) content append =
        newContent t (p ++ [s]) content append := by
      rw [newContent, newContent, appended, appended, hchild]
    rw [← hsame] at hfits
    have hnotDir : ensure p t (p ++ [s]) ≠ some .dir := by rwa [hchild]
    have hthere : ensure p t p = some .dir := ensure_eq_dir hfree List.prefix_rfl
    refine Triple.bind_intro ((openContent_triple append hnotDir hthere).at_state hafter)
      fun file => ?_
    refine Triple.of_pre fun opened hopened => ?_
    obtain ⟨d, rfl, hopen, hopened⟩ := hopened
    rw [← opened_append, List.length_append] at hfits
    refine Triple.bind_intro
      ((writeAll_triple hopen (Function.update_self _ _ _) hfits).at_state hopened) fun written => ?_
    refine Triple.of_pre fun final hfinal => ?_
    obtain ⟨hwritten, hfinal⟩ := hfinal
    rw [if_pos hwritten]
    refine Triple.at_pure ⟨not_or.mpr ⟨hdir, hfree⟩, ?_⟩
    rw [opened_append, hsame, Function.update_idem] at hfinal
    rwa [put, List.dropLast_concat]

/-! ## Removing -/

theorem removeNames_triple {remove : Name → Setup (RootState ω) Unit} {names : List Name}
    (hnodup : names.Nodup) (hthere : ∀ s ∈ names, t (p ++ [s]) ≠ none)
    (hremove : ∀ (t' : FileTree) s, (∀ q, t' q ≠ none → t q ≠ none) → t' (p ++ [s]) ≠ none →
      Triple (Shows t') (remove s) (fun _ disk => Shows (PathTree.remove (p ++ [s]) t') disk) failed) :
    Triple (Shows t) (names.forM remove)
      (fun _ disk => Shows (removeChildren p names t) disk) failed := by
  induction names generalizing t with
  | nil => exact Triple.pure_intro fun disk h => h
  | cons s names ih =>
      obtain ⟨hnew, hnodup⟩ := List.nodup_cons.mp hnodup
      change Triple (Shows t) (remove s >>= fun _ => names.forM remove) _ _
      refine Triple.bind_intro
        (hremove t s (fun _ => id) (hthere s List.mem_cons_self)) fun _ => ?_
      refine ih hnodup (fun s' hs' => ?_) fun t' s' hsub => hremove t' s' fun q hq => ?_
      · have hnot : ¬ p ++ [s] <+: p ++ [s'] := by
          intro hle
          have hsame := (List.prefix_append_right_inj p).mp hle
          simp only [List.cons_prefix_cons, List.prefix_nil, and_true] at hsame
          exact hnew (hsame ▸ hs')
        rw [PathTree.remove, if_neg hnot]
        exact hthere s' (List.mem_cons_of_mem _ hs')
      · have hq' := hsub q hq
        rw [PathTree.remove] at hq'
        split_ifs at hq' with hle
        · exact absurd rfl hq'
        · exact hq'

theorem forM_entries {entries : List DirectoryEntry} {names : List Name}
    (hnames : entries.map (·.name) = segmentsOf names) (hp : p ≠ [])
    (remove : Text → Setup (RootState ω) Unit) :
    (entries.forM fun entry => remove (nodePath p ++ '/' :: entry.name)) =
      names.forM fun s => remove (nodePath (p ++ [s])) := by
  have hentries : (entries.map (·.name)).forM (fun name => remove (nodePath p ++ '/' :: name)) =
      entries.forM fun entry => remove (nodePath p ++ '/' :: entry.name) := List.forM_map
  have hsegments : (segmentsOf names).forM (fun name => remove (nodePath p ++ '/' :: name)) =
      names.forM fun s => remove (nodePath p ++ '/' :: s.1) := List.forM_map
  rw [← hentries, hnames, hsegments]
  simp only [nodePath_concat hp]

/-- What is at a path goes with everything below it, with fuel for its depth. -/
theorem removeTree_triple (fuel : Nat) (hthere : t (p ++ [s]) ≠ none)
    (hfuel : ∀ r, t (p ++ [s] ++ r) ≠ none → r.length < fuel) :
    Triple (Shows t) (removeTree clock (rootView ω) fuel (nodePath (p ++ [s])))
      (fun _ disk => Shows (remove (p ++ [s]) t) disk) failed := by
  induction fuel generalizing p s t with
  | zero => exact absurd (hfuel [] (by simpa using hthere)) (Nat.not_lt_zero _)
  | succ fuel ih =>
      refine Triple.of_pre fun disk h => ?_
      unfold removeTree
      refine Triple.at_bind (h.entryTypeOf_root (p ++ [s])) ?_
      rcases hentry : t (p ++ [s]) with _ | _ | content
      · exact absurd hentry hthere
      · -- a directory is removed once its children are
        have hdir : t (p ++ [s]) = some .dir := hentry
        obtain ⟨names, hnames, hnodup, hmem⟩ := localReadDirectory_children h.tree (p ++ [s])
        rw [h.files] at hmem
        rw [if_pos (map_entryType_eq_dir.mpr rfl)]
        refine Triple.at_bind (exec_get disk) ?_
        simp only
        rw [h.readDirectory_root, forM_entries hnames (by simp)]
        have hchildren : Triple (Shows t)
            (names.forM fun s' => removeTree clock (rootView ω) fuel (nodePath (p ++ [s] ++ [s'])))
            (fun _ disk => Shows (removeChildren (p ++ [s]) names t) disk) failed := by
          refine removeNames_triple hnodup (fun s' => (hmem s').mp) fun t' s' hsub hthere' => ?_
          refine ih hthere' fun r hr => ?_
          have hdepth := hfuel (s' :: r) (by simpa using hsub _ hr)
          simpa using hdepth
        refine Triple.bind_intro (hchildren.at_state h) fun _ => ?_
        refine Triple.of_pre fun after hafter => ?_
        have hself : removeChildren (p ++ [s]) names t (p ++ [s]) = some .dir := by
          rw [removeChildren_apply, if_neg (by simp), hdir]
        have hempty : ∀ name, removeChildren (p ++ [s]) names t (p ++ [s] ++ [name]) = none := by
          intro name
          by_cases hname : name ∈ names
          · rw [removeChildren_apply, if_pos ⟨name, hname, List.prefix_rfl⟩]
          · rw [removeChildren_apply, not_not.mp (mt (hmem name).mpr hname), ite_self]
        refine Triple.bind_intro ((removeDirectory_triple hself hempty).at_state hafter)
          fun result => ?_
        refine Triple.of_pre fun final hfinal => ?_
        obtain ⟨rfl, hfinal⟩ := hfinal
        rw [if_neg (by simp)]
        refine Triple.at_pure ?_
        rwa [update_removeChildren h.wellFormed fun name => (hmem name).mpr] at hfinal
      · rw [if_neg (by simp [entryType])]
        refine Triple.bind_intro ((removeFile_triple hentry).at_state h) fun result => ?_
        refine Triple.of_pre fun after hafter => ?_
        obtain ⟨rfl, hafter⟩ := hafter
        rw [if_neg (by simp)]
        refine Triple.at_pure ?_
        rwa [remove_file h.wellFormed hentry]

/-! ## One operation -/

/-- The reference update of an operation, if it stays in the root. -/
def updateOf (operation : HaisosFileOperation) : Option (Update Name (List UInt8)) :=
  let p := pathOf operation.path
  match operation.type with
  | .create => some (.create p (bytesOf operation.content))
  | .append => some (.append p (bytesOf operation.content))
  | .createDir => some (.createDir p)
  | .delete => some (.delete p)
  | .builtin | .copy | .outCopy => none

theorem path_updateOf {operation : HaisosFileOperation} {update : Update Name (List UInt8)}
    (h : updateOf operation = some update) : update.path = pathOf operation.path := by
  cases htype : operation.type <;> simp only [updateOf, htype] at h <;> cases h <;> rfl

def Writable (t : FileTree) : Update Name (List UInt8) → Prop
  | .create _ content => content.length ≤ sizeMax
  | .append p content => (appended t p content).length ≤ sizeMax
  | .createDir _ | .delete _ => True

theorem write_triple {content : List UInt8} (append : Bool) (hp : p ≠ [])
    (hfits : (newContent t p content append).length ≤ sizeMax) :
    Triple (Shows t) (writeContent clock (rootView ω) (nodePath p) content append)
      (fun _ disk => ¬ (p = [] ∨ t p = some .dir ∨ Blocked t p.dropLast) ∧
        Shows (put p (newContent t p content append) t) disk)
      (Refuses (p = [] ∨ t p = some .dir ∨ Blocked t p.dropLast) t) := by
  obtain ⟨q, s, rfl⟩ : ∃ q s, p = q ++ [s] :=
    ⟨p.dropLast, p.getLast hp, (List.dropLast_append_getLast hp).symm⟩
  rw [List.dropLast_concat]
  simp only [List.append_eq_nil_iff, List.cons_ne_self, and_false, false_or]
  exact writeContent_triple append hfits

theorem delete_triple {fuel : Nat} (hp : p ≠ []) (hfuel : Shallow fuel t) :
    Triple (Shows t)
      (do
        if (← entryTypeOf (rootView ω) (nodePath p)) = none then giveUp (text "it does not exist")
        removeTree clock (rootView ω) fuel (nodePath p))
      (fun _ disk => ¬ (p = [] ∨ t p = none) ∧ Shows (remove p t) disk)
      (Refuses (p = [] ∨ t p = none) t) := by
  refine Triple.of_pre fun disk h => ?_
  refine Triple.at_bind (h.entryTypeOf_root p) ?_
  by_cases hnone : t p = none
  · have hmissing : (t p).map entryType = none := by rw [hnone]; rfl
    simp only [if_pos hmissing, giveUp_bind]
    exact (giveUp_triple (.inr hnone) _).at_state h
  · have hthere : (t p).map entryType ≠ none := mt Option.map_eq_none_iff.mp hnone
    simp only [if_neg hthere]
    obtain ⟨q, s, rfl⟩ : ∃ q s, p = q ++ [s] :=
      ⟨p.dropLast, p.getLast hp, (List.dropLast_append_getLast hp).symm⟩
    refine ((removeTree_triple fuel hnone fun r hr => ?_).at_state h).consequence (fun _ => id)
      ?_ fun _ _ => id
    · have hdepth := hfuel _ hr
      simp only [List.length_append] at hdepth
      omega
    · intro _ final hfinal
      exact ⟨not_or.mpr ⟨hp, hnone⟩, hfinal⟩

theorem applyOne_triple {δ' : Type} {outside : Outside (RootState ω) δ'} {fuel : Nat}
    {operation : HaisosFileOperation} {update : Update Name (List UInt8)}
    (hupdate : updateOf operation = some update) (hwritable : Writable t update)
    (hfuel : Shallow fuel t) :
    Triple (Shows t) (applyOne clock fuel (rootView ω) outside operation)
      (fun _ disk => ¬ update.Refused t ∧ Shows (update.apply t) disk)
      (Refuses (update.Refused t) t) := by
  unfold applyOne
  rw [normalizeVirtualPath_eq]
  cases htype : operation.type <;> simp only [updateOf, htype] at hupdate <;> cases hupdate
  case createDir => exact ensureDirectories_triple _
  case create =>
    by_cases hroot : pathOf operation.path = []
    · simp only [if_pos (nodePath_eq_root.mpr hroot)]
      exact giveUp_triple (.inl hroot) _
    · simp only [if_neg (mt nodePath_eq_root.mp hroot)]
      exact write_triple false hroot hwritable
  case append =>
    by_cases hroot : pathOf operation.path = []
    · simp only [if_pos (nodePath_eq_root.mpr hroot)]
      exact giveUp_triple (.inl hroot) _
    · simp only [if_neg (mt nodePath_eq_root.mp hroot)]
      exact write_triple true hroot hwritable
  case delete =>
    by_cases hroot : pathOf operation.path = []
    · simp only [if_pos (nodePath_eq_root.mpr hroot)]
      exact giveUp_triple (.inl hroot) _
    · simp only [if_neg (mt nodePath_eq_root.mp hroot)]
      exact delete_triple hroot hfuel

/-! ## All of them -/

def updatesOf (operations : List HaisosFileOperation) : List (Update Name (List UInt8)) :=
  operations.filterMap updateOf

def contentSize (operations : List HaisosFileOperation) : Nat :=
  (operations.map (·.content.length)).sum

/-- The bytes of a file and those of the operations, which are all in memory at once. -/
structure FitsMemory (t : FileTree) (operations : List HaisosFileOperation) : Prop where
  contents : contentSize operations ≤ sizeMax
  files : ∀ p content, t p = some (.file content) →
    content.length + contentSize operations ≤ sizeMax

namespace FitsMemory

variable {operation : HaisosFileOperation} {operations : List HaisosFileOperation}
  {update : Update Name (List UInt8)}

theorem contentSize_cons (operation : HaisosFileOperation)
    (operations : List HaisosFileOperation) :
    contentSize (operation :: operations) =
      operation.content.length + contentSize operations := by
  simp [contentSize]

theorem length_bytesOf (content : Text) : (bytesOf content).length = content.length :=
  List.length_map _

theorem appended_le (h : FitsMemory t (operation :: operations)) (p : List Name) :
    (appended t p (bytesOf operation.content)).length + contentSize operations ≤ sizeMax := by
  have hall := h.contents
  rw [contentSize_cons] at hall
  rw [appended]
  rcases hentry : t p with _ | _ | held
  · simpa [length_bytesOf] using hall
  · simpa [length_bytesOf] using hall
  · have hheld := h.files p held hentry
    rw [contentSize_cons] at hheld
    simp only [List.length_append, length_bytesOf]
    omega

theorem writable (h : FitsMemory t (operation :: operations))
    (hupdate : updateOf operation = some update) : Writable t update := by
  have hall := h.contents
  rw [contentSize_cons] at hall
  cases htype : operation.type <;> simp only [updateOf, htype] at hupdate <;> cases hupdate
  case create =>
    change (bytesOf operation.content).length ≤ sizeMax
    rw [length_bytesOf]
    omega
  case append => exact (Nat.le_add_right _ _).trans (h.appended_le _)
  case createDir => trivial
  case delete => trivial

theorem apply (h : FitsMemory t (operation :: operations))
    (hupdate : updateOf operation = some update) : FitsMemory (update.apply t) operations := by
  have hall := h.contents
  rw [contentSize_cons] at hall
  have hfile : ∀ p content, t p = some (.file content) →
      content.length + contentSize operations ≤ sizeMax := by
    intro p content hentry
    have hle := h.files p content hentry
    rw [contentSize_cons] at hle
    omega
  refine ⟨by omega, fun p content hentry => ?_⟩
  cases htype : operation.type <;> simp only [updateOf, htype] at hupdate <;> cases hupdate
  case create =>
    rcases put_file hentry with rfl | hentry
    · rwa [length_bytesOf]
    · exact hfile p content hentry
  case append =>
    rcases put_file hentry with rfl | hentry
    · exact h.appended_le _
    · exact hfile p content hentry
  case createDir => exact hfile p content (ensure_file hentry)
  case delete => exact hfile p content (file_of_remove hentry)

end FitsMemory

/--
The operations before it have been applied, this one was refused, and nothing that was
there before it is gone or different.
-/
structure StoppedAt (t : FileTree) (before : List HaisosFileOperation)
    (operation : HaisosFileOperation) (e : SetupFailure) (disk : Disk (RootState ω)) : Prop where
  failed : ∃ reason, e = .failed (operationError operation reason)
  allowed : Update.Allowed t (updatesOf before)
  refused : ∀ update, updateOf operation = some update →
    update.Refused (Update.applyAll t (updatesOf before))
  kept : ∃ t', Kept (Update.applyAll t (updatesOf before)) t' ∧ Shows t' disk

theorem applyHaisosFileOperations_triple {δ' : Type} {outside : Outside (RootState ω) δ'}
    {fuel : Nat} {operations : List HaisosFileOperation}
    (hinside : ∀ operation ∈ operations, (updateOf operation).isSome)
    (hfits : FitsMemory t operations) (hfuel : Shallow fuel t)
    (hpaths : ∀ operation ∈ operations, (pathOf operation.path).length < fuel) :
    Triple (Shows t) (applyHaisosFileOperations clock fuel (rootView ω) outside operations)
      (fun _ disk => Update.Allowed t (updatesOf operations) ∧
        Shows (Update.applyAll t (updatesOf operations)) disk)
      (fun e disk => ∃ before operation after, operations = before ++ operation :: after ∧
        StoppedAt t before operation e disk) := by
  induction operations generalizing t with
  | nil => exact Triple.pure_intro fun disk h => ⟨trivial, h⟩
  | cons operation operations ih =>
      obtain ⟨update, hupdate⟩ := Option.isSome_iff_exists.mp (hinside operation List.mem_cons_self)
      have hupdates : updatesOf (operation :: operations) = update :: updatesOf operations :=
        List.filterMap_cons_some hupdate
      have hpath : update.path.length < fuel := by
        rw [path_updateOf hupdate]
        exact hpaths operation List.mem_cons_self
      have hone : Triple (Shows t) (applyOne clock fuel (rootView ω) outside operation) _ _ :=
        applyOne_triple hupdate (hfits.writable hupdate) hfuel
      have hrest := ih (fun other hother => hinside other (List.mem_cons_of_mem _ hother))
        (hfits.apply hupdate) (hfuel.apply hpath)
        fun other hother => hpaths other (List.mem_cons_of_mem _ hother)
      unfold applyHaisosFileOperations
      refine Triple.bind_intro (Triple.tryCatch_intro (Refuses (update.Refused t) t) hone ?_) ?_
      · rintro e disk hrefused
        obtain ⟨reason, rfl⟩ := hrefused.failed
        refine ⟨[], operation, operations, rfl, ⟨reason, rfl⟩, trivial, ?_, hrefused.kept⟩
        intro other hother
        cases hupdate.symm.trans hother
        exact hrefused.refused
      · intro _
        refine Triple.of_pre fun disk hdisk => ?_
        obtain ⟨hallowed, h⟩ := hdisk
        refine (hrest.at_state h).consequence (fun _ => id) ?_ ?_
        · rintro - final ⟨hrest, hfinal⟩
          rw [hupdates]
          exact ⟨⟨hallowed, hrest⟩, hfinal⟩
        · rintro e final ⟨before, stopped, after, rfl, hstopped⟩
          have hbefore : updatesOf (operation :: before) = update :: updatesOf before :=
            List.filterMap_cons_some hupdate
          refine ⟨operation :: before, stopped, after, rfl, hstopped.failed, ?_, ?_, ?_⟩
          · rw [hbefore]
            exact ⟨hallowed, hstopped.allowed⟩
          · rw [hbefore]
            exact hstopped.refused
          · rw [hbefore]
            exact hstopped.kept

/-! ## How much fuel there has to be -/

theorem length_le_joinSegments (p : List Name) :
    p.length ≤ (joinSegments (segmentsOf p)).length := by
  induction p with
  | nil => exact Nat.zero_le _
  | cons s p ih =>
      change p.length + 1 ≤ (joinSegments (s.1 :: segmentsOf p)).length
      rw [joinSegments_cons, List.length_cons, List.length_append]
      omega

theorem length_le_nodePath (p : List Name) : p.length ≤ (nodePath p).length := by
  by_cases hp : p = []
  · subst hp
    exact Nat.zero_le _
  · have hsegments : segmentsOf p ≠ [] := mt List.map_eq_nil_iff.mp hp
    rw [nodePath, render_of_ne_nil hsegments]
    exact length_le_joinSegments p

/-- More than the length of every path that is there or named. -/
def depthBound (fs : InMemoryFileSystem) (operations : List HaisosFileOperation) : Nat :=
  (fs.nodes.keys.map List.length).sum +
    (operations.map fun operation => (pathOf operation.path).length).sum + 1

theorem shallow_treeOf {fs : InMemoryFileSystem} {operations : List HaisosFileOperation}
    {fuel : Nat} (hfuel : depthBound fs operations ≤ fuel) : Shallow fuel (treeOf fs) := by
  intro q hq
  have hmem : nodePath q ∈ fs.nodes.keys := by
    by_contra hnot
    exact hq (treeOf_eq_none.mpr (AList.lookup_eq_none.mpr hnot))
  have hkey : (nodePath q).length ≤ (fs.nodes.keys.map List.length).sum :=
    List.le_sum_of_mem (List.mem_map_of_mem hmem)
  have hlength := length_le_nodePath q
  rw [depthBound] at hfuel
  omega

theorem length_path_lt {fs : InMemoryFileSystem} {operations : List HaisosFileOperation}
    {fuel : Nat} (hfuel : depthBound fs operations ≤ fuel) {operation : HaisosFileOperation}
    (hmem : operation ∈ operations) : (pathOf operation.path).length < fuel := by
  have hpath : (pathOf operation.path).length ≤
      (operations.map fun operation => (pathOf operation.path).length).sum :=
    List.le_sum_of_mem (List.mem_map_of_mem hmem)
  rw [depthBound] at hfuel
  omega

end

/-! ## The whole setup -/

theorem shows_root {ω : Type} {fs : InMemoryFileSystem} (h : IsTree fs) (world : ω) (ticks : Nat) :
    Shows (treeOf fs) ⟨({ content := fs }, world), ticks⟩ :=
  ⟨rfl, rfl, h, rfl⟩

/--
On an in-memory root with nothing mounted in it and no builtins, operations that stay in
the root go through exactly when no reference update is refused, and then they leave the
fold of the updates.  Otherwise they stop at an operation whose update is refused, with
everything kept that was there before it.
-/
theorem applyHaisosFileOperations_reference {ω δ' : Type} (clock : Nat → FileDateTime)
    (outside : Outside (RootState ω) δ') (fs : InMemoryFileSystem) (htree : IsTree fs)
    (world : ω) (ticks : Nat) (operations : List HaisosFileOperation)
    (hinside : ∀ operation ∈ operations, (updateOf operation).isSome)
    (hfits : FitsMemory (treeOf fs) operations) (fuel : Nat)
    (hfuel : depthBound fs operations ≤ fuel) :
    let run := exec (applyHaisosFileOperations clock fuel (rootView ω) outside operations)
      ⟨({ content := fs }, world), ticks⟩
    (run.1 = .ok () ↔ Update.Allowed (treeOf fs) (updatesOf operations)) ∧
      (run.1 = .ok () →
        treeOf run.2.state.1.content = Update.applyAll (treeOf fs) (updatesOf operations)) ∧
      ∀ e, run.1 = .error e → ∃ before operation after,
        operations = before ++ operation :: after ∧
          StoppedAt (treeOf fs) before operation e run.2 := by
  have htriple : Triple _ (applyHaisosFileOperations clock fuel (rootView ω) outside operations)
      _ _ := applyHaisosFileOperations_triple hinside hfits (shallow_treeOf hfuel)
    fun operation hmem => length_path_lt hfuel hmem
  have hroot := shows_root htree world ticks
  intro run
  have hok : run.1 = .ok () → Update.Allowed (treeOf fs) (updatesOf operations) ∧
      Shows (Update.applyAll (treeOf fs) (updatesOf operations)) run.2 :=
    fun h => htriple.ok hroot (Prod.ext h rfl)
  have herror : ∀ e, run.1 = .error e → ∃ before operation after,
      operations = before ++ operation :: after ∧
        StoppedAt (treeOf fs) before operation e run.2 :=
    fun e h => htriple.error hroot (Prod.ext h rfl)
  refine ⟨⟨fun h => (hok h).1, fun hallowed => ?_⟩, fun h => (hok h).2.files, herror⟩
  rcases hrun : run.1 with e | _
  · obtain ⟨before, operation, after, hsplit, hstopped⟩ := herror e hrun
    obtain ⟨update, hupdate⟩ := Option.isSome_iff_exists.mp (hinside operation (by simp [hsplit]))
    have hupdates : updatesOf operations = updatesOf before ++ update :: updatesOf after := by
      rw [hsplit, updatesOf, List.filterMap_append, List.filterMap_cons_some hupdate]
      rfl
    rw [hupdates, Update.allowed_append] at hallowed
    exact absurd (hstopped.refused update hupdate) hallowed.2.1
  · rfl

def sampleSetup : List HaisosFileOperation :=
  [{ type := .create, path := text "/a/./b//note", content := text "x" },
    { type := .append, path := text "/a/b/note/", content := text "y" },
    { type := .createDir, path := text "//c/d/" },
    { type := .delete, path := text "/a/b/../../c" }]

def noOutside : Outside (RootState Unit) Empty where
  placeBuiltin _ := giveUp []
  resolveHostFile _ := .error []
  createDirectories _ state := (none, state)
  physicalFileSystem _ :=
    { toOperations :=
        { openFile := fun _ _ _ _ state => (none, state)
          createDirectory := fun _ _ _ state => (-1, state)
          removeDirectory := fun _ _ state => (-1, state)
          removeFile := fun _ _ state => (-1, state)
          readDirectory := fun _ _ => []
          stat := fun _ _ => none
          isBuiltinCommand := fun _ _ => none }
      read := fun _ file _ _ => file.elim
      write := fun _ file _ _ => file.elim }

theorem sampleSetup_applied :
    (exec (applyHaisosFileOperations (fun _ => {}) 100 (rootView Unit) noOutside sampleSetup)
      ⟨({ content := .create {} }, ()), 0⟩).1 = .ok () ∧
    treeOf (exec (applyHaisosFileOperations (fun _ => {}) 100 (rootView Unit) noOutside sampleSetup)
      ⟨({ content := .create {} }, ()), 0⟩).2.state.1.content =
      Update.applyAll (treeOf (.create {})) (updatesOf sampleSetup) := by
  have hnoFile : ∀ p content, treeOf (.create {}) p ≠ some (.file content) := by
    intro p content h
    by_cases hp : nodePath p = ['/']
    · rw [treeOf, hp] at h
      cases h
    · rw [treeOf, InMemoryFileSystem.create, AList.lookup_insert_ne hp] at h
      cases h
  have hrun : (exec (applyHaisosFileOperations (fun _ => {}) 100 (rootView Unit) noOutside
      sampleSetup) ⟨({ content := .create {} }, ()), 0⟩).1 = .ok () := by decide +kernel
  exact ⟨hrun, (applyHaisosFileOperations_reference (fun _ => {}) noOutside (.create {})
    (isTree_create {}) () 0 sampleSetup (by decide)
    ⟨by decide, fun p content h => absurd h (hnoFile p content)⟩ 100 (by decide)).2.1 hrun⟩

end Haisos.HaisosFile
