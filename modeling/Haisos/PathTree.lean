import Mathlib.Tactic

/-!
# Trees of directories

A tree over names `ν`, its files holding contents `β`: what stands at each path,
if anything does.  The updates are those of a reference filesystem: the missing
directories of a path are added, a file is put at a path, and what is at a path
or below it is taken away.
-/

namespace PathTree

inductive Entry (β : Type*) where
  | dir
  | file (content : β)
  deriving DecidableEq, Repr

variable {ν β : Type*}

abbrev Tree (ν β : Type*) := List ν → Option (Entry β)

/-- What has an entry of its own in it is a directory, and the root is one. -/
structure WellFormed (t : Tree ν β) : Prop where
  root : t [] = some .dir
  parents : ∀ p s, t (p ++ [s]) ≠ none → t p = some .dir

def Blocked (t : Tree ν β) (p : List ν) : Prop :=
  ∃ q content, q <+: p ∧ t q = some (.file content)

/-- Nothing that was there is gone or different. -/
def Kept (t t' : Tree ν β) : Prop := ∀ q e, t q = some e → t' q = some e

theorem Kept.refl (t : Tree ν β) : Kept t t := fun _ _ h => h

theorem Kept.trans {t t' t'' : Tree ν β} (h : Kept t t') (h' : Kept t' t'') : Kept t t'' :=
  fun q e hq => h' q e (h q e hq)

section

variable [DecidableEq ν]

def ensure (p : List ν) (t : Tree ν β) : Tree ν β :=
  fun q => if q <+: p ∧ t q = none then some .dir else t q

def put (p : List ν) (content : β) (t : Tree ν β) : Tree ν β :=
  Function.update (ensure p.dropLast t) p (some (.file content))

def remove (p : List ν) (t : Tree ν β) : Tree ν β := fun q => if p <+: q then none else t q

end

/-! ## What stands above a path -/

theorem concat_prefix_append_cons (p : List ν) (s : ν) (r : List ν) : p ++ [s] <+: p ++ s :: r :=
  ⟨r, by simp⟩

namespace WellFormed

variable {t : Tree ν β} {p q r : List ν} {s : ν}

theorem above (h : WellFormed t) (hr : r ≠ []) (hthere : t (p ++ r) ≠ none) :
    t p = some .dir := by
  induction r using List.reverseRecOn with
  | nil => exact absurd rfl hr
  | append_singleton r s ih =>
      rw [← List.append_assoc] at hthere
      have hparent := h.parents (p ++ r) s hthere
      by_cases hr' : r = []
      · rwa [hr', List.append_nil] at hparent
      · exact ih hr' (by rw [hparent]; simp)

theorem dir_of_le (h : WellFormed t) (hp : t p = some .dir) (hle : q <+: p) :
    t q = some .dir := by
  obtain ⟨r, rfl⟩ := hle
  by_cases hr : r = []
  · rwa [hr, List.append_nil] at hp
  · exact h.above hr (by rw [hp]; simp)

theorem none_below (h : WellFormed t) (hp : t p ≠ some .dir) (hr : r ≠ []) :
    t (p ++ r) = none := by
  by_contra hthere
  exact hp (h.above hr hthere)

theorem not_blocked (h : WellFormed t) (hp : t p = some .dir) : ¬ Blocked t p := by
  rintro ⟨q, content, hle, hq⟩
  rw [h.dir_of_le hp hle] at hq
  cases hq

theorem prefix_append_cons {q : List ν} (hle : q <+: p ++ s :: r) :
    q <+: p ∨ ∃ r', q = p ++ s :: r' := by
  rcases List.prefix_or_prefix_of_prefix hle (List.prefix_append p (s :: r)) with h | ⟨r', rfl⟩
  · exact .inl h
  · rcases r' with _ | ⟨s', r'⟩
    · exact .inl (by simp)
    · have hle' := (List.prefix_append_right_inj p).mp hle
      obtain ⟨rfl, -⟩ := List.cons_prefix_cons.mp hle'
      exact .inr ⟨r', rfl⟩

theorem not_blocked_of_absent (h : WellFormed t) (hp : t p = some .dir)
    (habsent : t (p ++ [s]) = none) : ¬ Blocked t (p ++ s :: r) := by
  rintro ⟨q, content, hle, hq⟩
  rcases prefix_append_cons hle with hle | ⟨r', rfl⟩
  · exact h.not_blocked hp ⟨q, content, hle, hq⟩
  · have hnone : t (p ++ [s] ++ r') = none := by
      by_cases hr' : r' = []
      · rw [hr', List.append_nil, habsent]
      · exact h.none_below (by simp [habsent]) hr'
    rw [← List.append_cons] at hnone
    rw [hnone] at hq
    cases hq

end WellFormed

theorem blocked_of_file {t : Tree ν β} {p r : List ν} {s : ν} {content : β}
    (h : t (p ++ [s]) = some (.file content)) : Blocked t (p ++ s :: r) :=
  ⟨p ++ [s], content, concat_prefix_append_cons p s r, h⟩

/-! ## Updates -/

section

variable [DecidableEq ν] {t : Tree ν β} {p q r : List ν} {s : ν}

theorem ensure_dir (h : WellFormed t) (hp : t p = some .dir) : ensure p t = t := by
  funext q
  rw [ensure]
  split_ifs with hq
  · rw [h.dir_of_le hp hq.1] at hq
    exact absurd hq.2 (by simp)
  · rfl

/-- The directories of a path are added from the first one that is missing. -/
theorem ensure_update (habsent : t (p ++ [s]) = none) :
    ensure (p ++ s :: r) (Function.update t (p ++ [s]) (some .dir)) = ensure (p ++ s :: r) t := by
  funext q
  by_cases hq : q = p ++ [s]
  · subst hq
    have hpresent : ¬(p ++ [s] <+: p ++ s :: r ∧
        Function.update t (p ++ [s]) (some .dir) (p ++ [s]) = none) := by simp
    rw [ensure, ensure, if_neg hpresent, if_pos ⟨concat_prefix_append_cons p s r, habsent⟩,
      Function.update_self]
  · rw [ensure, ensure, Function.update_of_ne hq]

theorem ensure_eq_dir (h : ¬ Blocked t p) (hle : q <+: p) : ensure p t q = some .dir := by
  rw [ensure]
  split_ifs with hq
  · rfl
  · rcases hentry : t q with _ | entry | content
    · exact absurd ⟨hle, hentry⟩ hq
    · rfl
    · exact absurd ⟨q, content, hle, hentry⟩ h

theorem kept_update (habsent : t p = none) (entry : Option (Entry β)) :
    Kept t (Function.update t p entry) := by
  intro q e hq
  have hne : q ≠ p := by
    rintro rfl
    rw [habsent] at hq
    cases hq
  rwa [Function.update_of_ne hne]

theorem blocked_of_update_dir (h : Blocked (Function.update t q (some .dir)) p) : Blocked t p := by
  obtain ⟨r, content, hle, hr⟩ := h
  by_cases hrq : r = q
  · rw [hrq, Function.update_self] at hr
    cases hr
  · exact ⟨r, content, hle, by rwa [Function.update_of_ne hrq] at hr⟩

theorem remove_file (h : WellFormed t) {content : β} (hp : t p = some (.file content)) :
    remove p t = Function.update t p none := by
  funext q
  by_cases hq : q = p
  · rw [hq, Function.update_self, remove, if_pos List.prefix_rfl]
  · rw [Function.update_of_ne hq, remove]
    split_ifs with hle
    · obtain ⟨r, rfl⟩ := hle
      refine (h.none_below ?_ ?_).symm
      · simp [hp]
      · rintro rfl
        simp at hq
    · rfl

theorem ensure_child (p : List ν) (s : ν) (t : Tree ν β) :
    ensure p t (p ++ [s]) = t (p ++ [s]) := by
  have hnot : ¬ p ++ [s] <+: p := by
    intro hle
    have hlength := hle.length_le
    simp at hlength
  rw [ensure, if_neg (by simp [hnot])]

/-! ## The files after an update -/

theorem ensure_file {content : β} (h : ensure p t q = some (.file content)) :
    t q = some (.file content) := by
  rw [ensure] at h
  split_ifs at h
  · cases h
  · exact h

theorem put_file {content content' : β} (h : put p content t q = some (.file content')) :
    content' = content ∨ t q = some (.file content') := by
  by_cases hq : q = p
  · rw [hq, put, Function.update_self] at h
    cases h
    exact .inl rfl
  · rw [put, Function.update_of_ne hq] at h
    exact .inr (ensure_file h)

theorem file_of_remove {content : β} (h : remove p t q = some (.file content)) :
    t q = some (.file content) := by
  rw [remove] at h
  split_ifs at h
  exact h

/-! ## Emptying a directory -/

def removeChildren (p : List ν) (names : List ν) (t : Tree ν β) : Tree ν β :=
  names.foldl (fun t s => remove (p ++ [s]) t) t

theorem removeChildren_apply (p names : List ν) (t : Tree ν β) (q : List ν) :
    removeChildren p names t q = if ∃ s ∈ names, p ++ [s] <+: q then none else t q := by
  induction names generalizing t with
  | nil => simp [removeChildren]
  | cons s names ih =>
      have hstep : removeChildren p (s :: names) t = removeChildren p names (remove (p ++ [s]) t) :=
        rfl
      rw [hstep, ih, remove]
      by_cases hs : p ++ [s] <+: q
      · simp [hs]
      · simp [hs]

theorem update_removeChildren {names : List ν} (h : WellFormed t)
    (hnames : ∀ s, t (p ++ [s]) ≠ none → s ∈ names) :
    Function.update (removeChildren p names t) p none = remove p t := by
  funext q
  by_cases hq : q = p
  · rw [hq, Function.update_self, remove, if_pos List.prefix_rfl]
  · rw [Function.update_of_ne hq, removeChildren_apply, remove]
    by_cases hle : p <+: q
    · obtain ⟨r, rfl⟩ := hle
      rcases r with _ | ⟨s, r⟩
      · simp at hq
      · rw [if_pos (List.prefix_append _ _), List.append_cons]
        split_ifs with hremoved
        · rfl
        · by_contra hthere
          refine hremoved ⟨s, hnames s ?_, List.prefix_append _ _⟩
          by_cases hr : r = []
          · rwa [hr, List.append_nil] at hthere
          · rw [h.above hr hthere]
            simp
    · have hnot : ¬ ∃ s ∈ names, p ++ [s] <+: q := by
        rintro ⟨s, -, hs⟩
        exact hle ((List.prefix_append p [s]).trans hs)
      rw [if_neg hle, if_neg hnot]

end

/-! ## Updates that may be refused -/

inductive Update (ν β : Type*) where
  | create (p : List ν) (content : β)
  | append (p : List ν) (content : β)
  | createDir (p : List ν)
  | delete (p : List ν)
  deriving Repr

/-- What a file holds when a content is added to it; a missing one is made. -/
def appended [Append β] (t : Tree ν β) (p : List ν) (content : β) : β :=
  match t p with
  | some (.file held) => held ++ content
  | _ => content

namespace Update

def path : Update ν β → List ν
  | create p _ | append p _ | createDir p | delete p => p

/--
A file stands where a directory is needed, the target of a write is a directory or the
root, the target of a removal is missing or the root.
-/
def Refused (t : Tree ν β) : Update ν β → Prop
  | create p _ | append p _ => p = [] ∨ t p = some .dir ∨ Blocked t p.dropLast
  | createDir p => Blocked t p
  | delete p => p = [] ∨ t p = none

variable [DecidableEq ν] [Append β]

def apply (t : Tree ν β) : Update ν β → Tree ν β
  | create p content => put p content t
  | append p content => put p (appended t p content) t
  | createDir p => ensure p t
  | delete p => remove p t

def applyAll (t : Tree ν β) (updates : List (Update ν β)) : Tree ν β := updates.foldl apply t

def Allowed : Tree ν β → List (Update ν β) → Prop
  | _, [] => True
  | t, update :: updates => ¬ update.Refused t ∧ Allowed (update.apply t) updates

theorem allowed_append {t : Tree ν β} {updates more : List (Update ν β)} :
    Allowed t (updates ++ more) ↔ Allowed t updates ∧ Allowed (applyAll t updates) more := by
  induction updates generalizing t with
  | nil => simp [Allowed, applyAll]
  | cons update updates ih =>
      rw [List.cons_append, Allowed, Allowed, ih, and_assoc]
      rfl

end Update

/-! ## How deep a tree is -/

/-- Nothing is as deep as `n`. -/
def Shallow (n : Nat) (t : Tree ν β) : Prop := ∀ q, t q ≠ none → q.length < n

namespace Shallow

variable [DecidableEq ν] {n : Nat} {t : Tree ν β} {p : List ν}

theorem ensure (h : Shallow n t) (hp : p.length < n) : Shallow n (ensure p t) := by
  intro q hq
  rw [PathTree.ensure] at hq
  split_ifs at hq with hmissing
  · have hle := hmissing.1.length_le
    omega
  · exact h q hq

theorem put (h : Shallow n t) (hp : p.length < n) (content : β) : Shallow n (put p content t) := by
  intro q hq
  by_cases hqp : q = p
  · rwa [hqp]
  · rw [PathTree.put, Function.update_of_ne hqp] at hq
    have hparent : p.dropLast.length < n := by
      rw [List.length_dropLast]
      omega
    exact h.ensure hparent q hq

theorem remove (h : Shallow n t) (p : List ν) : Shallow n (remove p t) := by
  intro q hq
  rw [PathTree.remove] at hq
  split_ifs at hq with hle
  · simp at hq
  · exact h q hq

theorem apply [Append β] (h : Shallow n t) {update : Update ν β} (hpath : update.path.length < n) :
    Shallow n (update.apply t) := by
  cases update with
  | create p content => exact h.put hpath content
  | append p content => exact h.put hpath _
  | createDir p => exact h.ensure hpath
  | delete p => exact h.remove p

end Shallow

end PathTree
