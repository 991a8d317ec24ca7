import Mathlib.Tactic
import Haisos.Hsh.Text

/-!
# Virtual paths

`VirtualPath.h` on a host whose only separator is `/`.  A normalized path is the
text of a list of segments; the functions that cut texts are shown to be what they
should be on lists of segments.
-/

namespace Haisos.Filesystem

open Hsh (Text text)

/-- What `AppendVirtualPathSegments` does at the end of a segment. -/
def endSegment (segments : List Text) (stayedWithin : Bool) (segment : Text) :
    List Text × Bool :=
  if segment = ['.', '.'] then
    if segments = [] then (segments, false) else (segments.dropLast, stayedWithin)
  else if segment ≠ [] ∧ segment ≠ ['.'] then (segments ++ [segment], stayedWithin)
  else (segments, stayedWithin)

def appendSegmentsFrom : Text → Text → List Text → Bool → List Text × Bool
  | segment, [], segments, stayedWithin => endSegment segments stayedWithin segment
  | segment, c :: rest, segments, stayedWithin =>
      if c = '/' then
        let ended := endSegment segments stayedWithin segment
        appendSegmentsFrom [] rest ended.1 ended.2
      else appendSegmentsFrom (segment ++ [c]) rest segments stayedWithin

/-- The segments, and whether no `..` climbed above where they started. -/
def appendVirtualPathSegments (path : Text) (segments : List Text) : List Text × Bool :=
  appendSegmentsFrom [] path segments true

def joinSegments (segments : List Text) : Text := segments.flatMap fun s => '/' :: s

/-- The normalized path with these segments. -/
def render (segments : List Text) : Text :=
  if segments = [] then ['/'] else joinSegments segments

def virtualSegments (path base : Text) : List Text :=
  let start :=
    if path.head? = some '/' then [] else (appendVirtualPathSegments base []).1
  (appendVirtualPathSegments path start).1

def normalizeVirtualPath (path : Text) (base : Text := ['/']) : Text :=
  render (virtualSegments path base)

/-- `path.compare(0, base.size(), base) == 0`. -/
def startsWith (path base : Text) : Bool := base.isPrefixOf path

def relativeToBase (normalizedBase normalizedPath : Text) : Option Text :=
  if normalizedPath = normalizedBase then some ['/']
  else
    let base := if normalizedBase = ['/'] then ['/'] else normalizedBase ++ ['/']
    if startsWith normalizedPath base then
      some (normalizedPath.drop (base.length - 1))
    else none

/-- The text before the last `/`, if there is one. -/
def beforeLastSlash (path : Text) : Option Text :=
  if '/' ∈ path then some ((path.reverse.dropWhile (· ≠ '/')).drop 1).reverse else none

def virtualParentOf (normalizedPath : Text) : Text :=
  match beforeLastSlash normalizedPath with
  | none => ['/']
  | some [] => ['/']
  | some parent => parent

def virtualLastSegment (normalizedPath : Text) : Text :=
  (normalizedPath.reverse.takeWhile (· ≠ '/')).reverse

/-! ## Segments -/

structure IsSegment (s : Text) : Prop where
  ne_nil : s ≠ []
  ne_dot : s ≠ ['.']
  ne_dotDot : s ≠ ['.', '.']
  slashFree : '/' ∉ s

/-- A list of names that may be the segments of a normalized path. -/
def AreSegments (segments : List Text) : Prop := ∀ s ∈ segments, IsSegment s

instance (s : Text) : Decidable (IsSegment s) :=
  decidable_of_iff (s ≠ [] ∧ s ≠ ['.'] ∧ s ≠ ['.', '.'] ∧ '/' ∉ s)
    ⟨fun h => ⟨h.1, h.2.1, h.2.2.1, h.2.2.2⟩,
      fun h => ⟨h.ne_nil, h.ne_dot, h.ne_dotDot, h.slashFree⟩⟩

instance (segments : List Text) : Decidable (AreSegments segments) :=
  inferInstanceAs (Decidable (∀ s ∈ segments, IsSegment s))

theorem areSegments_nil : AreSegments [] := fun _ h => nomatch h

theorem AreSegments.append {p q : List Text} (hp : AreSegments p) (hq : AreSegments q) :
    AreSegments (p ++ q) := fun s h => (List.mem_append.1 h).elim (hp s) (hq s)

theorem AreSegments.left {p q : List Text} (h : AreSegments (p ++ q)) : AreSegments p :=
  fun s hs => h s (List.mem_append_left q hs)

theorem AreSegments.right {p q : List Text} (h : AreSegments (p ++ q)) : AreSegments q :=
  fun s hs => h s (List.mem_append_right p hs)

theorem AreSegments.dropLast {p : List Text} (h : AreSegments p) : AreSegments p.dropLast :=
  fun s hs => h s (List.dropLast_subset p hs)

theorem endSegment_areSegments {segments : List Text} (h : AreSegments segments)
    (stayedWithin : Bool) {segment : Text} (hfree : '/' ∉ segment) :
    AreSegments (endSegment segments stayedWithin segment).1 := by
  unfold endSegment
  split_ifs with hdots hempty hname
  · exact h
  · exact h.dropLast
  · refine h.append fun s hs => ?_
    rw [List.mem_singleton.1 hs]
    exact ⟨hname.1, hname.2, hdots, hfree⟩
  · exact h

theorem appendSegmentsFrom_areSegments (path : Text) {segment : Text} {segments : List Text}
    (h : AreSegments segments) (stayedWithin : Bool) (hfree : '/' ∉ segment) :
    AreSegments (appendSegmentsFrom segment path segments stayedWithin).1 := by
  induction path generalizing segment segments stayedWithin with
  | nil => exact endSegment_areSegments h stayedWithin hfree
  | cons c rest ih =>
      rw [appendSegmentsFrom]
      split_ifs with hslash
      · exact ih (endSegment_areSegments h stayedWithin hfree) _ (List.not_mem_nil)
      · refine ih h stayedWithin fun hin => ?_
        rcases List.mem_append.1 hin with hin | hin
        · exact hfree hin
        · exact hslash (List.mem_singleton.1 hin).symm

theorem virtualSegments_areSegments (path base : Text) :
    AreSegments (virtualSegments path base) := by
  unfold virtualSegments
  refine appendSegmentsFrom_areSegments path ?_ true (List.not_mem_nil)
  split_ifs
  · exact areSegments_nil
  · exact appendSegmentsFrom_areSegments base areSegments_nil true (List.not_mem_nil)

/-! ## Texts of segments -/

@[simp]
theorem joinSegments_nil : joinSegments [] = [] := rfl

@[simp]
theorem joinSegments_cons (s : Text) (p : List Text) :
    joinSegments (s :: p) = '/' :: (s ++ joinSegments p) := rfl

@[simp]
theorem joinSegments_append (p q : List Text) :
    joinSegments (p ++ q) = joinSegments p ++ joinSegments q := by
  simp [joinSegments]

def EndsSegment (t : Text) : Prop := t = [] ∨ t.head? = some '/'

theorem endsSegment_join (p : List Text) : EndsSegment (joinSegments p) := by
  cases p with
  | nil => exact .inl rfl
  | cons s p => exact .inr rfl

theorem EndsSegment.join_append (p : List Text) {t : Text} (h : EndsSegment t) :
    EndsSegment (joinSegments p ++ t) := by
  cases p with
  | nil => exact h
  | cons s p => exact .inr rfl

theorem takeWhile_segment {s t : Text} (hfree : '/' ∉ s) (h : EndsSegment t) :
    (s ++ t).takeWhile (· ≠ '/') = s := by
  have hs : ∀ c ∈ s, (c ≠ '/' : Bool) = true := by
    intro c hc
    simp only [ne_eq, decide_not, Bool.not_eq_true', decide_eq_false_iff_not]
    rintro rfl
    exact hfree hc
  rw [List.takeWhile_append_of_pos (by simpa using hs)]
  rcases h with rfl | hhead
  · simp
  · cases t with
    | nil => simp
    | cons c t =>
        cases hhead
        simp

/-- Two ways to cut a text into a slash-free name and what ends it are one. -/
theorem segment_append_inj {s s' t t' : Text} (hs : '/' ∉ s) (hs' : '/' ∉ s')
    (ht : EndsSegment t) (ht' : EndsSegment t') (h : s ++ t = s' ++ t') :
    s = s' ∧ t = t' := by
  have hname : s = s' := by
    rw [← takeWhile_segment hs ht, h, takeWhile_segment hs' ht']
  subst hname
  exact ⟨rfl, List.append_cancel_left h⟩

theorem join_append_inv {p m : List Text} (hp : AreSegments p) (hm : AreSegments m)
    {t : Text} (ht : EndsSegment t) (h : joinSegments p = joinSegments m ++ t) :
    ∃ r, p = m ++ r ∧ t = joinSegments r := by
  induction m generalizing p with
  | nil => exact ⟨p, rfl, by simpa using h.symm⟩
  | cons s m ih =>
      cases p with
      | nil => simp at h
      | cons s' p =>
          simp only [joinSegments_cons, List.cons_append, List.cons.injEq, true_and,
            List.append_assoc] at h
          obtain ⟨rfl, hrest⟩ := segment_append_inj (hp s' List.mem_cons_self).slashFree
            (hm s List.mem_cons_self).slashFree (endsSegment_join p)
            (ht.join_append m) h
          obtain ⟨r, rfl, rfl⟩ := ih (fun x hx => hp x (List.mem_cons_of_mem _ hx))
            (fun x hx => hm x (List.mem_cons_of_mem _ hx)) hrest
          exact ⟨r, rfl, rfl⟩

theorem joinSegments_inj {p q : List Text} (hp : AreSegments p) (hq : AreSegments q)
    (h : joinSegments p = joinSegments q) : p = q := by
  obtain ⟨r, rfl, hr⟩ := join_append_inv hp hq (t := []) (.inl rfl) (by simpa using h)
  cases r with
  | nil => simp
  | cons s r => simp at hr

@[simp]
theorem joinSegments_eq_nil {p : List Text} : joinSegments p = [] ↔ p = [] := by
  cases p <;> simp

@[simp]
theorem render_nil : render [] = ['/'] := rfl

theorem render_of_ne_nil {p : List Text} (h : p ≠ []) : render p = joinSegments p := if_neg h

theorem joinSegments_ne_slash {p : List Text} (hp : AreSegments p) :
    joinSegments p ≠ ['/'] := by
  cases p with
  | nil => simp
  | cons s p =>
      have hne := (hp s List.mem_cons_self).ne_nil
      simp [hne]

theorem render_eq_slash {p : List Text} (hp : AreSegments p) :
    render p = ['/'] ↔ p = [] := by
  constructor
  · intro h
    by_contra hne
    rw [render_of_ne_nil hne] at h
    exact joinSegments_ne_slash hp h
  · rintro rfl
    rfl

theorem render_inj {p q : List Text} (hp : AreSegments p) (hq : AreSegments q) :
    render p = render q ↔ p = q := by
  constructor
  · intro h
    rcases eq_or_ne q [] with rfl | hqne
    · exact (render_eq_slash hp).1 h
    · rcases eq_or_ne p [] with rfl | hpne
      · exact ((render_eq_slash hq).1 h.symm).symm
      · rw [render_of_ne_nil hpne, render_of_ne_nil hqne] at h
        exact joinSegments_inj hp hq h
  · rintro rfl
    rfl

/-! ## Normalizing -/

theorem appendSegmentsFrom_name (segment : Text) {s : Text} (hfree : '/' ∉ s) (t : Text)
    (segments : List Text) (stayedWithin : Bool) :
    appendSegmentsFrom segment (s ++ t) segments stayedWithin =
      appendSegmentsFrom (segment ++ s) t segments stayedWithin := by
  induction s generalizing segment with
  | nil => simp
  | cons c s ih =>
      have hc : c ≠ '/' := fun h => hfree (h ▸ List.mem_cons_self)
      rw [List.cons_append, appendSegmentsFrom, if_neg hc,
        ih _ fun h => hfree (List.mem_cons_of_mem _ h)]
      simp

theorem endSegment_name (segments : List Text) (stayedWithin : Bool) {s : Text}
    (hs : IsSegment s) :
    endSegment segments stayedWithin s = (segments ++ [s], stayedWithin) := by
  rw [endSegment, if_neg hs.ne_dotDot, if_pos ⟨hs.ne_nil, hs.ne_dot⟩]

theorem appendSegmentsFrom_join (segment : Text) {p : List Text} (hp : AreSegments p)
    (segments : List Text) (stayedWithin : Bool) :
    appendSegmentsFrom segment (joinSegments p) segments stayedWithin =
      ((endSegment segments stayedWithin segment).1 ++ p,
        (endSegment segments stayedWithin segment).2) := by
  induction p generalizing segment segments stayedWithin with
  | nil => simp [appendSegmentsFrom]
  | cons s p ih =>
      have hs := hp s List.mem_cons_self
      rw [joinSegments_cons, appendSegmentsFrom, if_pos rfl,
        appendSegmentsFrom_name _ hs.slashFree, List.nil_append,
        ih _ (fun x hx => hp x (List.mem_cons_of_mem _ hx)), endSegment_name _ _ hs]
      simp

theorem appendSegmentsFrom_slash (segment d t : Text) (segments : List Text)
    (stayedWithin : Bool) :
    appendSegmentsFrom segment (d ++ '/' :: t) segments stayedWithin =
      appendSegmentsFrom [] t (appendSegmentsFrom segment d segments stayedWithin).1
        (appendSegmentsFrom segment d segments stayedWithin).2 := by
  induction d generalizing segment segments stayedWithin with
  | nil => simp [appendSegmentsFrom]
  | cons c d ih =>
      rw [List.cons_append, appendSegmentsFrom, appendSegmentsFrom]
      split_ifs
      · exact ih _ _ _
      · exact ih _ _ _

theorem head?_render (p : List Text) : (render p).head? = some '/' := by
  cases p with
  | nil => rfl
  | cons s p => rfl

@[simp]
theorem virtualSegments_render {p : List Text} (hp : AreSegments p) (base : Text) :
    virtualSegments (render p) base = p := by
  rw [virtualSegments, if_pos (head?_render p), appendVirtualPathSegments]
  rcases eq_or_ne p [] with rfl | hne
  · simp [appendSegmentsFrom, endSegment]
  · rw [render_of_ne_nil hne, appendSegmentsFrom_join _ hp]
    simp [endSegment]

@[simp]
theorem normalizeVirtualPath_render {p : List Text} (hp : AreSegments p) (base : Text) :
    normalizeVirtualPath (render p) base = render p := by
  rw [normalizeVirtualPath, virtualSegments_render hp]

theorem virtualSegments_entry (d : Text) {s : Text} (hs : IsSegment s) :
    virtualSegments (d ++ '/' :: s) ['/'] = virtualSegments d ['/'] ++ [s] := by
  have hroot : (appendVirtualPathSegments ['/'] []).1 = [] := by
    simp [appendVirtualPathSegments, appendSegmentsFrom, endSegment]
  have hstart : ∀ path, virtualSegments path ['/'] =
      (appendSegmentsFrom [] path [] true).1 := by
    intro path
    rw [virtualSegments, hroot, ite_self, appendVirtualPathSegments]
  have hname := appendSegmentsFrom_name [] hs.slashFree []
  simp only [List.append_nil, List.nil_append] at hname
  rw [hstart, hstart, appendSegmentsFrom_slash, hname, appendSegmentsFrom,
    endSegment_name _ _ hs]

/-! ## Parents and last segments -/

theorem virtualParentOf_append {p : List Text} (hp : AreSegments p) {s : Text}
    (hs : IsSegment s) : virtualParentOf (render (p ++ [s])) = render p := by
  have hreverse : (joinSegments p ++ '/' :: s).reverse.dropWhile (· ≠ '/') =
      '/' :: (joinSegments p).reverse := by
    have hall : ∀ c ∈ s.reverse, (c ≠ '/' : Bool) = true := by
      intro c hc
      simp only [ne_eq, decide_not, Bool.not_eq_true', decide_eq_false_iff_not]
      rintro rfl
      exact hs.slashFree (List.mem_reverse.1 hc)
    rw [List.reverse_append, List.reverse_cons, List.append_assoc,
      List.dropWhile_append_of_pos (by simpa using hall)]
    simp
  have hbefore : beforeLastSlash (render (p ++ [s])) = some (joinSegments p) := by
    rw [render_of_ne_nil (by simp), joinSegments_append, joinSegments_cons, joinSegments_nil,
      List.append_nil, beforeLastSlash, if_pos (by simp), hreverse]
    simp
  rw [virtualParentOf, hbefore]
  rcases eq_or_ne p [] with rfl | hne
  · rfl
  · rw [render_of_ne_nil hne]
    cases hjoin : joinSegments p with
    | nil => exact absurd (joinSegments_eq_nil.1 hjoin) hne
    | cons c t => rfl

@[simp]
theorem virtualParentOf_root : virtualParentOf ['/'] = ['/'] := rfl

theorem virtualLastSegment_append (p : List Text) {s : Text} (hs : IsSegment s) :
    virtualLastSegment (render (p ++ [s])) = s := by
  have hall : ∀ c ∈ s.reverse, (c ≠ '/' : Bool) = true := by
    intro c hc
    simp only [ne_eq, decide_not, Bool.not_eq_true', decide_eq_false_iff_not]
    rintro rfl
    exact hs.slashFree (List.mem_reverse.1 hc)
  rw [virtualLastSegment, render_of_ne_nil (by simp), joinSegments_append, joinSegments_cons,
    joinSegments_nil, List.append_nil, List.reverse_append, List.reverse_cons,
    List.append_assoc, List.takeWhile_append_of_pos (by simpa using hall)]
  simp

/-! ## Paths below a directory -/

theorem startsWith_join_iff {p m : List Text} (hp : AreSegments p) (hm : AreSegments m) :
    (∃ t, EndsSegment t ∧ joinSegments p = joinSegments m ++ t) ↔ m <+: p := by
  constructor
  · rintro ⟨t, ht, h⟩
    obtain ⟨r, rfl, -⟩ := join_append_inv hp hm ht h
    exact List.prefix_append m r
  · rintro ⟨r, rfl⟩
    exact ⟨joinSegments r, endsSegment_join r, joinSegments_append m r⟩

theorem startsWith_slash_iff {p m : List Text} (hp : AreSegments p) (hm : AreSegments m)
    (hne : m ≠ []) :
    startsWith (render p) (render m ++ ['/']) = true ↔ m <+: p ∧ p ≠ m := by
  rw [render_of_ne_nil hne]
  constructor
  · intro h
    obtain ⟨t, ht⟩ := List.isPrefixOf_iff_prefix.1 h
    have hpne : p ≠ [] := by
      rintro rfl
      have hlength := congrArg List.length ht
      have hpos := List.length_pos_of_ne_nil (mt joinSegments_eq_nil.1 hne)
      simp only [List.length_append, render_nil, List.length_cons, List.length_nil] at hlength
      omega
    rw [render_of_ne_nil hpne, List.append_assoc] at ht
    obtain ⟨r, rfl, hr⟩ := join_append_inv hp hm (.inr rfl) ht.symm
    refine ⟨List.prefix_append m r, fun hsame => ?_⟩
    have hnil : r = [] := by simpa using hsame
    simp [hnil] at hr
  · rintro ⟨⟨r, rfl⟩, hdiff⟩
    have hrne : r ≠ [] := by
      rintro rfl
      exact hdiff (List.append_nil m)
    obtain ⟨s, r, rfl⟩ := List.exists_cons_of_ne_nil hrne
    refine List.isPrefixOf_iff_prefix.2 ⟨s ++ joinSegments r, ?_⟩
    rw [render_of_ne_nil (by simp)]
    simp

theorem relativeToBase_append {m r : List Text} (hm : AreSegments m) (hr : AreSegments r) :
    relativeToBase (render m) (render (m ++ r)) = some (render r) := by
  rcases eq_or_ne r [] with rfl | hrne
  · simp [relativeToBase]
  · have hdiff : render (m ++ r) ≠ render m := by
      rw [Ne, render_inj (hm.append hr) hm]
      simpa using hrne
    obtain ⟨s, r, rfl⟩ := List.exists_cons_of_ne_nil hrne
    rw [relativeToBase, if_neg hdiff]
    rcases eq_or_ne m [] with rfl | hmne
    · simp [render_of_ne_nil, startsWith]
    · have hslash : render m ≠ ['/'] := mt (render_eq_slash hm).1 hmne
      have hstart := (startsWith_slash_iff (hm.append hr) hm hmne).2
        ⟨List.prefix_append m _, by simp⟩
      simp only [if_neg hslash, hstart, if_true]
      rw [render_of_ne_nil hmne, render_of_ne_nil (by simp), render_of_ne_nil (by simp),
        joinSegments_append]
      simp

end Haisos.Filesystem
