import Mathlib.Data.List.Basic
import Mathlib.Tactic

/-!
# Wildcard matching

A wildcard pattern is a list of items, each either "any run of symbols" or "one
symbol of a set".  `Matches` says what a pattern accepts; `greedy` is the usual
matcher with two positions and one backtracking point, and it decides `Matches`
because a later star can always take over what an earlier one gave up.
-/

namespace Wildcard

variable {α : Type*}

inductive Item (α : Type*) where
  | any
  | one (accepts : α → Bool)

inductive Matches : List (Item α) → List α → Prop
  | nil : Matches [] []
  | one {accepts : α → Bool} {p : List (Item α)} {a : α} {t : List α} :
      accepts a = true → Matches p t → Matches (.one accepts :: p) (a :: t)
  | anyStop {p : List (Item α)} {t : List α} : Matches p t → Matches (.any :: p) t
  | anyTake {p : List (Item α)} {a : α} {t : List α} :
      Matches (.any :: p) t → Matches (.any :: p) (a :: t)

def Item.isAny : Item α → Bool
  | .any => true
  | .one _ => false

def retry (run : List (Item α) → List α → Option (List (Item α) × List α) → Bool) :
    Option (List (Item α) × List α) → Bool
  | some (q, _ :: s) => run q s (some (q, s))
  | _ => false

/--
`greedy fuel p t star`: `star` is the pattern after the last star met and the
text that star has been tried at.
-/
def greedy : Nat → List (Item α) → List α → Option (List (Item α) × List α) → Bool
  | 0, _, _, _ => false
  | _ + 1, p, [], _ => p.all Item.isAny
  | fuel + 1, p, a :: t, star =>
      match p with
      | .any :: p => greedy fuel p (a :: t) (some (p, a :: t))
      | .one accepts :: p =>
          if accepts a then greedy fuel p t star else retry (greedy fuel) star
      | [] => retry (greedy fuel) star

/-! ## Rules of `Matches` -/

theorem matches_nil_iff {p : List (Item α)} : Matches p [] ↔ p.all Item.isAny = true := by
  induction p with
  | nil => exact ⟨fun _ => rfl, fun _ => .nil⟩
  | cons item p ih =>
      cases item with
      | any =>
          refine ⟨fun h => ?_, fun h => .anyStop (ih.mpr (by simpa [Item.isAny] using h))⟩
          cases h with
          | anyStop h => simpa [Item.isAny] using ih.mp h
      | one accepts =>
          constructor
          · intro h
            cases h
          · intro h
            simp [Item.isAny] at h

theorem matches_any_iff {p : List (Item α)} {t : List α} :
    Matches (.any :: p) t ↔ ∃ s, s <:+ t ∧ Matches p s := by
  constructor
  · intro h
    generalize hq : Item.any :: p = q at h
    induction h with
    | nil => cases hq
    | one _ _ _ => cases hq
    | anyStop h _ =>
        cases hq
        exact ⟨_, List.suffix_rfl, h⟩
    | anyTake _ ih =>
        obtain ⟨s, hs, h⟩ := ih hq
        exact ⟨s, hs.trans (List.suffix_cons _ _), h⟩
  · rintro ⟨s, ⟨r, rfl⟩, h⟩
    induction r with
    | nil => exact .anyStop h
    | cons a r ih => exact .anyTake ih

theorem matches_one_iff {accepts : α → Bool} {p : List (Item α)} {t : List α} :
    Matches (.one accepts :: p) t ↔ ∃ a s, t = a :: s ∧ accepts a = true ∧ Matches p s := by
  constructor
  · intro h
    cases h with
    | one ha h => exact ⟨_, _, rfl, ha, h⟩
  · rintro ⟨a, s, rfl, ha, h⟩
    exact .one ha h

theorem not_matches_nil_cons {a : α} {t : List α} : ¬Matches [] (a :: t) := by
  rintro ⟨⟩

theorem Matches.any_of_suffix {p : List (Item α)} {s t : List α} (h : Matches (.any :: p) s)
    (hs : s <:+ t) : Matches (.any :: p) t := by
  obtain ⟨r, hr, h⟩ := matches_any_iff.mp h
  exact matches_any_iff.mpr ⟨r, hr.trans hs, h⟩

theorem matches_append_of_ones {o p : List (Item α)} {t : List α}
    (ho : ∀ item ∈ o, item.isAny = false) (h : Matches (o ++ p) t) :
    o.length ≤ t.length ∧ Matches p (t.drop o.length) := by
  induction o generalizing t with
  | nil => exact ⟨Nat.zero_le _, h⟩
  | cons item o ih =>
      cases item with
      | any => exact absurd (ho .any (by simp)) (by simp [Item.isAny])
      | one accepts =>
          obtain ⟨a, s, rfl, -, h⟩ := matches_one_iff.mp h
          obtain ⟨hlen, h⟩ := ih (fun item hmem => ho item (by simp [hmem])) h
          exact ⟨by simpa using hlen, h⟩

/-! ## The matcher -/

/--
The star is behind the position: the items since then take one symbol each, and
have taken those between the two places in the text.
-/
def Behind (p : List (Item α)) (t : List α) : Option (List (Item α) × List α) → Prop
  | none => True
  | some (q, s) =>
      ∃ o, q = o ++ p ∧ (∀ item ∈ o, item.isAny = false) ∧ t = s.drop o.length ∧
        o.length ≤ s.length

def Offers : Option (List (Item α) × List α) → Prop
  | some (q, _ :: s) => Matches (.any :: q) s
  | _ => False

def pending (t : List α) : Option (List (Item α) × List α) → Nat
  | none => t.length
  | some (_, s) => s.length

theorem Behind.offers {p : List (Item α)} {t : List α} {star : Option (List (Item α) × List α)}
    (hbehind : Behind p t star) (h : Offers star) :
    ∃ a s r, t = a :: s ∧ r <:+ s ∧ Matches p r := by
  rcases star with _ | ⟨q, _ | ⟨b, s⟩⟩
  · cases h
  · cases h
  · obtain ⟨o, rfl, ho, rfl, -⟩ := hbehind
    obtain ⟨r, ⟨k, rfl⟩, hr⟩ := matches_any_iff.mp h
    obtain ⟨hlen, hmatches⟩ := matches_append_of_ones ho hr
    have hdrop : (b :: (k ++ r)).drop o.length ≠ [] := by
      intro hnil
      have := congrArg List.length hnil
      simp at this
      omega
    obtain ⟨a, s, hs⟩ := List.exists_cons_of_ne_nil hdrop
    refine ⟨a, s, _, hs, ?_, hmatches⟩
    have htail : s = (k ++ r).drop o.length := by
      have := congrArg List.tail hs
      simpa using this.symm
    rw [htail]
    have hsuffix : r.drop o.length = (k ++ r).drop (k.length + o.length) := by simp
    rw [hsuffix, Nat.add_comm, ← List.drop_drop]
    exact List.drop_suffix _ _

theorem Behind.length_le {p : List (Item α)} {t : List α}
    {star : Option (List (Item α) × List α)} (h : Behind p t star) :
    t.length ≤ pending t star := by
  rcases star with _ | ⟨q, s⟩
  · exact le_rfl
  · obtain ⟨o, -, -, rfl, -⟩ := h
    simp [pending]

theorem Behind.next {accepts : α → Bool} {p : List (Item α)} {a : α} {t : List α}
    {star : Option (List (Item α) × List α)} (h : Behind (.one accepts :: p) (a :: t) star) :
    Behind p t star := by
  rcases star with _ | ⟨q, s⟩
  · trivial
  · obtain ⟨o, rfl, ho, ht, -⟩ := h
    have hlen := congrArg List.length ht
    simp only [List.length_cons, List.length_drop] at hlen
    refine ⟨o ++ [.one accepts], by simp, ?_, ?_, ?_⟩
    · intro item hmem
      rcases List.mem_append.mp hmem with h | h
      · exact ho item h
      · cases List.mem_singleton.mp h
        rfl
    · rw [List.length_append, List.length_singleton, ← List.drop_drop, ← ht]
      rfl
    · rw [List.length_append, List.length_singleton]
      omega

theorem offers_iff {q : List (Item α)} {b : α} {s : List α} :
    Offers (some (q, b :: s)) ↔ Matches q s ∨ Offers (some (q, s)) := by
  change Matches (.any :: q) s ↔ _
  cases s with
  | nil => exact ⟨fun h => by cases h with | anyStop h => exact .inl h, fun h => by
      rcases h with h | h
      · exact .anyStop h
      · cases h⟩
  | cons c s =>
      constructor
      · intro h
        cases h with
        | anyStop h => exact .inl h
        | anyTake h => exact .inr h
      · rintro (h | h)
        · exact .anyStop h
        · exact .anyTake h

theorem greedy_iff (N : Nat) (fuel : Nat) (p : List (Item α)) (t : List α)
    (star : Option (List (Item α) × List α)) (hbehind : Behind p t star) (hp : p.length ≤ N)
    (hq : ∀ q s, star = some (q, s) → q.length ≤ N)
    (hfuel : pending t star * (N + 1) + p.length < fuel) :
    greedy fuel p t star = true ↔ Matches p t ∨ Offers star := by
  induction fuel generalizing p t star with
  | zero => exact absurd hfuel (Nat.not_lt_zero _)
  | succ fuel ih =>
      rcases t with _ | ⟨a, t⟩
      · -- the text is used up, and the star would need more of it
        have hoffers : ¬Offers star := by
          intro h
          obtain ⟨a, s, r, ht, -⟩ := hbehind.offers h
          cases ht
        simp only [greedy, hoffers, or_false]
        exact matches_nil_iff.symm
      · have hretry : retry (greedy fuel) star = true ↔ Offers star := by
          rcases star with _ | ⟨q, _ | ⟨b, s⟩⟩
          · simp [Offers, retry]
          · simp [Offers, retry]
          · have hlen := hq q _ rfl
            have hstep : pending s (some (q, s)) * (N + 1) + q.length < fuel := by
              simp only [pending, List.length_cons] at hfuel ⊢
              rw [Nat.succ_mul] at hfuel
              omega
            have hstart : Behind q s (some (q, s)) := ⟨[], by simp⟩
            have := ih q s (some (q, s)) hstart hlen (by rintro _ _ ⟨⟩; exact hlen) hstep
            rw [offers_iff]
            exact this
        rcases p with _ | ⟨_ | accepts, p⟩
        · simp only [greedy, not_matches_nil_cons, false_or]
          exact hretry
        · -- a new star takes over whatever the old one still offered
          have hle := hbehind.length_le
          have hlen : p.length + 1 ≤ N := by simpa using hp
          have hstep : pending (a :: t) (some (p, a :: t)) * (N + 1) + p.length < fuel := by
            have hmul := Nat.mul_le_mul_right (N + 1) hle
            simp only [pending, List.length_cons] at hfuel hmul ⊢
            omega
          have hstart : Behind p (a :: t) (some (p, a :: t)) := ⟨[], by simp⟩
          have hnew := ih p (a :: t) (some (p, a :: t)) hstart (by omega)
            (by rintro _ _ ⟨⟩; omega) hstep
          have hold : Offers star → Matches (.any :: p) (a :: t) := by
            intro h
            obtain ⟨b, s, r, ht, hr, hmatches⟩ := hbehind.offers h
            rw [ht]
            exact hmatches.any_of_suffix (hr.trans (List.suffix_cons _ _))
          have htake : Matches (.any :: p) (a :: t) ↔
              Matches p (a :: t) ∨ Offers (some (p, a :: t)) :=
            (offers_iff (b := a)).trans Iff.rfl
          change greedy fuel p (a :: t) (some (p, a :: t)) = true ↔ _
          rw [hnew, ← htake]
          exact ⟨.inl, fun h => h.elim id hold⟩
        · simp only [greedy]
          by_cases ha : accepts a = true
          · rw [if_pos ha]
            have hfuel' : pending t star * (N + 1) + p.length < fuel := by
              rcases star with _ | ⟨q, s⟩
              · simp only [pending, List.length_cons] at hfuel ⊢
                rw [Nat.succ_mul] at hfuel
                omega
              · simp only [pending, List.length_cons] at hfuel ⊢
                omega
            rw [ih p t star (hbehind.next) (by simp at hp; omega) hq hfuel', matches_one_iff]
            refine or_congr ⟨fun h => ⟨a, t, rfl, ha, h⟩, ?_⟩ Iff.rfl
            rintro ⟨_, _, ⟨⟩, -, h⟩
            exact h
          · rw [if_neg ha, hretry]
            have hno : ¬Matches (.one accepts :: p) (a :: t) := by
              intro h
              obtain ⟨_, _, ⟨⟩, h', -⟩ := matches_one_iff.mp h
              exact ha h'
            simp only [hno, false_or]

/-- The matcher decides the patterns. -/
theorem greedy_eq_true_iff {p : List (Item α)} {t : List α} {fuel : Nat}
    (h : (p.length + 1) * (t.length + 1) ≤ fuel) :
    greedy fuel p t none = true ↔ Matches p t := by
  have hfuel : pending t none * (p.length + 1) + p.length < fuel := by
    rw [Nat.mul_succ, Nat.mul_comm] at h
    simp only [pending]
    omega
  rw [greedy_iff p.length fuel p t none trivial le_rfl (by rintro _ _ ⟨⟩) hfuel]
  simp [Offers]

theorem matches_literal_iff [DecidableEq α] {literal t : List α} :
    Matches (literal.map fun a => .one (· == a)) t ↔ t = literal := by
  induction literal generalizing t with
  | nil => cases t <;> simp [Matches.nil, not_matches_nil_cons]
  | cons a literal ih =>
      rw [List.map_cons, matches_one_iff]
      simp only [beq_iff_eq, ih]
      constructor
      · rintro ⟨_, _, rfl, rfl, rfl⟩
        rfl
      · rintro rfl
        exact ⟨a, literal, rfl, rfl, rfl⟩

/-! ## Patterns of one shape -/

def Item.Takes : Item α → α → Prop
  | .any, _ => True
  | .one accepts, a => accepts a = true

/-- An item that takes no symbol, so that the pattern it is in accepts nothing. -/
def Item.Dead : Item α → Prop
  | .any => False
  | .one accepts => ∀ a, accepts a = false

def ones (p : List (Item α)) : List (Item α) := p.filter fun item => !item.isAny

theorem Matches.ones_length_le {p : List (Item α)} {t : List α} (h : Matches p t) :
    (ones p).length ≤ t.length := by
  induction h with
  | nil => simp [ones]
  | one _ _ ih => simpa [ones, Item.isAny] using ih
  | anyStop _ ih => simpa [ones, Item.isAny] using ih
  | anyTake _ ih =>
      simp only [List.length_cons]
      omega

/-- On a text as short as can be the stars take nothing. -/
theorem matches_iff_forall₂ {p : List (Item α)} {t : List α} (h : t.length = (ones p).length) :
    Matches p t ↔ List.Forall₂ Item.Takes (ones p) t := by
  induction p generalizing t with
  | nil =>
      have : t = [] := by simpa [ones] using h
      subst this
      simp [ones, Matches.nil]
  | cons item p ih =>
      cases item with
      | any =>
          have hones : ones (.any :: p) = ones p := by simp [ones, Item.isAny]
          rw [hones] at h ⊢
          rw [← ih h, matches_any_iff]
          constructor
          · rintro ⟨s, hs, hmatches⟩
            have : s = t := hs.eq_of_length_le (h ▸ hmatches.ones_length_le)
            exact this ▸ hmatches
          · intro hmatches
            exact ⟨t, List.suffix_rfl, hmatches⟩
      | one accepts =>
          have hones : ones (.one accepts :: p) = .one accepts :: ones p := by
            simp [ones, Item.isAny]
          rw [hones] at h ⊢
          rw [matches_one_iff]
          rcases t with _ | ⟨a, t⟩
          · simp at h
          · have hlen : t.length = (ones p).length := by simpa using h
            simp [ih hlen, Item.Takes]

theorem Matches.not_dead {p : List (Item α)} {t : List α} (h : Matches p t) :
    ∀ item ∈ p, ¬item.Dead := by
  induction h with
  | nil => simp
  | one ha _ ih =>
      simp only [List.mem_cons, forall_eq_or_imp]
      refine ⟨fun hdead => ?_, ih⟩
      rw [hdead] at ha
      cases ha
  | anyStop _ ih =>
      simp only [List.mem_cons, forall_eq_or_imp]
      exact ⟨id, ih⟩
  | anyTake _ ih => exact ih

section

variable {σ : Type*} {f g : σ → Item α} {symbols : List σ}

theorem ones_map : ones (symbols.map f) = (symbols.filter fun s => !(f s).isAny).map f := by
  simp [ones, List.filter_map, Function.comp_def]

theorem exists_matches (hdead : ∀ s ∈ symbols, ¬(f s).Dead) {s : σ} (hs : s ∈ symbols)
    {a : α} (hany : (f s).isAny = false) (ha : (f s).Takes a) :
    ∃ choice : σ → α, choice s = a ∧ Matches (symbols.map f)
      ((symbols.filter fun s => !(f s).isAny).map choice) := by
  classical
  have hchoice : ∀ r, ∃ b, r ∈ symbols → (f r).Takes b := by
    intro r
    by_cases hr : r ∈ symbols
    · have hlive := hdead r hr
      cases hitem : f r with
      | any => exact ⟨a, fun _ => trivial⟩
      | one accepts =>
          rw [hitem, Item.Dead, not_forall] at hlive
          obtain ⟨b, hb⟩ := hlive
          exact ⟨b, fun _ => by simpa [Item.Takes] using hb⟩
    · exact ⟨a, fun h => absurd h hr⟩
  choose choice htakes using hchoice
  refine ⟨Function.update choice s a, by simp, ?_⟩
  rw [matches_iff_forall₂ (by simp [ones_map]), ones_map, List.forall₂_map_left_iff,
    List.forall₂_map_right_iff, List.forall₂_same]
  intro r hr
  by_cases hrs : r = s
  · subst hrs
    simpa using ha
  · simpa [hrs] using htakes r (List.mem_of_mem_filter hr)

theorem exists_matches_of_not_dead (hdead : ∀ s ∈ symbols, ¬(f s).Dead) :
    ∃ t, Matches (symbols.map f) t := by
  by_cases h : ∃ s ∈ symbols, (f s).isAny = false
  · obtain ⟨s, hs, hany⟩ := h
    have htakes : ∃ a, (f s).Takes a := by
      have hlive := hdead s hs
      cases hitem : f s with
      | any => simp [hitem, Item.isAny] at hany
      | one accepts => simpa [hitem, Item.Dead, Item.Takes] using hlive
    obtain ⟨a, ha⟩ := htakes
    obtain ⟨choice, -, hmatches⟩ := exists_matches hdead hs hany ha
    exact ⟨_, hmatches⟩
  · push Not at h
    refine ⟨[], matches_nil_iff.mpr ?_⟩
    simpa using h

theorem Matches.map_of_takes (hshape : ∀ s ∈ symbols, (f s).isAny = (g s).isAny)
    (htakes : ∀ s ∈ symbols, ∀ a, (f s).Takes a → (g s).Takes a) {t : List α}
    (h : Matches (symbols.map f) t) : Matches (symbols.map g) t := by
  induction symbols generalizing t with
  | nil => exact h
  | cons s symbols ih =>
      simp only [List.mem_cons, forall_eq_or_imp] at hshape htakes
      rw [List.map_cons] at h ⊢
      cases hf : f s with
      | any =>
          have hg : g s = .any := by
            have := hshape.1
            cases hg : g s with
            | any => rfl
            | one accepts => simp [hf, hg, Item.isAny] at this
          rw [hf, matches_any_iff] at h
          rw [hg, matches_any_iff]
          obtain ⟨r, hr, h⟩ := h
          exact ⟨r, hr, ih hshape.2 htakes.2 h⟩
      | one accepts =>
          rw [hf, matches_one_iff] at h
          obtain ⟨a, r, rfl, ha, h⟩ := h
          have hshape' := hshape.1
          have htakes' := htakes.1 a
          rw [hf] at hshape' htakes'
          cases hg : g s with
          | any => simp [hg, Item.isAny] at hshape'
          | one accepts' =>
              rw [hg] at htakes'
              exact .one (htakes' ha) (ih hshape.2 htakes.2 h)

/-- What an item takes is seen in the texts of its pattern. -/
theorem takes_of_matches (hshape : ∀ s ∈ symbols, (f s).isAny = (g s).isAny)
    (hdead : ∀ s ∈ symbols, ¬(f s).Dead)
    (h : ∀ t, Matches (symbols.map f) t → Matches (symbols.map g) t)
    {s : σ} (hs : s ∈ symbols) {a : α} (ha : (f s).Takes a) : (g s).Takes a := by
  cases hany : (f s).isAny with
  | true =>
      have : (g s).isAny = true := (hshape s hs).symm.trans hany
      cases hg : g s with
      | any => trivial
      | one accepts => simp [hg, Item.isAny] at this
  | false =>
      obtain ⟨choice, hchoice, hmatches⟩ := exists_matches hdead hs hany ha
      have hfilter : (symbols.filter fun s => !(f s).isAny) =
          symbols.filter fun s => !(g s).isAny := by
        apply List.filter_congr
        intro r hr
        rw [hshape r hr]
      have htexts := h _ hmatches
      rw [hfilter, matches_iff_forall₂ (by simp [ones_map]), ones_map, List.forall₂_map_left_iff,
        List.forall₂_map_right_iff, List.forall₂_same] at htexts
      have hmem : s ∈ symbols.filter fun s => !(g s).isAny := by
        rw [← hfilter]
        simp [hs, hany]
      rw [← hchoice]
      exact htexts s hmem

/--
Two patterns with stars at the same places accept the same texts when their
items take the same symbols, or when both accept nothing; and only then.
-/
theorem matches_map_congr_iff (hshape : ∀ s ∈ symbols, (f s).isAny = (g s).isAny) :
    (∀ t, Matches (symbols.map f) t ↔ Matches (symbols.map g) t) ↔
      (∀ s ∈ symbols, ∀ a, (f s).Takes a ↔ (g s).Takes a) ∨
        (∃ s ∈ symbols, (f s).Dead) ∧ ∃ s ∈ symbols, (g s).Dead := by
  have hshape' : ∀ s ∈ symbols, (g s).isAny = (f s).isAny := fun s hs => (hshape s hs).symm
  constructor
  · intro h
    by_cases hf : ∃ s ∈ symbols, (f s).Dead
    · refine .inr ⟨hf, ?_⟩
      by_contra hg
      push Not at hg
      obtain ⟨t, ht⟩ := exists_matches_of_not_dead hg
      obtain ⟨s, hs, hdead⟩ := hf
      exact ((h t).mpr ht).not_dead _ (List.mem_map_of_mem hs) hdead
    · push Not at hf
      obtain ⟨t, ht⟩ := exists_matches_of_not_dead hf
      have hg : ∀ s ∈ symbols, ¬(g s).Dead := by
        intro s hs
        exact ((h t).mp ht).not_dead _ (List.mem_map_of_mem hs)
      refine .inl fun s hs a => ?_
      constructor
      · exact takes_of_matches hshape hf (fun t => (h t).mp) hs
      · exact takes_of_matches hshape' hg (fun t => (h t).mpr) hs
  · rintro (htakes | ⟨⟨r, hr, hf⟩, s, hs, hg⟩) t
    · constructor
      · exact Matches.map_of_takes hshape fun s hs a => (htakes s hs a).mp
      · exact Matches.map_of_takes hshape' fun s hs a => (htakes s hs a).mpr
    · constructor
      · intro h
        exact absurd hf (h.not_dead _ (List.mem_map_of_mem hr))
      · intro h
        exact absurd hg (h.not_dead _ (List.mem_map_of_mem hs))

end

end Wildcard
