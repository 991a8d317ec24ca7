import Mathlib.Tactic

/-!
# Runs of a transition function

`step a s` is the state after action `a` in state `s`, or `none` where `a` cannot
happen.  A run is a list of actions; what every step preserves, every run does.
-/

namespace Transition

variable {σ α : Type*} {step : α → σ → Option σ}

def run (step : α → σ → Option σ) : List α → σ → Option σ
  | [], s => some s
  | a :: rest, s => (step a s).bind (run step rest)

@[simp]
theorem run_nil (s : σ) : run step [] s = some s := rfl

theorem run_cons_eq_some {a : α} {actions : List α} {s t : σ} :
    run step (a :: actions) s = some t ↔
      ∃ mid, step a s = some mid ∧ run step actions mid = some t := by
  rw [run, Option.bind_eq_some_iff]

theorem run_append (first second : List α) (s : σ) :
    run step (first ++ second) s = (run step first s).bind (run step second) := by
  induction first generalizing s with
  | nil => rfl
  | cons a first ih =>
      cases hs : step a s with
      | none => simp [run, hs]
      | some mid => simp [run, hs, ih]

/-- What every step preserves, every run preserves. -/
theorem run_preserves {P : σ → Prop}
    (hstep : ∀ a s t, step a s = some t → P s → P t)
    {actions : List α} {s t : σ} (hrun : run step actions s = some t) (hs : P s) :
    P t := by
  induction actions generalizing s with
  | nil =>
      cases hrun
      exact hs
  | cons a actions ih =>
      obtain ⟨mid, hmid, hrest⟩ := run_cons_eq_some.1 hrun
      exact ih hrest (hstep a s mid hmid hs)

/-- Every step of a run is taken in a state that meets `C`. -/
def Meets (step : α → σ → Option σ) (C : α → σ → Prop) : List α → σ → Prop
  | [], _ => True
  | a :: rest, s => C a s ∧ ∀ t, step a s = some t → Meets step C rest t

section

variable {C : α → σ → Prop}

theorem meets_cons_of_none {a : α} {rest : List α} {s : σ} (h : step a s = none) :
    Meets step C (a :: rest) s ↔ C a s := by
  simp [Meets, h]

theorem meets_cons_of_some {a : α} {rest : List α} {s t : σ} (h : step a s = some t) :
    Meets step C (a :: rest) s ↔ C a s ∧ Meets step C rest t := by
  simp [Meets, h]

instance decidableMeets [∀ a s, Decidable (C a s)] :
    ∀ actions s, Decidable (Meets step C actions s)
  | [], _ => isTrue trivial
  | a :: rest, s =>
      match hstep : step a s with
      | none => decidable_of_iff _ (meets_cons_of_none hstep).symm
      | some mid =>
          have := decidableMeets rest mid
          decidable_of_iff _ (meets_cons_of_some hstep).symm

end

/-- What every step that meets `C` preserves, every run of such steps preserves. -/
theorem run_preserves_of_meets {C : α → σ → Prop} {P : σ → Prop}
    (hstep : ∀ a s t, step a s = some t → C a s → P s → P t)
    {actions : List α} {s t : σ} (hrun : run step actions s = some t)
    (hmeets : Meets step C actions s) (hs : P s) : P t := by
  induction actions generalizing s with
  | nil =>
      cases hrun
      exact hs
  | cons a actions ih =>
      obtain ⟨mid, hmid, hrest⟩ := run_cons_eq_some.1 hrun
      exact ih hrest (hmeets.2 mid hmid) (hstep a s mid hmid hmeets.1 hs)

theorem run_preserves_of_forall {C : α → Prop} {P : σ → Prop}
    (hstep : ∀ a s t, step a s = some t → C a → P s → P t)
    {actions : List α} {s t : σ} (hrun : run step actions s = some t)
    (hall : ∀ a ∈ actions, C a) (hs : P s) : P t := by
  induction actions generalizing s with
  | nil =>
      cases hrun
      exact hs
  | cons a actions ih =>
      obtain ⟨mid, hmid, hrest⟩ := run_cons_eq_some.1 hrun
      exact ih hrest (fun b hb => hall b (List.mem_cons_of_mem a hb))
        (hstep a s mid hmid (hall a List.mem_cons_self) hs)

end Transition
