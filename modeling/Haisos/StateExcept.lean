import Mathlib.Tactic

/-!
# Computations that change a state and may fail

`ExceptT ε (StateM σ)`: the state outlives a failure.  A computation is run as
the function on states that it is, and `Ensures` are partial-correctness
triples about the runs that return.
-/

namespace StateExcept

variable {ε σ α β : Type}

def exec (m : ExceptT ε (StateM σ) α) (s : σ) : Except ε α × σ := m.run.run s

@[simp] theorem exec_pure (a : α) (s : σ) :
    exec (pure a : ExceptT ε (StateM σ) α) s = (.ok a, s) := rfl

@[simp] theorem exec_throw (e : ε) (s : σ) :
    exec (throw e : ExceptT ε (StateM σ) α) s = (.error e, s) := rfl

@[simp] theorem exec_get (s : σ) :
    exec (get : ExceptT ε (StateM σ) σ) s = (.ok s, s) := rfl

@[simp] theorem exec_set (s s' : σ) :
    exec (set s' : ExceptT ε (StateM σ) PUnit) s = (.ok ⟨⟩, s') := rfl

@[simp] theorem exec_modify (f : σ → σ) (s : σ) :
    exec (modify f : ExceptT ε (StateM σ) PUnit) s = (.ok ⟨⟩, f s) := rfl

@[simp] theorem exec_modifyGet (f : σ → α × σ) (s : σ) :
    exec (modifyGet f : ExceptT ε (StateM σ) α) s = (.ok (f s).1, (f s).2) := rfl

theorem exec_tryCatch (m : ExceptT ε (StateM σ) α) (handler : ε → ExceptT ε (StateM σ) α)
    (s : σ) :
    exec (tryCatch m handler) s =
      match exec m s with
      | (.ok a, s') => (.ok a, s')
      | (.error e, s') => exec (handler e) s' := by
  change StateT.run (match (m.run.run s).1 with
    | .ok a => pure (.ok a)
    | .error e => (handler e).run) (m.run.run s).2 = _
  rw [exec]
  rcases m.run.run s with ⟨_ | _, s'⟩ <;> rfl

theorem exec_bind (m : ExceptT ε (StateM σ) α) (f : α → ExceptT ε (StateM σ) β) (s : σ) :
    exec (m >>= f) s =
      match exec m s with
      | (.ok a, s') => exec (f a) s'
      | (.error e, s') => (.error e, s') := by
  simp only [exec, ExceptT.run_bind, StateT.run_bind]
  rcases m.run.run s with ⟨_ | _, _⟩ <;> rfl

theorem exec_bind_ok {m : ExceptT ε (StateM σ) α} {f : α → ExceptT ε (StateM σ) β} {s s' : σ}
    {a : α} (h : exec m s = (.ok a, s')) : exec (m >>= f) s = exec (f a) s' := by
  rw [exec_bind, h]

theorem exec_bind_error {m : ExceptT ε (StateM σ) α} {f : α → ExceptT ε (StateM σ) β}
    {s s' : σ} {e : ε} (h : exec m s = (.error e, s')) :
    exec (m >>= f) s = (.error e, s') := by
  rw [exec_bind, h]

theorem exec_bind_eq_ok {m : ExceptT ε (StateM σ) α} {f : α → ExceptT ε (StateM σ) β}
    {s s'' : σ} {b : β} :
    exec (m >>= f) s = (.ok b, s'') ↔
      ∃ a s', exec m s = (.ok a, s') ∧ exec (f a) s' = (.ok b, s'') := by
  rw [exec_bind]
  constructor
  · intro h
    rcases hm : exec m s with ⟨e | a, s'⟩
    · rw [hm] at h
      cases h
    · rw [hm] at h
      exact ⟨a, s', rfl, h⟩
  · rintro ⟨a, s', hm, hf⟩
    rw [hm]
    exact hf

/-! ## Endings -/

/-- Runs `m` and tells how it ended. -/
def attempt (m : ExceptT ε (StateM σ) α) : ExceptT ε (StateM σ) (Except ε α) :=
  modifyGet (exec m)

@[simp] theorem exec_attempt (m : ExceptT ε (StateM σ) α) (s : σ) :
    exec (attempt m) s = (.ok (exec m s).1, (exec m s).2) := rfl

def resume : Except ε α → ExceptT ε (StateM σ) α
  | .ok a => pure a
  | .error e => throw e

@[simp] theorem exec_resume (ended : Except ε α) (s : σ) :
    exec (resume ended : ExceptT ε (StateM σ) α) s = (ended, s) := by
  cases ended <;> rfl

/-- Runs `m` and then `cleanup`, however `m` ends. -/
def ensuring (m : ExceptT ε (StateM σ) α) (cleanup : ExceptT ε (StateM σ) PUnit) :
    ExceptT ε (StateM σ) α := do
  let ended ← attempt m
  cleanup
  resume ended

theorem exec_ensuring (m : ExceptT ε (StateM σ) α) (cleanup : ExceptT ε (StateM σ) PUnit)
    {s s' : σ} (h : exec cleanup (exec m s).2 = (.ok ⟨⟩, s')) :
    exec (ensuring m cleanup) s = ((exec m s).1, s') := by
  rw [ensuring, exec_bind_ok (exec_attempt m s), exec_bind_ok h, exec_resume]

/-! ## Triples -/

/-- Every run from a state of `pre` that returns ends in `post`. -/
def Ensures (pre : σ → Prop) (m : ExceptT ε (StateM σ) α) (post : α → σ → Prop) : Prop :=
  ∀ s, pre s → ∀ a s', exec m s = (.ok a, s') → post a s'

namespace Ensures

theorem pure_intro {pre : σ → Prop} {post : α → σ → Prop} {a : α} (h : ∀ s, pre s → post a s) :
    Ensures pre (pure a : ExceptT ε (StateM σ) α) post := by
  intro s hs a' s' hrun
  cases hrun
  exact h s hs

theorem throw_intro {pre : σ → Prop} {post : α → σ → Prop} {e : ε} :
    Ensures pre (throw e : ExceptT ε (StateM σ) α) post := by
  intro s hs a' s' hrun
  cases hrun

theorem bind_intro {pre : σ → Prop} {mid : α → σ → Prop} {post : β → σ → Prop}
    {m : ExceptT ε (StateM σ) α} {f : α → ExceptT ε (StateM σ) β} (hm : Ensures pre m mid)
    (hf : ∀ a, Ensures (mid a) (f a) post) : Ensures pre (m >>= f) post := by
  intro s hs b s'' hrun
  obtain ⟨a, s', hm', hf'⟩ := exec_bind_eq_ok.mp hrun
  exact hf a s' (hm s hs a s' hm') b s'' hf'

theorem consequence {pre pre' : σ → Prop} {post post' : α → σ → Prop}
    {m : ExceptT ε (StateM σ) α} (h : Ensures pre' m post') (hpre : ∀ s, pre s → pre' s)
    (hpost : ∀ a s, post' a s → post a s) : Ensures pre m post :=
  fun s hs a s' hrun => hpost a s' (h s (hpre s hs) a s' hrun)

theorem get_intro {pre : σ → Prop} :
    Ensures pre (get : ExceptT ε (StateM σ) σ) fun seen s => pre s ∧ seen = s := by
  intro s hs a s' hrun
  cases hrun
  exact ⟨hs, rfl⟩

theorem modify_intro {pre : σ → Prop} {post : PUnit → σ → Prop} {f : σ → σ}
    (h : ∀ s, pre s → post ⟨⟩ (f s)) :
    Ensures pre (modify f : ExceptT ε (StateM σ) PUnit) post := by
  intro s hs a s' hrun
  cases hrun
  exact h s hs

theorem tryCatch_intro {pre : σ → Prop} {post : α → σ → Prop} (failed : σ → Prop)
    {m : ExceptT ε (StateM σ) α} {handler : ε → ExceptT ε (StateM σ) α} (hm : Ensures pre m post)
    (hfailed : ∀ s, pre s → failed (exec m s).2)
    (hh : ∀ e, Ensures failed (handler e) post) : Ensures pre (tryCatch m handler) post := by
  intro s hs a s' hrun
  have ht := hfailed s hs
  rw [exec_tryCatch] at hrun
  rcases h : exec m s with ⟨e | b, t⟩
  · rw [h] at hrun ht
    exact hh e t ht a s' hrun
  · rw [h] at hrun
    cases hrun
    exact hm s hs _ _ h

theorem trivial {pre : σ → Prop} {m : ExceptT ε (StateM σ) α} :
    Ensures pre m fun _ _ => True :=
  fun _ _ _ _ _ => True.intro

end Ensures

/-- Every run from a state of `pre` that returns ends in `post`, one that fails in `failed`. -/
def Triple (pre : σ → Prop) (m : ExceptT ε (StateM σ) α) (post : α → σ → Prop)
    (failed : ε → σ → Prop) : Prop :=
  ∀ s, pre s →
    match exec m s with
    | (.ok a, s') => post a s'
    | (.error e, s') => failed e s'

namespace Triple

variable {pre : σ → Prop} {post : α → σ → Prop} {failed : ε → σ → Prop}

theorem of_exec {m : ExceptT ε (StateM σ) α}
    (h : ∀ s, pre s → (∃ a s', exec m s = (.ok a, s') ∧ post a s') ∨
      ∃ e s', exec m s = (.error e, s') ∧ failed e s') : Triple pre m post failed := by
  intro s hs
  rcases h s hs with ⟨a, s', hrun, ha⟩ | ⟨e, s', hrun, he⟩
  · rw [hrun]
    exact ha
  · rw [hrun]
    exact he

theorem ok {m : ExceptT ε (StateM σ) α} (h : Triple pre m post failed) {s s' : σ} {a : α}
    (hs : pre s) (hrun : exec m s = (.ok a, s')) : post a s' := by
  have := h s hs
  rwa [hrun] at this

theorem error {m : ExceptT ε (StateM σ) α} (h : Triple pre m post failed) {s s' : σ} {e : ε}
    (hs : pre s) (hrun : exec m s = (.error e, s')) : failed e s' := by
  have := h s hs
  rwa [hrun] at this

theorem pure_intro {a : α} (h : ∀ s, pre s → post a s) :
    Triple pre (pure a : ExceptT ε (StateM σ) α) post failed := h

theorem throw_intro {e : ε} (h : ∀ s, pre s → failed e s) :
    Triple pre (throw e : ExceptT ε (StateM σ) α) post failed := h

theorem bind_intro {Q : α → σ → Prop} {post : β → σ → Prop} {m : ExceptT ε (StateM σ) α}
    {f : α → ExceptT ε (StateM σ) β} (hm : Triple pre m Q failed)
    (hf : ∀ a, Triple (Q a) (f a) post failed) : Triple pre (m >>= f) post failed := by
  intro s hs
  rw [exec_bind]
  rcases h : exec m s with ⟨e | a, s'⟩
  · exact hm.error hs h
  · exact hf a s' (hm.ok hs h)

theorem consequence {pre' : σ → Prop} {post' : α → σ → Prop} {failed' : ε → σ → Prop}
    {m : ExceptT ε (StateM σ) α} (h : Triple pre' m post' failed') (hpre : ∀ s, pre s → pre' s)
    (hpost : ∀ a s, post' a s → post a s) (hfailed : ∀ e s, failed' e s → failed e s) :
    Triple pre m post failed :=
  of_exec fun s hs => by
    rcases hrun : exec m s with ⟨e | a, s'⟩
    · exact .inr ⟨e, s', rfl, hfailed e s' (h.error (hpre s hs) hrun)⟩
    · exact .inl ⟨a, s', rfl, hpost a s' (h.ok (hpre s hs) hrun)⟩

theorem get_intro {post : σ → σ → Prop} (h : ∀ s, pre s → post s s) :
    Triple pre (get : ExceptT ε (StateM σ) σ) post failed := h

theorem modify_intro {post : PUnit → σ → Prop} {f : σ → σ} (h : ∀ s, pre s → post ⟨⟩ (f s)) :
    Triple pre (modify f : ExceptT ε (StateM σ) PUnit) post failed := h

theorem modifyGet_intro {f : σ → α × σ} (h : ∀ s, pre s → post (f s).1 (f s).2) :
    Triple pre (modifyGet f : ExceptT ε (StateM σ) α) post failed := h

theorem tryCatch_intro (caught : ε → σ → Prop) {m : ExceptT ε (StateM σ) α}
    {handler : ε → ExceptT ε (StateM σ) α} (hm : Triple pre m post caught)
    (hh : ∀ e, Triple (caught e) (handler e) post failed) :
    Triple pre (tryCatch m handler) post failed := by
  intro s hs
  rw [exec_tryCatch]
  rcases h : exec m s with ⟨e | a, s'⟩
  · exact hh e s' (hm.error hs h)
  · exact hm.ok hs h

theorem attempt_intro {m : ExceptT ε (StateM σ) α} {failed' : ε → σ → Prop}
    (h : Triple pre m post failed) :
    Triple pre (attempt m)
      (fun ended s => match ended with
        | .ok a => post a s
        | .error e => failed e s) failed' := by
  intro s hs
  rw [exec_attempt]
  rcases hrun : exec m s with ⟨e | a, s'⟩
  · exact h.error hs hrun
  · exact h.ok hs hrun

theorem or_intro {pre' : σ → Prop} {post' : α → σ → Prop} {failed' : ε → σ → Prop}
    {m : ExceptT ε (StateM σ) α} (h : Triple pre m post failed) (h' : Triple pre' m post' failed') :
    Triple (fun s => pre s ∨ pre' s) m (fun a s => post a s ∨ post' a s)
      (fun e s => failed e s ∨ failed' e s) := by
  rintro s (hs | hs)
  · exact h.consequence (fun _ => id) (fun _ _ => .inl) (fun _ _ => .inl) s hs
  · exact h'.consequence (fun _ => id) (fun _ _ => .inr) (fun _ _ => .inr) s hs

/-- What never fails never comes to `failed`. -/
theorem of_returns {m : ExceptT ε (StateM σ) α} (h : ∀ s, ∃ a, (exec m s).1 = .ok a) :
    Triple pre m (fun _ _ => True) failed := by
  intro s _
  obtain ⟨a, ha⟩ := h s
  rcases hrun : exec m s with ⟨e | a', s'⟩
  · rw [hrun] at ha
    cases ha
  · trivial

theorem at_pure {a : α} {s : σ} (h : post a s) :
    Triple (· = s) (pure a : ExceptT ε (StateM σ) α) post failed := by
  rintro s rfl
  exact h

theorem at_throw {e : ε} {s : σ} (h : failed e s) :
    Triple (· = s) (throw e : ExceptT ε (StateM σ) α) post failed := by
  rintro s rfl
  exact h

theorem at_bind {post : β → σ → Prop} {m : ExceptT ε (StateM σ) α}
    {f : α → ExceptT ε (StateM σ) β} {s s' : σ} {a : α} (hm : exec m s = (.ok a, s'))
    (hf : Triple (· = s') (f a) post failed) : Triple (· = s) (m >>= f) post failed := by
  rintro s rfl
  rw [exec_bind_ok hm]
  exact hf s' rfl

theorem at_state {m : ExceptT ε (StateM σ) α} {s : σ} (h : Triple pre m post failed) (hs : pre s) :
    Triple (· = s) m post failed := by
  rintro s' rfl
  exact h s' hs

theorem with_run {m : ExceptT ε (StateM σ) α} {s : σ} (h : Triple (· = s) m post failed) :
    Triple (· = s) m (fun a s' => exec m s = (.ok a, s') ∧ post a s') failed := by
  rintro s' rfl
  rcases hrun : exec m s' with ⟨e | a, t⟩
  · exact h.error rfl hrun
  · exact ⟨rfl, h.ok rfl hrun⟩

theorem of_pre {m : ExceptT ε (StateM σ) α} (h : ∀ s, pre s → Triple (· = s) m post failed) :
    Triple pre m post failed :=
  fun s hs => h s hs s rfl

theorem mapM_keep {f : α → ExceptT ε (StateM σ) β} :
    ∀ {xs : List α}, (∀ x ∈ xs, Triple pre (f x) (fun _ => pre) failed) →
      Triple pre (xs.mapM f) (fun ys s => pre s ∧ ys.length = xs.length) failed
  | [], _ => by
      rw [List.mapM_nil]
      exact pure_intro fun _ h => ⟨h, rfl⟩
  | x :: xs, h => by
      rw [List.mapM_cons]
      refine bind_intro (h x List.mem_cons_self) fun y => ?_
      refine bind_intro (mapM_keep fun x hmem => h x (List.mem_cons_of_mem _ hmem)) fun ys => ?_
      exact pure_intro fun _ h => ⟨h.1, congrArg Nat.succ h.2⟩

theorem mapM_last {Q : β → σ → Prop} {f : α → ExceptT ε (StateM σ) β} {xs : List α} {x : α}
    (hkeep : ∀ x ∈ xs, Triple pre (f x) (fun _ => pre) failed)
    (hlast : Triple pre (f x) Q failed) :
    Triple pre ((xs ++ [x]).mapM f)
      (fun ys s => ∃ ys' y, ys = ys' ++ [y] ∧ ys'.length = xs.length ∧ Q y s) failed := by
  rw [List.mapM_append]
  refine bind_intro (mapM_keep hkeep) fun ys' => ?_
  rw [List.mapM_cons]
  have hsingle : Triple pre (do
      let y ← f x
      let rest ← [].mapM f
      pure (y :: rest)) (fun ys s => ∃ y, ys = [y] ∧ Q y s) failed := by
    refine bind_intro hlast fun y => ?_
    rw [List.mapM_nil]
    exact pure_intro fun s h => ⟨y, rfl, h⟩
  refine of_pre fun s hs => ?_
  refine bind_intro (hsingle.at_state hs.1) fun ys => pure_intro fun s' h => ?_
  obtain ⟨y, rfl, hy⟩ := h
  exact ⟨ys', y, rfl, hs.2, hy⟩

end Triple

/-! ## What every run does to the state -/

/-- Every run leads from a state to one related to it, whether it returns or fails. -/
def Respects (related : σ → σ → Prop) (m : ExceptT ε (StateM σ) α) : Prop :=
  ∀ s, related s (exec m s).2

namespace Respects

variable {related : σ → σ → Prop} [Std.Refl related] [IsTrans σ related]

omit [IsTrans σ related] in
theorem pure_intro (a : α) : Respects related (pure a : ExceptT ε (StateM σ) α) :=
  fun s => Std.Refl.refl s

omit [IsTrans σ related] in
theorem throw_intro (e : ε) : Respects related (throw e : ExceptT ε (StateM σ) α) :=
  fun s => Std.Refl.refl s

omit [IsTrans σ related] in
theorem get_intro : Respects related (get : ExceptT ε (StateM σ) σ) := fun s => Std.Refl.refl s

omit [Std.Refl related] [IsTrans σ related] in
theorem modify_intro {f : σ → σ} (h : ∀ s, related s (f s)) :
    Respects related (modify f : ExceptT ε (StateM σ) PUnit) := h

omit [Std.Refl related] [IsTrans σ related] in
theorem modifyGet_intro {f : σ → α × σ} (h : ∀ s, related s (f s).2) :
    Respects related (modifyGet f : ExceptT ε (StateM σ) α) := h

omit [Std.Refl related] in
theorem bind_intro {m : ExceptT ε (StateM σ) α} {f : α → ExceptT ε (StateM σ) β}
    (hm : Respects related m) (hf : ∀ a, Respects related (f a)) : Respects related (m >>= f) := by
  intro s
  have hs := hm s
  rw [exec_bind]
  rcases h : exec m s with ⟨e | a, s'⟩
  · rw [h] at hs
    exact hs
  · rw [h] at hs
    exact IsTrans.trans _ _ _ hs (hf a s')

omit [Std.Refl related] in
theorem when_intro {c : Prop} [Decidable c] {m : ExceptT ε (StateM σ) PUnit}
    {next : ExceptT ε (StateM σ) α} (hm : Respects related m) (hnext : Respects related next) :
    Respects related (if c then m >>= fun _ => next else next) := by
  split
  · exact bind_intro hm fun _ => hnext
  · exact hnext

omit [Std.Refl related] in
theorem tryCatch_intro {m : ExceptT ε (StateM σ) α} {handler : ε → ExceptT ε (StateM σ) α}
    (hm : Respects related m) (hh : ∀ e, Respects related (handler e)) :
    Respects related (tryCatch m handler) := by
  intro s
  have hs := hm s
  rw [exec_tryCatch]
  rcases h : exec m s with ⟨e | a, s'⟩
  · rw [h] at hs
    exact IsTrans.trans _ _ _ hs (hh e s')
  · rw [h] at hs
    exact hs

omit [IsTrans σ related] in
theorem resume_intro (ended : Except ε α) :
    Respects related (resume ended : ExceptT ε (StateM σ) α) := by
  cases ended with
  | ok a => exact pure_intro a
  | error e => exact throw_intro e

omit [Std.Refl related] [IsTrans σ related] in
theorem attempt_intro {m : ExceptT ε (StateM σ) α} (h : Respects related m) :
    Respects related (attempt m) := h

theorem ensuring_intro {m : ExceptT ε (StateM σ) α} {cleanup : ExceptT ε (StateM σ) PUnit}
    (hm : Respects related m) (hcleanup : Respects related cleanup) :
    Respects related (ensuring m cleanup) :=
  bind_intro (attempt_intro hm) fun ended => bind_intro hcleanup fun _ => resume_intro ended

theorem forM_intro {f : α → ExceptT ε (StateM σ) PUnit} {xs : List α}
    (h : ∀ x ∈ xs, Respects related (f x)) : Respects related (forM xs f) := by
  induction xs with
  | nil => exact pure_intro _
  | cons x xs ih =>
      rw [List.forM_cons]
      exact bind_intro (h x List.mem_cons_self) fun _ =>
        ih fun z hz => h z (List.mem_cons_of_mem _ hz)

omit [Std.Refl related] [IsTrans σ related] in
theorem ensures {pre : σ → Prop} {post : α → σ → Prop} {m : ExceptT ε (StateM σ) α}
    (hm : Respects related m) (h : ∀ a s s', pre s → related s s' → post a s') :
    Ensures pre m post := by
  intro s hs a s' hrun
  have hs' := hm s
  rw [hrun] at hs'
  exact h a s s' hs hs'

omit [Std.Refl related] [IsTrans σ related] in
theorem triple {pre : σ → Prop} {post : α → σ → Prop} {failed : ε → σ → Prop}
    {m : ExceptT ε (StateM σ) α} (hm : Respects related m)
    (hpost : ∀ a s s', pre s → related s s' → post a s')
    (hfailed : ∀ e s s', pre s → related s s' → failed e s') : Triple pre m post failed :=
  Triple.of_exec fun s hs => by
    have hs' := hm s
    rcases hrun : exec m s with ⟨e | a, s'⟩
    · exact .inr ⟨e, s', rfl, hfailed e s s' hs (by rwa [hrun] at hs')⟩
    · exact .inl ⟨a, s', rfl, hpost a s s' hs (by rwa [hrun] at hs')⟩

end Respects

/-! ## Properties of computations -/

structure Compositional (P : {α : Type} → ExceptT ε (StateM σ) α → Prop) : Prop where
  pure : ∀ {α : Type} (a : α), P (Pure.pure a)
  bind : ∀ {α β : Type} {m : ExceptT ε (StateM σ) α} {f : α → ExceptT ε (StateM σ) β},
    P m → (∀ a, P (f a)) → P (m >>= f)

namespace Compositional

variable {P : {α : Type} → ExceptT ε (StateM σ) α → Prop}

theorem mapM (hP : Compositional P) {α β : Type} {f : α → ExceptT ε (StateM σ) β} {xs : List α}
    (h : ∀ x ∈ xs, P (f x)) : P (xs.mapM f) := by
  induction xs with
  | nil => exact hP.pure []
  | cons x xs ih =>
      rw [List.mapM_cons]
      refine hP.bind (h x List.mem_cons_self) fun y => ?_
      exact hP.bind (ih fun z hz => h z (List.mem_cons_of_mem _ hz)) fun ys => hP.pure _

theorem forM (hP : Compositional P) {α : Type} {f : α → ExceptT ε (StateM σ) PUnit} {xs : List α}
    (h : ∀ x ∈ xs, P (f x)) : P (forM xs f) := by
  induction xs with
  | nil => exact hP.pure _
  | cons x xs ih =>
      rw [List.forM_cons]
      exact hP.bind (h x List.mem_cons_self) fun _ =>
        ih fun z hz => h z (List.mem_cons_of_mem _ hz)

end Compositional

theorem Respects.compositional {related : σ → σ → Prop} [Std.Refl related] [IsTrans σ related] :
    Compositional (ε := ε) fun {_} m => Respects related m where
  pure := Respects.pure_intro
  bind := Respects.bind_intro

/-- `view` sees the same of both states. -/
def SameView {γ : Type} (view : σ → γ) (s s' : σ) : Prop := view s' = view s

instance {γ : Type} (view : σ → γ) : Std.Refl (SameView view) := ⟨fun _ => rfl⟩

instance {γ : Type} (view : σ → γ) : IsTrans σ (SameView view) := ⟨fun _ _ _ h h' => h'.trans h⟩

/-- No run changes what `view` sees of the state. -/
abbrev Keeps {γ : Type} (view : σ → γ) (m : ExceptT ε (StateM σ) α) : Prop :=
  Respects (SameView view) m

end StateExcept
