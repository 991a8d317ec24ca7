import Haisos.PipeService.StopTokens

/-!
# Every callback is run when it is to be

What `RequestStop` finds registered it runs once, and what is constructed later runs on its
own thread.  Nothing is run once its `StopCallback` is destroyed.
-/

namespace Haisos.PipeService

/-! ## One token -/

structure Token.Sound {ι π : Type*} (value : Token ι π) : Prop where
  ids : (value.callbacks.map Registered.id).Nodup
  below : ∀ callback ∈ value.callbacks, callback.id < value.nextId
  toRun : value.toRun.Sublist value.callbacks
  ran : ∀ id, value.ran id =
    if value.due id = true ∧ id ∉ value.toRun.map Registered.id then 1 else 0
  due : value.stopRequested = true → ∀ callback ∈ value.callbacks, value.due callback.id = true
  dueStopped : ∀ id, value.due id = true → value.stopRequested = true ∧ id < value.nextId
  erased : ∀ id, value.erased id = true → id < value.nextId ∧
    id ∉ value.callbacks.map Registered.id
  completed : value.completed = true → value.stopRequested = true ∧ value.toRun = []
  unstopped : value.stopRequested = false → value.toRun = []

namespace Token.Sound

variable {ι π : Type*} {value : Token ι π}

theorem initial : Token.Sound (ι := ι) (π := π) {} :=
  ⟨List.nodup_nil, nofun, .slnil, fun _ => rfl, nofun, nofun, nofun, nofun, fun _ => rfl⟩

theorem mutex (h : value.Sound) (mutex : Option ι) : Token.Sound { value with mutex } :=
  { h with }

theorem register (h : value.Sound) (hstop : value.stopRequested = false) (pipe : π) :
    Token.Sound { value with
      nextId := value.nextId + 1
      callbacks := value.callbacks ++ [⟨value.nextId, pipe⟩] } where
  ids := by
    rw [List.map_append, List.map_singleton]
    refine List.Nodup.append h.ids (List.nodup_singleton _) ?_
    rw [List.disjoint_singleton]
    intro hmem
    obtain ⟨callback, hcallback, hid⟩ := List.mem_map.mp hmem
    exact absurd hid (h.below callback hcallback).ne
  below callback hcallback := by
    rcases List.mem_append.mp hcallback with hcallback | hcallback
    · exact Nat.lt_succ_of_lt (h.below callback hcallback)
    · rw [List.mem_singleton.mp hcallback]
      exact Nat.lt_succ_self _
  toRun := h.toRun.trans (List.sublist_append_left _ _)
  ran := h.ran
  due hstopped := absurd (hstopped.symm.trans hstop) nofun
  dueStopped id hdue := absurd ((h.dueStopped id hdue).1.symm.trans hstop) nofun
  erased id herased := by
    obtain ⟨hlt, hnot⟩ := h.erased id herased
    refine ⟨Nat.lt_succ_of_lt hlt, ?_⟩
    rw [List.map_append, List.mem_append]
    rintro (hmem | hmem)
    · exact hnot hmem
    · rw [List.map_singleton, List.mem_singleton] at hmem
      exact hlt.ne hmem
  completed hcompleted := absurd ((h.completed hcompleted).1.symm.trans hstop) nofun
  unstopped := h.unstopped

theorem request (h : value.Sound) (hstop : value.stopRequested = false) :
    Token.Sound { value with
      stopRequested := true
      toRun := value.callbacks
      due := fun id => value.due id || value.callbacks.any fun callback => callback.id == id } where
  ids := h.ids
  below := h.below
  toRun := .refl _
  ran id := by
    have hnotDue : value.due id = false :=
      Bool.eq_false_of_not_eq_true fun hdue => by
        rw [(h.dueStopped id hdue).1] at hstop
        cases hstop
    rw [h.ran id, hnotDue, if_neg (fun hand => nomatch hand.1), if_neg]
    rintro ⟨hdue, hnot⟩
    rcases Bool.or_eq_true_iff.mp hdue with hdue | hany
    · cases hnotDue.symm.trans hdue
    obtain ⟨callback, hcallback, hid⟩ := List.any_eq_true.mp hany
    exact hnot (List.mem_map.mpr ⟨callback, hcallback, beq_iff_eq.mp hid⟩)
  due _ callback hcallback := by
    have hany : (value.callbacks.any fun other => other.id == callback.id) = true :=
      List.any_eq_true.mpr ⟨callback, hcallback, beq_self_eq_true _⟩
    simp only [hany, Bool.or_true]
  dueStopped id hdue := by
    refine ⟨rfl, ?_⟩
    rcases Bool.or_eq_true_iff.mp hdue with hdue | hany
    · exact (h.dueStopped id hdue).2
    · obtain ⟨callback, hcallback, hid⟩ := List.any_eq_true.mp hany
      exact beq_iff_eq.mp hid ▸ h.below callback hcallback
  erased := h.erased
  completed hcompleted := absurd ((h.completed hcompleted).1.symm.trans hstop) nofun
  unstopped := nofun

theorem run (h : value.Sound) {callback : Registered π} {rest : List (Registered π)}
    (hrun : value.toRun = callback :: rest) :
    Token.Sound { value with
      toRun := value.toRun.tail
      ran := Function.update value.ran callback.id (value.ran callback.id + 1) } := by
  have hstopped : value.stopRequested = true :=
    Bool.eq_true_of_not_eq_false fun hstop => nomatch hrun.symm.trans (h.unstopped hstop)
  have hnodup : (callback.id :: rest.map Registered.id).Nodup := by
    have hsublist := h.toRun.map Registered.id
    rw [hrun, List.map_cons] at hsublist
    exact h.ids.sublist hsublist
  have hmem : callback ∈ value.callbacks := h.toRun.subset (hrun ▸ List.mem_cons_self)
  refine
    { h with
      toRun := (List.tail_sublist _).trans h.toRun
      ran := fun id => ?_
      completed := fun hcompleted => ?_
      unstopped := fun hstop => nomatch hstopped.symm.trans hstop }
  · have hran := h.ran id
    rw [hrun, List.map_cons] at hran
    dsimp only
    rw [hrun, List.tail_cons, Function.update_apply]
    by_cases hid : id = callback.id
    · subst hid
      rw [if_pos rfl, hran, if_neg (fun hand => hand.2 List.mem_cons_self),
        if_pos ⟨h.due hstopped callback hmem, (List.nodup_cons.mp hnodup).1⟩]
    · rw [if_neg hid, hran]
      simp only [List.mem_cons, hid, false_or]
  · have hnil := (h.completed hcompleted).2
    cases hrun.symm.trans hnil

theorem erase (h : value.Sound) (hrun : value.toRun = []) {id : Nat}
    (hid : id < value.nextId) (mutex : Option ι) :
    Token.Sound { value with
      mutex
      callbacks := value.callbacks.filter fun callback => callback.id != id
      erased := Function.update value.erased id true } where
  ids := h.ids.sublist (List.filter_sublist.map Registered.id)
  below callback hcallback := h.below callback (List.mem_of_mem_filter hcallback)
  toRun := hrun ▸ List.nil_sublist _
  ran := h.ran
  due hstopped callback hcallback := h.due hstopped callback (List.mem_of_mem_filter hcallback)
  dueStopped := h.dueStopped
  erased other herased := by
    dsimp only at herased ⊢
    by_cases hother : other = id
    · subst hother
      refine ⟨hid, fun hmem => ?_⟩
      obtain ⟨callback, hcallback, hsame⟩ := List.mem_map.mp hmem
      simp [hsame] at hcallback
    · rw [Function.update_of_ne hother] at herased
      obtain ⟨hlt, hnot⟩ := h.erased other herased
      exact ⟨hlt, fun hmem => hnot ((List.filter_sublist.map Registered.id).subset hmem)⟩
  completed := h.completed
  unstopped := h.unstopped

theorem complete (h : value.Sound) (hstop : value.stopRequested = true) (hrun : value.toRun = [])
    (mutex : Option ι) : Token.Sound { value with mutex, completed := true } :=
  { h with completed := fun _ => ⟨hstop, hrun⟩ }

theorem not_toRun (h : value.Sound) {id : Nat}
    (hover : value.completed = true ∨ value.erased id = true) :
    id ∉ value.toRun.map Registered.id := by
  rcases hover with hcompleted | herased
  · rw [(h.completed hcompleted).2]
    exact List.not_mem_nil
  · exact fun hmem => (h.erased id herased).2 ((h.toRun.map Registered.id).subset hmem)

end Token.Sound

/-! ## All threads and tokens -/

namespace Pipes

variable {ι τ π : Type*}

/-- What a thread that is past the constructor has registered, or has run itself. -/
def Constructed (s : Pipes ι τ π) (call : PipeCall τ π) : Option Nat → Prop
  | none => call.token = none ∧ call.ran = 0 ∨
      ∃ token, call.token = some token ∧ (s.token token).stopRequested = true ∧ call.ran = 1
  | some id => ∃ token, call.token = some token ∧
      ⟨id, call.pipe⟩ ∈ (s.token token).callbacks ∧ call.ran = 0

/-- What is true where a thread is. -/
def Fits (s : Pipes ι τ π) : Phase τ π → Prop
  | .constructing call | .checking call => call.ran = 0
  | .waking call | .notifying call =>
      call.ran = 0 ∧ ∃ token, call.token = some token ∧ (s.token token).stopRequested = true
  | .locking call id | .passing call id | .waiting call id | .destroying call id =>
      s.Constructed call id
  | .erasing call token id => ⟨id, call.pipe⟩ ∈ (s.token token).callbacks
  | .running token => (s.token token).stopRequested = true
  | .calling token callback | .notifyingAll token callback =>
      (s.token token).stopRequested = true ∧ ∃ rest, (s.token token).toRun = callback :: rest
  | _ => True

structure Registers (s : Pipes ι τ π) : Prop where
  tokens : ∀ token, (s.token token).Sound
  fits : ∀ thread, s.Fits (s.phase thread)
  apart : ∀ thread other token callback callback',
    (s.phase thread).registered = some (token, callback) →
    (s.phase other).registered = some (token, callback') → callback.id = callback'.id →
    thread = other
  running : ∀ token, (s.token token).toRun ≠ [] → ∃ thread, (s.phase thread).runs = some token
  ranErased : s.ranErased = false

/-- A thread that is left where it is, or taken out of a wait set. -/
def LeftAlone (before after : Phase τ π) : Prop :=
  after = before ∨ ∃ call id, before = .waiting call id ∧ after = .locking call id

theorem LeftAlone.trans {first second third : Phase τ π} (h : LeftAlone first second)
    (h' : LeftAlone second third) : LeftAlone first third := by
  rcases h with rfl | ⟨call, id, rfl, rfl⟩
  · exact h'
  · rcases h' with rfl | ⟨_, _, h', -⟩
    · exact .inr ⟨call, id, rfl, rfl⟩
    · cases h'

theorem LeftAlone.registered {before after : Phase τ π} (h : LeftAlone before after) :
    after.registered = before.registered := by
  rcases h with rfl | ⟨call, id | id, rfl, rfl⟩ <;> rfl

theorem LeftAlone.runs {before after : Phase τ π} (h : LeftAlone before after) :
    after.runs = before.runs := by
  rcases h with rfl | ⟨call, id, rfl, rfl⟩ <;> rfl

theorem LeftAlone.fits {s : Pipes ι τ π} {before after : Phase τ π} (h : LeftAlone before after)
    (hfits : s.Fits before) : s.Fits after := by
  rcases h with rfl | ⟨call, id, rfl, rfl⟩ <;> exact hfits

theorem Fits.mono {s t : Pipes ι τ π} {phase : Phase τ π} (h : s.Fits phase)
    (hstop : ∀ token, (s.token token).stopRequested = true →
      (t.token token).stopRequested = true)
    (hcallbacks : ∀ token callback, phase.registered = some (token, callback) →
      callback ∈ (s.token token).callbacks → callback ∈ (t.token token).callbacks)
    (htoRun : ∀ token, phase.runs = some token →
      (t.token token).toRun = (s.token token).toRun) : t.Fits phase := by
  have hconstructed (call : PipeCall τ π) (id : Option Nat) (hs : s.Constructed call id)
      (hregistered : ∀ token n, call.token = some token → id = some n →
        phase.registered = some (token, ⟨n, call.pipe⟩)) : t.Constructed call id := by
    cases id with
    | none =>
        refine hs.imp_right ?_
        rintro ⟨token, htoken, hstopped, hran⟩
        exact ⟨token, htoken, hstop token hstopped, hran⟩
    | some id =>
        obtain ⟨token, htoken, hmem, hran⟩ := hs
        exact ⟨token, htoken, hcallbacks token _ (hregistered token id htoken rfl) hmem, hran⟩
  have hwoken (call : PipeCall τ π)
      (hs : call.ran = 0 ∧ ∃ token, call.token = some token ∧
        (s.token token).stopRequested = true) :
      call.ran = 0 ∧ ∃ token, call.token = some token ∧
        (t.token token).stopRequested = true := by
    obtain ⟨hran, token, htoken, hstopped⟩ := hs
    exact ⟨hran, token, htoken, hstop token hstopped⟩
  cases phase with
  | locking call id | passing call id | waiting call id | destroying call id =>
      refine hconstructed call id h ?_
      rintro token n htoken rfl
      simp [Phase.registered, htoken]
  | waking call | notifying call => exact hwoken call h
  | erasing call token id => exact hcallbacks token _ rfl h
  | running token => exact hstop token h
  | calling token callback | notifyingAll token callback =>
      obtain ⟨hstopped, rest, hrun⟩ := h
      exact ⟨hstop token hstopped, rest, (htoRun token rfl).trans hrun⟩
  | constructing call | checking call => exact h
  | idle | stopping token | requesting token | closing pipe readEnd | closed pipe readEnd => trivial

theorem Fits.registered_mem {s : Pipes ι τ π} {phase : Phase τ π} (h : s.Fits phase) {token : τ}
    {callback : Registered π} (hregistered : phase.registered = some (token, callback)) :
    callback ∈ (s.token token).callbacks := by
  have hconstructed (call : PipeCall τ π) (id : Nat) (hs : s.Constructed call (some id))
      (hmap : (call.token.map fun token => (token, (⟨id, call.pipe⟩ : Registered π))) =
        some (token, callback)) : callback ∈ (s.token token).callbacks := by
    obtain ⟨token', htoken, hmem, -⟩ := hs
    rw [htoken, Option.map_some] at hmap
    cases hmap
    exact hmem
  cases phase with
  | locking call id | passing call id | waiting call id | destroying call id =>
      cases id with
      | none => cases hregistered
      | some id => exact hconstructed call id h hregistered
  | erasing call token' id =>
      cases hregistered
      exact h
  | _ => cases hregistered

theorem tokenHeld_of_runs {phase : Phase τ π} {token : τ} (h : phase.runs = some token) :
    phase.tokenHeld = some token := by
  cases phase <;> first | exact h | cases h

/-- Who holds a token's mutex and runs no callbacks finds none to run. -/
theorem Registers.toRun_eq_nil {s : Pipes ι τ π} (h : s.Registers) (howned : s.Owned) {thread : ι}
    {token : τ} (hheld : (s.phase thread).tokenHeld = some token)
    (hruns : (s.phase thread).runs = none) : (s.token token).toRun = [] := by
  by_contra hrun
  obtain ⟨other, hother⟩ := h.running token hrun
  have hmutex := (howned.token token thread).mpr hheld
  cases hmutex.symm.trans ((howned.token token other).mpr (tokenHeld_of_runs hother))
  cases hruns.symm.trans hother

@[simp]
theorem registered_passing (call : PipeCall τ π) (id : Option Nat) :
    (Phase.passing call id).registered = (Phase.locking call id).registered := by
  cases id <;> rfl

@[simp]
theorem registered_waiting (call : PipeCall τ π) (id : Option Nat) :
    (Phase.waiting call id).registered = (Phase.locking call id).registered := by
  cases id <;> rfl

@[simp]
theorem registered_destroying (call : PipeCall τ π) (id : Option Nat) :
    (Phase.destroying call id).registered = (Phase.locking call id).registered := by
  cases id <;> rfl

section

variable [DecidableEq π]

theorem leftAlone_notified (phase : Phase τ π) (pipe : π) (readers : Bool) :
    LeftAlone phase (phase.notified pipe readers) := by
  cases phase with
  | waiting call id =>
      rw [Phase.notified]
      split_ifs
      · exact .inr ⟨call, id, rfl, rfl⟩
      · exact .inl rfl
  | _ => exact .inl rfl

theorem leftAlone_notify (s : Pipes ι τ π) (pipe : π) (readers : Bool) (thread : ι) :
    LeftAlone (s.phase thread) ((s.notify pipe readers).phase thread) :=
  leftAlone_notified ..

end

section

variable [DecidableEq τ]

theorem setToken_of_ne (s : Pipes ι τ π) {token other : τ} (value : Token ι π)
    (h : other ≠ token) : (s.setToken token value).token other = s.token other :=
  Function.update_of_ne h ..

theorem setToken_self (s : Pipes ι τ π) (token : τ) (value : Token ι π) :
    (s.setToken token value).token token = value := Function.update_self ..

end

variable [DecidableEq ι]

/-- One thread goes on, and all others are left alone or woken. -/
theorem Registers.move {s t : Pipes ι τ π} (h : s.Registers) (thread : ι)
    (hothers : ∀ other, other ≠ thread → LeftAlone (s.phase other) (t.phase other))
    (htokens : ∀ token, (t.token token).Sound)
    (hstop : ∀ token, (s.token token).stopRequested = true →
      (t.token token).stopRequested = true)
    (hcallbacks : ∀ other, other ≠ thread → ∀ token callback,
      (s.phase other).registered = some (token, callback) →
      callback ∈ (s.token token).callbacks → callback ∈ (t.token token).callbacks)
    (htoRun : ∀ other, other ≠ thread → ∀ token, (s.phase other).runs = some token →
      (t.token token).toRun = (s.token token).toRun)
    (hfits : t.Fits (t.phase thread))
    (hregistered : ∀ token callback, (t.phase thread).registered = some (token, callback) →
      (s.phase thread).registered = some (token, callback) ∨
        ∀ other ∈ (s.token token).callbacks, other.id ≠ callback.id)
    (hrunning : ∀ token, (t.token token).toRun ≠ [] → (t.phase thread).runs = some token ∨
      (s.token token).toRun ≠ [] ∧ (s.phase thread).runs ≠ some token)
    (hranErased : t.ranErased = false) : t.Registers where
  tokens := htokens
  fits other := by
    by_cases hother : other = thread
    · rw [hother]
      exact hfits
    · exact (hothers other hother).fits ((h.fits other).mono hstop (hcallbacks other hother)
        (htoRun other hother))
  apart first second token callback callback' hfirst hsecond hids := by
    have hsame (other : ι) (hother : other ≠ thread) :=
      (hothers other hother).registered
    by_cases hone : first = thread <;> by_cases htwo : second = thread
    · rw [hone, htwo]
    · rw [hsame second htwo] at hsecond
      rw [hone] at hfirst ⊢
      rcases hregistered token callback hfirst with hbefore | hfresh
      · exact h.apart thread second token callback callback' hbefore hsecond hids
      · exact absurd hids.symm (hfresh callback' ((h.fits second).registered_mem hsecond))
    · rw [hsame first hone] at hfirst
      rw [htwo] at hsecond ⊢
      rcases hregistered token callback' hsecond with hbefore | hfresh
      · exact h.apart first thread token callback callback' hfirst hbefore hids
      · exact absurd hids (hfresh callback ((h.fits first).registered_mem hfirst))
    · rw [hsame first hone] at hfirst
      rw [hsame second htwo] at hsecond
      exact h.apart first second token callback callback' hfirst hsecond hids
  running token hrun := by
    rcases hrunning token hrun with hthread | ⟨hbefore, hnot⟩
    · exact ⟨thread, hthread⟩
    · obtain ⟨other, hother⟩ := h.running token hbefore
      have hne : other ≠ thread := by
        rintro rfl
        exact hnot hother
      exact ⟨other, (hothers other hne).runs.trans hother⟩
  ranErased := hranErased

theorem leftAlone_goTo (s : Pipes ι τ π) {thread other : ι} (phase : Phase τ π)
    (h : other ≠ thread) : LeftAlone (s.phase other) ((s.goTo thread phase).phase other) :=
  .inl (Function.update_of_ne h ..)

/-! ## Steps -/

variable [DecidableEq τ]

theorem Registers.same {s t : Pipes ι τ π} (h : s.Registers) (thread : ι)
    (hothers : ∀ other, other ≠ thread → LeftAlone (s.phase other) (t.phase other))
    (htoken : ∀ token, t.token token = { s.token token with mutex := (t.token token).mutex })
    (hfits : s.Fits (t.phase thread))
    (hregistered : ∀ token callback, (t.phase thread).registered = some (token, callback) →
      (s.phase thread).registered = some (token, callback))
    (hruns : (t.phase thread).runs = (s.phase thread).runs)
    (hranErased : t.ranErased = s.ranErased) : t.Registers := by
  refine h.move thread hothers (fun token => ?_) (fun token hs => ?_) (fun _ _ token _ _ hs => ?_)
    (fun _ _ token _ => ?_) (hfits.mono (fun token hs => ?_) (fun token _ _ hs => ?_)
    fun token _ => ?_) (fun token callback hs => .inl (hregistered token callback hs))
    (fun token hs => ?_) (hranErased.trans h.ranErased)
  · rw [htoken]
    exact (h.tokens token).mutex _
  · rw [htoken]
    exact hs
  · rw [htoken]
    exact hs
  · rw [htoken]
  · rw [htoken]
    exact hs
  · rw [htoken]
    exact hs
  · rw [htoken]
  · rw [htoken] at hs
    by_cases hthread : (s.phase thread).runs = some token
    · exact .inl (hruns.trans hthread)
    · exact .inr ⟨hs, hthread⟩

theorem Registers.lockToken {s t : Pipes ι τ π} (h : s.Registers) {thread : ι} {token : τ}
    {phase : Phase τ π} (hstep : s.lockToken thread token phase = some t) (hfits : s.Fits phase)
    (hregistered : ∀ token callback, phase.registered = some (token, callback) →
      (s.phase thread).registered = some (token, callback))
    (hruns : phase.runs = (s.phase thread).runs) : t.Registers := by
  rw [Pipes.lockToken] at hstep
  split_ifs at hstep
  cases hstep
  refine h.same thread (fun other hother => leftAlone_goTo _ phase hother) (fun other => ?_) ?_ ?_ ?_
    rfl
  · by_cases hother : other = token
    · subst hother
      simp
    · simp [Function.update_of_ne hother]
  · simpa using hfits
  · simpa using hregistered
  · simpa using hruns

theorem Registers.goesOn {s t : Pipes ι τ π} (h : s.Registers) {thread : ι} {phase : Phase τ π}
    (hothers : ∀ other, other ≠ thread → LeftAlone (s.phase other) (t.phase other))
    (htoken : t.token = s.token) (hthread : t.phase thread = phase) (hfits : s.Fits phase)
    (hregistered : ∀ token callback, phase.registered = some (token, callback) →
      (s.phase thread).registered = some (token, callback))
    (hruns : phase.runs = (s.phase thread).runs) (hran : t.ranErased = s.ranErased) :
    t.Registers :=
  h.same thread hothers (fun token => by rw [htoken]) (hthread ▸ hfits) (hthread ▸ hregistered)
    (hthread ▸ hruns) hran

theorem Registers.setToken {s : Pipes ι τ π} (h : s.Registers) {thread : ι} {token : τ}
    {value : Token ι π} {phase : Phase τ π} (hvalue : value.Sound)
    (hstop : (s.token token).stopRequested = true → value.stopRequested = true)
    (hcallbacks : ∀ other, other ≠ thread → ∀ callback,
      (s.phase other).registered = some (token, callback) →
      callback ∈ (s.token token).callbacks → callback ∈ value.callbacks)
    (htoRun : ∀ other, other ≠ thread → (s.phase other).runs = some token →
      value.toRun = (s.token token).toRun)
    (hfits : (s.setToken token value).Fits phase)
    (hregistered : ∀ token callback, phase.registered = some (token, callback) →
      (s.phase thread).registered = some (token, callback) ∨
        ∀ other ∈ (s.token token).callbacks, other.id ≠ callback.id)
    (hrunning : value.toRun ≠ [] → phase.runs = some token ∨
      (s.token token).toRun ≠ [] ∧ (s.phase thread).runs ≠ some token)
    (hruns : ∀ other, other ≠ token → (s.phase thread).runs ≠ some other) :
    ((s.setToken token value).goTo thread phase).Registers := by
  refine h.move thread (fun other hother => leftAlone_goTo _ phase hother) (fun other => ?_)
    (fun other hs => ?_) (fun other hne token' callback hr hs => ?_) (fun other hne token' hr => ?_)
    ?_ ?_ (fun other hs => ?_) h.ranErased
  · by_cases hother : other = token
    · subst hother
      simpa using hvalue
    · simpa [Function.update_of_ne hother] using h.tokens other
  · by_cases hother : other = token
    · subst hother
      simpa using hstop hs
    · simpa [Function.update_of_ne hother] using hs
  · by_cases hother : token' = token
    · subst hother
      simpa using hcallbacks other hne callback hr hs
    · simpa [Function.update_of_ne hother] using hs
  · by_cases hother : token' = token
    · subst hother
      simpa using htoRun other hne hr
    · simp [Function.update_of_ne hother]
  · have hphase : ((s.setToken token value).goTo thread phase).phase thread = phase :=
      Function.update_self ..
    rw [hphase]
    exact hfits.mono (fun _ => id) (fun _ _ _ => id) fun _ _ => rfl
  · simpa using hregistered
  · by_cases hother : other = token
    · subst hother
      simpa using hrunning (by simpa using hs)
    · refine .inr ⟨by simpa [Function.update_of_ne hother] using hs, hruns other hother⟩

theorem Registers.construct {s : Pipes ι τ π} (h : s.Registers) {thread : ι}
    {call : PipeCall τ π} {token : τ} (hphase : s.phase thread = .checking call)
    (htoken : call.token = some token) : (s.construct thread call token).Registers := by
  have hran : call.ran = 0 := by
    have hfits := h.fits thread
    rwa [hphase] at hfits
  have hnone : (s.phase thread).registered = none := by rw [hphase]; rfl
  have hnotRuns (other : τ) : (s.phase thread).runs ≠ some other := by rw [hphase]; rintro ⟨⟩
  rw [Pipes.construct]
  split_ifs with hstop
  · refine h.setToken ((h.tokens token).mutex none) id (fun _ _ _ _ => id) (fun _ _ _ => rfl)
      ⟨hran, token, htoken, by simpa using hstop⟩ (by rintro _ _ ⟨⟩) (fun hrun => ?_)
      fun other _ => hnotRuns other
    exact .inr ⟨hrun, hnotRuns token⟩
  · refine h.setToken (((h.tokens token).register (Bool.eq_false_of_not_eq_true hstop)
      call.pipe).mutex none) id (fun _ _ _ _ => List.mem_append_left _) (fun _ _ _ => rfl)
      ⟨token, htoken, ?_, hran⟩ (fun other callback hregistered => .inr ?_) (fun hrun => ?_)
      fun other _ => hnotRuns other
    · rw [setToken_self]
      exact List.mem_append_right _ (List.mem_singleton_self _)
    · simp only [Phase.registered, htoken, Option.map_some, Option.some.injEq, Prod.mk.injEq]
        at hregistered
      obtain ⟨rfl, rfl⟩ := hregistered
      exact fun earlier hearlier => ((h.tokens token).below earlier hearlier).ne
    · exact .inr ⟨hrun, hnotRuns token⟩

theorem Registers.erase {s : Pipes ι τ π} (h : s.Registers) (howned : s.Owned) {thread : ι}
    {call : PipeCall τ π} {token : τ} {id : Nat} (hphase : s.phase thread = .erasing call token id) :
    (s.erase thread token id).Registers := by
  have hmem : ⟨id, call.pipe⟩ ∈ (s.token token).callbacks := by
    have hfits := h.fits thread
    rwa [hphase] at hfits
  have hnil : (s.token token).toRun = [] :=
    h.toRun_eq_nil howned (by rw [hphase]; rfl) (by rw [hphase]; rfl)
  refine h.setToken ((h.tokens token).erase hnil ((h.tokens token).below _ hmem) none) (fun hs => hs)
    (fun other hother callback hregistered hs => ?_) (fun _ _ _ => rfl) trivial nofun
    (fun hrun => absurd hnil hrun) fun other _ => by rw [hphase]; exact nofun
  -- the ids of two threads differ
  refine List.mem_filter.mpr ⟨hs, bne_iff_ne.mpr fun hid => hother ?_⟩
  exact h.apart other thread token callback ⟨id, call.pipe⟩ hregistered (by rw [hphase]; rfl) hid

theorem Registers.complete {s : Pipes ι τ π} (h : s.Registers) {thread : ι} {token : τ}
    (hstop : (s.token token).stopRequested = true) (hnil : (s.token token).toRun = [])
    (hruns : ∀ other, other ≠ token → (s.phase thread).runs ≠ some other) :
    ((s.setToken token { s.token token with mutex := none, completed := true }).goTo thread
      .idle).Registers :=
  h.setToken ((h.tokens token).complete hstop hnil none) (fun _ => hstop) (fun _ _ _ _ hs => hs)
    (fun _ _ _ => rfl) trivial nofun (fun hrun => absurd hnil hrun) hruns

theorem Registers.request {s : Pipes ι τ π} (h : s.Registers) (howned : s.Owned) {thread : ι}
    {token : τ} (hphase : s.phase thread = .requesting token) :
    (s.request thread token).Registers := by
  have hnotRuns (other : τ) : (s.phase thread).runs ≠ some other := by rw [hphase]; rintro ⟨⟩
  have hnil : (s.token token).toRun = [] :=
    h.toRun_eq_nil howned (by rw [hphase]; rfl) (by rw [hphase]; rfl)
  rw [Pipes.request]
  split_ifs with hstop
  · exact h.complete hstop hnil fun other _ => hnotRuns other
  · refine h.setToken ((h.tokens token).request (Bool.eq_false_of_not_eq_true hstop)) (fun _ => rfl)
      (fun _ _ _ _ hs => hs) (fun other hother hruns => ?_) ?_ (by rintro _ _ ⟨⟩)
      (fun _ => .inl rfl) fun other _ => hnotRuns other
    · have hheld := (howned.token token other).mpr (tokenHeld_of_runs hruns)
      have hmine := (howned.token token thread).mpr (by rw [hphase]; rfl)
      exact absurd (Option.some.inj (hheld.symm.trans hmine)) hother
    · change ((s.setToken token _).token token).stopRequested = true
      rw [setToken_self]

theorem Registers.runNext {s : Pipes ι τ π} (h : s.Registers) {thread : ι} {token : τ}
    (hphase : s.phase thread = .running token) : (s.runNext thread token).Registers := by
  have hstop : (s.token token).stopRequested = true := by
    have hfits := h.fits thread
    rwa [hphase] at hfits
  rw [Pipes.runNext]
  split
  case h_1 hnil =>
    refine h.complete hstop hnil fun other hother => ?_
    rw [hphase]
    exact fun hruns => hother (Option.some.inj hruns).symm
  case h_2 callback rest hrun =>
    exact h.goesOn (fun other hother => leftAlone_goTo s _ hother) rfl (Function.update_self ..)
      ⟨hstop, rest, hrun⟩ (by rintro _ _ ⟨⟩) (by rw [hphase]; rfl) rfl

theorem Registers.passed {s t : Pipes ι τ π} (h : s.Registers) {thread : ι}
    {call : PipeCall τ π} {id : Option Nat} (hphase : s.phase thread = .passing call id)
    (hothers : ∀ other, other ≠ thread → LeftAlone (s.phase other) (t.phase other))
    (hthread : t.phase thread = .destroying call id ∨ t.phase thread = .waiting call id ∨
      ∃ op, t.phase thread = .passing { call with op } id)
    (htoken : t.token = s.token) (hran : t.ranErased = s.ranErased) : t.Registers := by
  have hfits : s.Constructed call id := by
    have hfits := h.fits thread
    rwa [hphase] at hfits
  rcases hthread with hthread | hthread | ⟨op, hthread⟩
  · refine h.goesOn hothers htoken hthread hfits (fun token callback hr => ?_)
      (by rw [hphase]; rfl) hran
    rw [hphase]
    simpa using hr
  · refine h.goesOn hothers htoken hthread hfits (fun token callback hr => ?_)
      (by rw [hphase]; rfl) hran
    rw [hphase]
    simpa using hr
  · cases id with
    | none => exact h.goesOn hothers htoken hthread hfits nofun (by rw [hphase]; rfl) hran
    | some id =>
        refine h.goesOn hothers htoken hthread hfits (fun token callback hr => ?_)
          (by rw [hphase]; rfl) hran
        rw [hphase]
        exact hr

variable [DecidableEq π]

theorem Registers.lockPipe {s t : Pipes ι τ π} (h : s.Registers) {thread : ι} {pipe : π}
    {phase : Phase τ π} (hstep : s.lockPipe thread pipe phase = some t) (hfits : s.Fits phase)
    (hregistered : ∀ token callback, phase.registered = some (token, callback) →
      (s.phase thread).registered = some (token, callback))
    (hruns : phase.runs = (s.phase thread).runs) : t.Registers := by
  rw [Pipes.lockPipe] at hstep
  split_ifs at hstep
  cases hstep
  exact h.goesOn (fun other hother => leftAlone_goTo _ phase hother) rfl (Function.update_self ..)
    hfits hregistered hruns rfl

theorem Registers.runCallback {s : Pipes ι τ π} (h : s.Registers) (howned : s.Owned) {thread : ι}
    {token : τ} {callback : Registered π} (hphase : s.phase thread = .notifyingAll token callback) :
    (s.runCallback thread token callback).Registers := by
  obtain ⟨hstop, rest, hrun⟩ : (s.token token).stopRequested = true ∧
      ∃ rest, (s.token token).toRun = callback :: rest := by
    have hfits := h.fits thread
    rwa [hphase] at hfits
  have hmem : callback ∈ (s.token token).callbacks :=
    (h.tokens token).toRun.subset (hrun ▸ List.mem_cons_self)
  have hnotErased : (s.token token).erased callback.id = false := by
    refine Bool.eq_false_of_not_eq_true fun herased => ?_
    exact ((h.tokens token).erased _ herased).2 (List.mem_map_of_mem hmem)
  have hphase' : (s.runCallback thread token callback).phase thread = .running token := by
    simp [Pipes.runCallback]
  have htoken (other : τ) (hother : other ≠ token) :
      (s.runCallback thread token callback).token other = s.token other := by
    simp [Pipes.runCallback, Function.update_of_ne hother]
  have hself : (s.runCallback thread token callback).token token =
      { s.token token with
        toRun := (s.token token).toRun.tail
        ran := Function.update (s.token token).ran callback.id
          ((s.token token).ran callback.id + 1) } := by
    simp [Pipes.runCallback]
  refine h.move thread (fun other hother => ?_) (fun other => ?_) (fun other hs => ?_)
    (fun other _ token' _ _ hs => ?_) (fun other hother token' hruns => ?_) ?_ ?_
    (fun other hs => ?_) ?_
  · have hwoken := (leftAlone_notified (s.phase other) callback.pipe true).trans
      (leftAlone_notified _ callback.pipe false)
    simpa [Pipes.runCallback, Function.update_of_ne hother] using hwoken
  · by_cases hother : other = token
    · rw [hother, hself]
      exact (h.tokens token).run hrun
    · rw [htoken other hother]
      exact h.tokens other
  · by_cases hother : other = token
    · rw [hother, hself]
      exact hstop
    · rw [htoken other hother]
      exact hs
  · by_cases hother : token' = token
    · rw [hother] at hs ⊢
      rw [hself]
      exact hs
    · rw [htoken token' hother]
      exact hs
  · refine congrArg Token.toRun (htoken token' ?_)
    rintro rfl
    have hheld := (howned.token token' other).mpr (tokenHeld_of_runs hruns)
    have hmine := (howned.token token' thread).mpr (by rw [hphase]; rfl)
    exact hother (Option.some.inj (hheld.symm.trans hmine))
  · rw [hphase']
    change ((s.runCallback thread token callback).token token).stopRequested = true
    rw [hself]
    exact hstop
  · rw [hphase']
    rintro _ _ ⟨⟩
  · rw [hphase', hphase]
    by_cases hother : other = token
    · rw [hother]
      exact .inl rfl
    · rw [htoken other hother] at hs
      exact .inr ⟨hs, fun hruns => hother (Option.some.inj hruns).symm⟩
  · simp [Pipes.runCallback, h.ranErased, hnotErased]

theorem Registers.passRead {s : Pipes ι τ π} (h : s.Registers) {thread : ι}
    {call : PipeCall τ π} {id : Option Nat} {count : Nat}
    (hphase : s.phase thread = .passing call id) :
    (s.passRead thread call id count).Registers := by
  rw [Pipes.passRead]
  split
  · refine h.passed hphase (fun other hother => ?_) (.inl (Function.update_self ..)) ?_ ?_
    · rw [goTo_phase, Function.update_of_ne hother]
      split_ifs
      · exact leftAlone_notify ..
      · exact .inl rfl
    · dsimp only [goTo_token]
      split_ifs <;> rfl
    · dsimp only [goTo_ranErased]
      split_ifs <;> rfl
  · exact h.passed hphase (fun other hother => leftAlone_goTo _ _ hother)
      (.inr (.inl (Function.update_self ..))) rfl rfl

theorem Registers.passWrite {s : Pipes ι τ π} (h : s.Registers) {thread : ι}
    {call : PipeCall τ π} {id : Option Nat} {buf : List UInt8} {written : Nat}
    (hphase : s.phase thread = .passing call id) :
    (s.passWrite thread call id buf written).Registers := by
  rw [Pipes.passWrite]
  split
  · refine h.passed hphase (fun other hother => ?_) (.inl (Function.update_self ..)) ?_ ?_
    · rw [goTo_phase, Function.update_of_ne hother]
      split_ifs
      · exact leftAlone_notify ..
      · exact .inl rfl
    · dsimp only [goTo_token]
      split_ifs <;> rfl
    · dsimp only [goTo_ranErased]
      split_ifs <;> rfl
  · refine h.passed hphase (fun other hother => ?_)
      (.inr (.inr ⟨_, Function.update_self ..⟩)) rfl rfl
    rw [goTo_phase, Function.update_of_ne hother]
    exact leftAlone_notify ..
  · exact h.passed hphase (fun other hother => leftAlone_goTo _ _ hother)
      (.inr (.inl (Function.update_self ..))) rfl rfl

theorem Registers.next {s t : Pipes ι τ π} (h : s.Registers) (howned : s.Owned) {thread : ι}
    (hstep : s.next thread = some t) : t.Registers := by
  have hfits := h.fits thread
  rw [Pipes.next.eq_def] at hstep
  split at hstep
  case h_1 => cases hstep
  case h_2 => cases hstep
  case h_3 call hphase =>
    rw [hphase] at hfits
    split at hstep
    case h_1 token htoken => exact h.lockToken hstep hfits (by rintro _ _ ⟨⟩) (by rw [hphase]; rfl)
    case h_2 htoken =>
      cases hstep
      exact h.goesOn (fun other hother => leftAlone_goTo s _ hother) rfl (Function.update_self ..)
        (.inl ⟨htoken, hfits⟩) (by rintro _ _ ⟨⟩) (by rw [hphase]; rfl) rfl
  case h_4 call hphase =>
    split at hstep
    case h_1 token htoken =>
      cases hstep
      exact h.construct hphase htoken
    case h_2 => cases hstep
  case h_5 call hphase =>
    rw [hphase] at hfits
    exact h.lockPipe hstep hfits (by rintro _ _ ⟨⟩) (by rw [hphase]; rfl)
  case h_6 call hphase =>
    rw [hphase] at hfits
    obtain ⟨hran, token, htoken, hstop⟩ := hfits
    cases hstep
    refine h.goesOn (fun other hother => ?_) rfl (Function.update_self ..)
      (.inr ⟨token, htoken, hstop, ?_⟩) (by rintro _ _ ⟨⟩) (by rw [hphase]; rfl) rfl
    · rw [goTo_phase, Function.update_of_ne hother]
      exact (leftAlone_notify s call.pipe true other).trans (leftAlone_notify _ call.pipe false other)
    · change call.ran + 1 = 1
      rw [hran]
  case h_7 call id hphase =>
    rw [hphase] at hfits
    refine h.lockPipe hstep hfits (fun token callback hr => ?_) (by rw [hphase]; rfl)
    rw [hphase]
    simpa using hr
  case h_8 call id hphase =>
    split at hstep <;> cases hstep
    · exact h.passRead hphase
    · exact h.passWrite hphase
  case h_9 call id hphase =>
    rw [hphase] at hfits
    split at hstep
    case h_1 token id htoken =>
      obtain ⟨token', htoken', hmem, -⟩ := hfits
      cases htoken.symm.trans htoken'
      refine h.lockToken hstep hmem (fun other callback hr => ?_) (by rw [hphase]; rfl)
      rw [hphase]
      cases hr
      simp [Phase.registered, htoken]
    case h_2 =>
      cases hstep
      exact h.goesOn (fun other hother => leftAlone_goTo s _ hother) rfl (Function.update_self ..)
        trivial (by rintro _ _ ⟨⟩) (by rw [hphase]; rfl) rfl
  case h_10 call token id hphase =>
    cases hstep
    exact h.erase howned hphase
  case h_11 token hphase => exact h.lockToken hstep trivial (by rintro _ _ ⟨⟩) (by rw [hphase]; rfl)
  case h_12 token hphase =>
    cases hstep
    exact h.request howned hphase
  case h_13 token hphase =>
    cases hstep
    exact h.runNext hphase
  case h_14 token callback hphase =>
    rw [hphase] at hfits
    exact h.lockPipe hstep hfits (by rintro _ _ ⟨⟩) (by rw [hphase]; rfl)
  case h_15 token callback hphase =>
    cases hstep
    exact h.runCallback howned hphase
  case h_16 pipe readEnd hphase =>
    exact h.lockPipe hstep trivial (by rintro _ _ ⟨⟩) (by rw [hphase]; rfl)
  case h_17 pipe readEnd hphase =>
    cases hstep
    refine h.goesOn (fun other hother => ?_) rfl (Function.update_self ..) trivial
      (by rintro _ _ ⟨⟩) (by rw [hphase]; rfl) rfl
    rw [Pipes.closeEnd, goTo_phase, Function.update_of_ne hother]
    exact leftAlone_notify ..

theorem Registers.step {s t : Pipes ι τ π} (h : s.Registers) (howned : s.Owned)
    {action : StopAction ι τ π} (hstep : step action s = some t) : t.Registers := by
  have hgoTo (thread : ι) (phase : Phase τ π) (hfits : s.Fits phase)
      (hregistered : ∀ token callback, phase.registered = some (token, callback) →
        (s.phase thread).registered = some (token, callback))
      (hruns : phase.runs = (s.phase thread).runs) : (s.goTo thread phase).Registers :=
    h.goesOn (fun other hother => leftAlone_goTo s _ hother) rfl (Function.update_self ..) hfits
      hregistered hruns rfl
  rcases step_cases hstep with ⟨thread, hnext⟩ | rfl | ⟨thread, pipe, token, op, hidle, rfl⟩ |
    ⟨thread, token, hidle, rfl⟩ | ⟨thread, pipe, readEnd, hidle, rfl⟩ |
    ⟨thread, call, id, hwaiting, rfl⟩
  · exact h.next howned hnext
  · exact h
  · exact hgoTo thread _ rfl nofun (by rw [hidle]; rfl)
  · exact hgoTo thread _ trivial nofun (by rw [hidle]; rfl)
  · exact hgoTo thread _ trivial nofun (by rw [hidle]; rfl)
  · have hfits := h.fits thread
    rw [hwaiting] at hfits
    refine hgoTo thread _ hfits (fun token callback hr => ?_) (by rw [hwaiting]; rfl)
    rw [hwaiting]
    simpa using hr

end Pipes

end Haisos.PipeService
