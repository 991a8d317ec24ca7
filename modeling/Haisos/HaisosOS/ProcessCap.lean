import Haisos.Transition

/-!
# The cap on the processes of an OS

Any number of threads call `StartProcess` while processes finish.  The check against
the cap, the making of the process and its addition to the list are steps of their own.
-/

namespace Haisos.HaisosOS

def MAX_CONCURRENT_PROCESSES : Nat := 1024

inductive Program where
  | builtin
  | md
  | lua
  | unsupported
  deriving DecidableEq, Repr

/-- Where a call of `StartProcess` is. -/
inductive Start where
  | checking (program : Program)
  | creating (program : Program)
  | adding (pid : Nat)
  | returning (pid : Nat)
  deriving DecidableEq, Repr

structure Processes (ι : Type*) where
  /-- `m_processes`. -/
  processes : List Nat := []
  shuttingDown : Bool := false
  created : Nat := 0
  finished : Nat → Bool := fun _ => false
  call : ι → Option Start := fun _ => none
  /-- The calls that have passed the check and not yet created their process. -/
  admitted : Finset ι := ∅
  returned : List Nat := []

inductive StartAction (ι : Type*) where
  | startProcess (thread : ι) (environment : Bool) (program : Program)
  /-- `creates` is whether the runtime makes the process. -/
  | next (thread : ι) (creates : Bool)
  | finish (pid : Nat)
  | shutDown
  | drain

namespace Processes

variable {ι : Type*} [DecidableEq ι]

def goTo (s : Processes ι) (thread : ι) (call : Option Start) : Processes ι :=
  { s with call := Function.update s.call thread call }

def CleanupFinishedProcesses (s : Processes ι) : Processes ι :=
  { s with processes := s.processes.filter fun pid => !s.finished pid }

def running (s : Processes ι) : Nat :=
  ((List.range s.created).filter fun pid => !s.finished pid).length

def check (s : Processes ι) (thread : ι) (program : Program) : Processes ι :=
  let s := s.CleanupFinishedProcesses
  if s.processes.length ≥ MAX_CONCURRENT_PROCESSES then s.goTo thread none
  else { s with admitted := insert thread s.admitted }.goTo thread (some (.creating program))

def create (s : Processes ι) (thread : ι) (program : Program) (creates : Bool) : Processes ι :=
  let s := { s with admitted := s.admitted.erase thread }
  if program = .unsupported ∨ creates = false then s.goTo thread none
  else { s with created := s.created + 1 }.goTo thread (some (.adding s.created))

def add (s : Processes ι) (thread : ι) (pid : Nat) : Processes ι :=
  let s := s.CleanupFinishedProcesses
  { s with processes := s.processes ++ [pid] }.goTo thread (some (.returning pid))

/-- The next step of a thread's call. -/
def next (s : Processes ι) (thread : ι) (creates : Bool) : Option (Processes ι) :=
  match s.call thread with
  | none => none
  | some (.checking program) => some (s.check thread program)
  | some (.creating program) => some (s.create thread program creates)
  | some (.adding pid) => some (s.add thread pid)
  | some (.returning pid) => some ({ s with returned := pid :: s.returned }.goTo thread none)

def step : StartAction ι → Processes ι → Option (Processes ι)
  | .startProcess thread environment program, s =>
      if (s.call thread).isSome then none
      else if !environment || s.shuttingDown then some s
      else some (s.goTo thread (some (.checking program)))
  | .next thread creates, s => s.next thread creates
  | .finish pid, s =>
      if pid < s.created then some { s with finished := Function.update s.finished pid true }
      else none
  | .shutDown, s => some { s with shuttingDown := true }
  | .drain, s => if s.shuttingDown then some { s with processes := [] } else none

/-! ## What is started and what is in the list -/

structure Sound (s : Processes ι) : Prop where
  admitted : ∀ thread, thread ∈ s.admitted ↔
    ∃ program, s.call thread = some (.creating program)
  returning : ∀ thread pid, s.call thread = some (.returning pid) → s.shuttingDown = false →
    s.finished pid = true ∨ pid ∈ s.processes
  returned : ∀ pid ∈ s.returned, s.shuttingDown = false →
    s.finished pid = true ∨ pid ∈ s.processes

theorem goTo_call (s : Processes ι) (thread other : ι) (call : Option Start) :
    (s.goTo thread call).call other = if other = thread then call else s.call other :=
  Function.update_apply ..

theorem Sound.goTo {s t : Processes ι} (h : s.Sound) (thread : ι) {call : Option Start}
    (ht : ∀ other, other ≠ thread → (other ∈ t.admitted ↔ other ∈ s.admitted))
    (hthread : thread ∈ t.admitted ↔ ∃ program, call = some (.creating program))
    (hcall : t.call = s.call) (hshut : t.shuttingDown = s.shuttingDown)
    (hkept : ∀ pid, s.finished pid = true ∨ pid ∈ s.processes →
      t.finished pid = true ∨ pid ∈ t.processes)
    (hreturning : ∀ pid, call = some (.returning pid) → pid ∈ t.processes)
    (hreturned : ∀ pid ∈ t.returned, pid ∈ s.returned ∨ s.call thread = some (.returning pid)) :
    (t.goTo thread call).Sound where
  admitted other := by
    rw [goTo_call]
    split_ifs with hother
    · rw [hother]
      exact hthread
    · rw [hcall, ← h.admitted other]
      exact ht other hother
  returning other pid hother hrunning := by
    rw [goTo_call] at hother
    split_ifs at hother with hsame
    · exact .inr (hreturning pid hother)
    · rw [hcall] at hother
      exact hkept pid (h.returning other pid hother (hshut ▸ hrunning))
  returned pid hpid hrunning := by
    refine hkept pid ?_
    rcases hreturned pid hpid with hbefore | hcalled
    · exact h.returned pid hbefore (hshut ▸ hrunning)
    · exact h.returning thread pid hcalled (hshut ▸ hrunning)

omit [DecidableEq ι] in
theorem kept_of_cleanup (s : Processes ι) (pid : Nat)
    (h : s.finished pid = true ∨ pid ∈ s.processes) :
    s.finished pid = true ∨ pid ∈ s.CleanupFinishedProcesses.processes := by
  cases hfinished : s.finished pid with
  | true => exact .inl rfl
  | false =>
      rw [hfinished] at h
      exact .inr (List.mem_filter.mpr ⟨h.resolve_left nofun, by simp [hfinished]⟩)

omit [DecidableEq ι] in
theorem Sound.not_admitted {s : Processes ι} (h : s.Sound) {thread : ι}
    (hcall : ∀ program, s.call thread ≠ some (.creating program)) : thread ∉ s.admitted :=
  fun hadmitted =>
    let ⟨program, hcreating⟩ := (h.admitted thread).mp hadmitted
    hcall program hcreating

theorem Sound.next {s t : Processes ι} (h : s.Sound) {thread : ι} {creates : Bool}
    (hstep : s.next thread creates = some t) : t.Sound := by
  rw [Processes.next] at hstep
  split at hstep
  case h_1 => cases hstep
  case h_2 program hcall =>
    cases hstep
    rw [check]
    split_ifs
    · refine h.goTo thread (fun _ _ => Iff.rfl) ?_ rfl rfl (kept_of_cleanup s) nofun fun _ => .inl
      exact iff_of_false (h.not_admitted (by simp [hcall])) nofun
    · refine h.goTo thread (fun other hother => ?_) ?_ rfl rfl (kept_of_cleanup s) nofun
        fun _ => .inl
      · exact Finset.mem_insert.trans (or_iff_right hother)
      · exact iff_of_true (Finset.mem_insert_self _ _) ⟨program, rfl⟩
  case h_3 program hcall =>
    cases hstep
    rw [create]
    dsimp only
    have hothers : ∀ other, other ≠ thread →
        (other ∈ s.admitted.erase thread ↔ other ∈ s.admitted) := fun other hother =>
      Finset.mem_erase.trans (and_iff_right hother)
    have hgone : thread ∉ s.admitted.erase thread := Finset.notMem_erase _ _
    split_ifs
    · exact h.goTo thread hothers (iff_of_false hgone nofun) rfl rfl (fun _ => id) nofun
        fun _ => .inl
    · exact h.goTo thread hothers (iff_of_false hgone (by simp)) rfl rfl (fun _ => id) (by simp)
        fun _ => .inl
  case h_4 pid hcall =>
    cases hstep
    refine h.goTo thread (fun _ _ => Iff.rfl) ?_ rfl rfl (fun other hother => ?_) ?_ fun _ => .inl
    · exact iff_of_false (h.not_admitted (by simp [hcall])) (by simp)
    · exact (kept_of_cleanup s other hother).imp_right (List.mem_append_left _)
    · rintro _ ⟨⟩
      exact List.mem_append_right _ (List.mem_singleton_self pid)
  case h_5 pid hcall =>
    cases hstep
    refine h.goTo thread (fun _ _ => Iff.rfl) ?_ rfl rfl (fun _ => id) nofun fun other hother => ?_
    · exact iff_of_false (h.not_admitted (by simp [hcall])) nofun
    · rcases List.mem_cons.mp hother with rfl | hother
      · exact .inr hcall
      · exact .inl hother

theorem Sound.step {s t : Processes ι} (h : s.Sound) {action : StartAction ι}
    (hstep : step action s = some t) : t.Sound := by
  cases action with
  | startProcess thread environment program =>
      rw [Processes.step] at hstep
      split_ifs at hstep with hbusy hrefused <;> cases hstep
      · exact h
      · refine h.goTo thread (fun _ _ => Iff.rfl) ?_ rfl rfl (fun _ => id) (by simp) fun _ => .inl
        refine iff_of_false (h.not_admitted fun program hcall => ?_) (by simp)
        rw [hcall] at hbusy
        exact hbusy rfl
  | next thread creates => exact h.next hstep
  | finish pid =>
      rw [Processes.step] at hstep
      split_ifs at hstep
      cases hstep
      have hkept (other : Nat) (hother : s.finished other = true ∨ other ∈ s.processes) :
          Function.update s.finished pid true other = true ∨ other ∈ s.processes := by
        rw [Function.update_apply]
        split_ifs
        · exact .inl rfl
        · exact hother
      exact
        { h with
          returning := fun thread other hcall hrunning =>
            hkept other (h.returning thread other hcall hrunning)
          returned := fun other hother hrunning => hkept other (h.returned other hother hrunning) }
  | shutDown =>
      cases hstep
      exact { h with returning := nofun, returned := nofun }
  | drain =>
      rw [Processes.step] at hstep
      split_ifs at hstep with hshut
      cases hstep
      have hnot : ¬ s.shuttingDown = false := by simp [hshut]
      exact
        { h with
          returning := fun _ _ _ hrunning => absurd hrunning hnot
          returned := fun _ _ hrunning => absurd hrunning hnot }

/-! ## The cap -/

omit [DecidableEq ι] in
/--
A start that passes the check finds the processes that run, in the list or not, and the
other starts that have passed it to be fewer than the cap.
-/
def CountsStarts : StartAction ι → Processes ι → Prop
  | .next thread _, s => ∀ program, s.call thread = some (.checking program) →
      s.CleanupFinishedProcesses.processes.length < MAX_CONCURRENT_PROCESSES →
      s.running + s.admitted.card < MAX_CONCURRENT_PROCESSES
  | _, _ => True

instance (action : StartAction ι) (s : Processes ι) : Decidable (CountsStarts action s) :=
  match action with
  | .next thread _ =>
      match hcall : s.call thread with
      | some (.checking _) =>
          decidable_of_iff
            (s.CleanupFinishedProcesses.processes.length < MAX_CONCURRENT_PROCESSES →
              s.running + s.admitted.card < MAX_CONCURRENT_PROCESSES)
            (by simp [CountsStarts, hcall])
      | none | some (.creating _) | some (.adding _) | some (.returning _) =>
          isTrue (by simp [CountsStarts, hcall])
  | .startProcess .. | .finish _ | .shutDown | .drain => isTrue trivial

def Bounded (s : Processes ι) : Prop :=
  s.running + s.admitted.card ≤ MAX_CONCURRENT_PROCESSES

omit [DecidableEq ι] in
theorem running_create (s : Processes ι) :
    running { s with created := s.created + 1 } ≤ s.running + 1 := by
  simp only [running, List.range_succ, List.filter_append, List.length_append]
  exact Nat.add_le_add_left (List.length_filter_le _ _) _

omit [DecidableEq ι] in
theorem running_finish (s : Processes ι) (pid : Nat) :
    running { s with finished := Function.update s.finished pid true } ≤ s.running := by
  refine (List.monotone_filter_right _ fun other hother => ?_).length_le
  dsimp only at hother
  rw [Function.update_apply] at hother
  split_ifs at hother
  · cases hother
  · exact hother

theorem Bounded.next {s t : Processes ι} (h : s.Bounded) (hsound : s.Sound) {thread : ι}
    {creates : Bool} (hcounts : CountsStarts (.next thread creates) s)
    (hstep : s.next thread creates = some t) : t.Bounded := by
  rw [Processes.next] at hstep
  split at hstep
  case h_1 => cases hstep
  case h_2 program hcall =>
    cases hstep
    rw [check]
    split_ifs with hfull
    · exact h
    · have hroom := hcounts program hcall (Nat.lt_of_not_ge hfull)
      refine (Nat.add_le_add_left (Finset.card_insert_le thread s.admitted) s.running).trans ?_
      exact hroom
  case h_3 program hcall =>
    cases hstep
    have hadmitted : thread ∈ s.admitted := (hsound.admitted thread).mpr ⟨program, hcall⟩
    have hcard := Finset.card_erase_add_one hadmitted
    rw [Bounded] at h
    rw [create]
    dsimp only
    split_ifs
    · change s.running + (s.admitted.erase thread).card ≤ _
      omega
    · have hrunning := running_create s
      change running { s with created := s.created + 1 } + (s.admitted.erase thread).card ≤ _
      omega
  case h_4 | h_5 =>
    cases hstep
    exact h

theorem Bounded.step {s t : Processes ι} (h : s.Bounded) (hsound : s.Sound) {action : StartAction ι}
    (hcounts : CountsStarts action s) (hstep : step action s = some t) : t.Bounded := by
  cases action with
  | next thread creates => exact h.next hsound hcounts hstep
  | startProcess thread environment program =>
      rw [Processes.step] at hstep
      split_ifs at hstep <;> cases hstep <;> exact h
  | finish pid =>
      rw [Processes.step] at hstep
      split_ifs at hstep
      cases hstep
      exact (Nat.add_le_add_right (running_finish s pid) _).trans h
  | shutDown =>
      cases hstep
      exact h
  | drain =>
      rw [Processes.step] at hstep
      split_ifs at hstep
      cases hstep
      exact h

structure CapHolds (s : Processes ι) : Prop where
  bounded : s.running ≤ MAX_CONCURRENT_PROCESSES
  tracked : s.shuttingDown = false → ∀ pid ∈ s.returned, s.finished pid = false →
    pid ∈ s.processes

omit [DecidableEq ι] in
theorem sound_initial : ({} : Processes ι).Sound := ⟨by simp, nofun, nofun⟩

/-- In every run whose checks count the starts in flight the cap holds. -/
theorem run_capHolds {actions : List (StartAction ι)} {s : Processes ι}
    (hrun : Transition.run step actions {} = some s)
    (hcounts : Transition.Meets step CountsStarts actions {}) : s.CapHolds := by
  obtain ⟨hsound, hbounded⟩ := Transition.run_preserves_of_meets
    (P := fun s : Processes ι => s.Sound ∧ s.Bounded)
    (fun _ _ _ hstep hin h => ⟨h.1.step hstep, h.2.step h.1 hin hstep⟩)
    hrun hcounts ⟨sound_initial, by simp [Bounded, running]⟩
  refine ⟨(Nat.le_add_right _ _).trans hbounded, fun hshut pid hpid hfinished => ?_⟩
  exact (hsound.returned pid hpid hshut).resolve_left (by simp [hfinished])

/-- Two threads start a process each, and both checks come before both additions. -/
def startTwo : List (StartAction Bool) :=
  [.startProcess true true .lua, .startProcess false true .lua, .next true true, .next false true,
    .next true true, .next false true]

/-- One of two processes is over before the other one is added, and a third is not made. -/
def startThree : List (StartAction Bool) :=
  startTwo ++ [.next true true, .finish 0, .next false true, .next false true, .next true true,
    .startProcess true true .builtin, .next true true, .next true false]

theorem run_capHolds_startThree :
    ∃ s, Transition.run step startThree {} = some s ∧ s.returned = [0, 1] ∧ s.CapHolds := by
  have hreturned : (Transition.run step startThree {}).map returned = some [0, 1] := by
    decide +kernel
  obtain ⟨s, hrun, hs⟩ := Option.map_eq_some_iff.mp hreturned
  have hcounts : Transition.Meets step CountsStarts startThree {} := by decide +kernel
  exact ⟨s, hrun, hs, run_capHolds hrun hcounts⟩

/-! ## Two starts at the edge of the cap -/

def startOne (thread : ι) : List (StartAction ι) :=
  [.startProcess thread true .lua, .next thread true, .next thread true, .next thread true,
    .next thread true]

/-- `count` processes run, all of them in the list, and no call is made. -/
def filled (count : Nat) : Processes ι :=
  { processes := List.range count, created := count, returned := (List.range count).reverse }

omit [DecidableEq ι] in
theorem cleanup_of_unfinished {s : Processes ι} (h : s.finished = fun _ => false) :
    s.CleanupFinishedProcesses = s := by
  rcases s with ⟨processes, shuttingDown, created, finished, call, admitted, returned⟩
  cases h
  simp [CleanupFinishedProcesses]

theorem run_startOne (thread : ι) {count : Nat} (h : count < MAX_CONCURRENT_PROCESSES) :
    Transition.run step (startOne thread) (filled count) = some (filled (count + 1)) := by
  have hcleanup (s : Processes ι) (hs : s.finished = fun _ => false) := cleanup_of_unfinished hs
  simp [startOne, Transition.run, step, Processes.next, filled, goTo, check, create, add, hcleanup,
    Nat.not_le.mpr h, List.range_succ]

theorem run_filled (thread : ι) (count : Nat) (h : count ≤ MAX_CONCURRENT_PROCESSES) :
    Transition.run step (List.replicate count (startOne thread)).flatten {} =
      some (filled count) := by
  induction count with
  | zero => rfl
  | succ count ih =>
      rw [List.replicate_succ', List.flatten_append, Transition.run_append, ih (by omega),
        Option.bind_some, List.flatten_singleton, run_startOne thread (by omega)]

theorem run_startTwo {count : Nat} (h : count < MAX_CONCURRENT_PROCESSES) :
    ∃ s, Transition.run step startTwo (filled count) = some s ∧ s.created = count + 2 ∧
      s.finished = fun _ => false := by
  have hcleanup (s : Processes Bool) (hs : s.finished = fun _ => false) := cleanup_of_unfinished hs
  simp [startTwo, Transition.run, step, Processes.next, filled, goTo, check, create, hcleanup,
    Nat.not_le.mpr h]

/-- With one place left two starts pass the check, and one process too many runs. -/
theorem run_not_capHolds :
    ∃ s, Transition.run step ((List.replicate 1023 (startOne true)).flatten ++ startTwo) {} =
        some s ∧ s.running = 1025 ∧ ¬ s.CapHolds := by
  obtain ⟨s, hs, hcreated, hfinished⟩ := run_startTwo (show 1023 < MAX_CONCURRENT_PROCESSES by decide)
  have hrunning : s.running = 1025 := by simp [running, hcreated, hfinished]
  rw [Transition.run_append, run_filled true 1023 (by decide), Option.bind_some]
  refine ⟨s, hs, hrunning, fun h => ?_⟩
  have hbounded := h.bounded
  rw [hrunning] at hbounded
  exact absurd hbounded (by decide)

end Processes

end Haisos.HaisosOS
