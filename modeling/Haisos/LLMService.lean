import Haisos.Transition

/-!
# The agents of an LLM service

Any number of threads, those of agents among them, call `CreateAgent` while agents
finish and the service is destroyed.  The mutex of the list is taken and released in
steps of their own.
-/

namespace Haisos.LLMService

/-- Who calls `CreateAgent`: a thread of the outside, or an agent's own. -/
inductive Caller (ι : Type*) where
  | outside (thread : ι)
  | agent (agent : Nat)
  deriving DecidableEq

/-- `afterShutdown` is whether the call began when the flag was set. -/
inductive Call where
  | refusing (afterShutdown : Bool)
  | checking (afterShutdown : Bool)
  | making (afterShutdown : Bool)
  | adding (agent : Nat) (afterShutdown : Bool)
  | registering (agent : Nat) (afterShutdown : Bool)
  | addingChild (agent : Nat) (afterShutdown : Bool)
  /-- `IsOwnThread`, asked by an agent's thread. -/
  | asksOwnThread
  deriving DecidableEq, Repr

def Call.afterShutdown : Call → Bool
  | .refusing afterShutdown | .checking afterShutdown | .making afterShutdown
  | .adding _ afterShutdown | .registering _ afterShutdown | .addingChild _ afterShutdown =>
      afterShutdown
  | .asksOwnThread => false

def Call.pastCheck : Call → Bool
  | .making _ | .adding _ _ | .registering _ _ | .addingChild _ _ => true
  | _ => false

/-- Where `~LLMService` is. -/
inductive Destructor where
  | notBegun
  | locking
  | locked
  | stopping (left agents : List Nat)
  | waiting (agents : List Nat)
  | joining (agent : Nat) (left : List Nat)
  | done
  deriving DecidableEq, Repr

def Destructor.tookList : Destructor → Bool
  | .notBegun | .locking | .locked => false
  | _ => true

def Destructor.waitsFor : Destructor → Option Nat
  | .waiting (agent :: _) | .joining agent _ => some agent
  | _ => none

def Destructor.waitsOver : Destructor → Bool
  | .waiting [] | .done => true
  | _ => false

inductive Holder (ι : Type*) where
  | caller (caller : Caller ι)
  | destructor
  deriving DecidableEq

inductive Mutex where
  | agents
  | join (agent : Nat)
  deriving DecidableEq, Repr

def Call.mutex {ι : Type*} (caller : Caller ι) : Call → Option Mutex
  | .refusing _ | .adding _ _ => some .agents
  | .asksOwnThread =>
      match caller with
      | .agent agent => some (.join agent)
      | .outside _ => none
  | _ => none

structure Service (ι : Type*) where
  agentsMutex : Option (Holder ι) := none
  shuttingDown : Bool := false
  agents : List Nat := []
  made : Nat := 0
  finished : Nat → Bool := fun _ => false
  stopRequested : List Nat := []
  call : Caller ι → Option Call := fun _ => none
  destructor : Destructor := .notBegun
  registered : List Nat := []
  /-- What `CreateAgent` returned, with whether the call began when the flag was set. -/
  returned : List (Nat × Bool) := []

inductive Action (ι : Type*) where
  | createAgent (caller : Caller ι)
  | askOwnThread (agent : Nat)
  /-- `networked` is whether there is a network service. -/
  | next (caller : Caller ι) (networked : Bool)
  | finish (agent : Nat)
  | destroy

namespace Service

variable {ι : Type*} [DecidableEq ι]

def runs (s : Service ι) : Caller ι → Bool
  | .outside _ => true
  | .agent agent => agent < s.made && !s.finished agent

def goTo (s : Service ι) (caller : Caller ι) (call : Option Call) : Service ι :=
  { s with call := Function.update s.call caller call }

def acquire (s : Service ι) (holder : Holder ι) : Service ι :=
  { s with agentsMutex := some holder }

def release (s : Service ι) : Service ι := { s with agentsMutex := none }

def CleanupFinishedAgents (s : Service ι) : Service ι :=
  { s with agents := s.agents.filter fun agent => !s.finished agent }

def register (s : Service ι) (agent : Nat) : Service ι :=
  { s with agents := s.agents ++ [agent], registered := agent :: s.registered }

def joinMutexHeld (s : Service ι) (agent : Nat) : Bool :=
  match s.destructor with
  | .joining joined _ => joined == agent
  | _ => false

/-- The next step of a caller. -/
def next (s : Service ι) (caller : Caller ι) (networked : Bool) : Option (Service ι) :=
  match s.call caller with
  | none => none
  | some (.refusing afterShutdown) =>
      if s.agentsMutex.isSome then none
      else some ((s.acquire (.caller caller)).goTo caller (some (.checking afterShutdown)))
  | some (.checking afterShutdown) =>
      some (s.release.goTo caller (if s.shuttingDown then none else some (.making afterShutdown)))
  | some (.making afterShutdown) =>
      if networked then
        some ({ s with made := s.made + 1 }.goTo caller (some (.adding s.made afterShutdown)))
      else some (s.goTo caller none)
  | some (.adding agent afterShutdown) =>
      if s.agentsMutex.isSome then none
      else some ((s.acquire (.caller caller)).goTo caller (some (.registering agent afterShutdown)))
  | some (.registering agent afterShutdown) =>
      if s.shuttingDown then
        some ({ s.release with stopRequested := agent :: s.stopRequested }.goTo caller none)
      else
        some ((s.CleanupFinishedAgents.register agent).release.goTo caller
          (some (.addingChild agent afterShutdown)))
  | some (.addingChild agent afterShutdown) =>
      some ({ s with returned := (agent, afterShutdown) :: s.returned }.goTo caller none)
  | some .asksOwnThread =>
      match caller with
      | .agent agent => if s.joinMutexHeld agent then none else some (s.goTo caller none)
      | .outside _ => none

/-- The next step of `~LLMService`. -/
def destroy (s : Service ι) : Option (Service ι) :=
  match s.destructor with
  | .notBegun => some { s with destructor := .locking }
  | .locking =>
      if s.agentsMutex.isSome then none
      else some { s.acquire .destructor with destructor := .locked }
  | .locked =>
      some { s.release with
        shuttingDown := true, agents := [], destructor := .stopping s.agents s.agents }
  | .stopping (agent :: left) agents =>
      some { s with
        stopRequested := agent :: s.stopRequested, destructor := .stopping left agents }
  | .stopping [] agents => some { s with destructor := .waiting agents }
  | .waiting (agent :: left) =>
      if s.finished agent then some { s with destructor := .joining agent left } else none
  | .waiting [] => some { s with destructor := .done }
  | .joining _ left => some { s with destructor := .waiting left }
  | .done => none

def step : Action ι → Service ι → Option (Service ι)
  | .createAgent caller, s =>
      if s.runs caller && (s.call caller).isNone then
        some (s.goTo caller (some (.refusing s.shuttingDown)))
      else none
  | .askOwnThread agent, s =>
      if s.runs (.agent agent) && (s.call (.agent agent)).isNone then
        some (s.goTo (.agent agent) (some .asksOwnThread))
      else none
  | .next caller networked, s => s.next caller networked
  | .finish agent, s =>
      if s.runs (.agent agent) && (s.call (.agent agent)).isNone then
        some { s with finished := Function.update s.finished agent true }
      else none
  | .destroy, s => s.destroy

/-! ## What holds in every run -/

/-- The agents that the destructor has still to wait for, or would have. -/
def kept (s : Service ι) : List Nat :=
  match s.destructor with
  | .stopping _ agents | .waiting agents => agents
  | .joining _ left => left
  | .done => []
  | _ => s.agents

/-- What is true of a caller and the call it is in. -/
structure Fits (s : Service ι) (caller : Caller ι) (call : Call) : Prop where
  runs : s.runs caller = true
  flag : call.afterShutdown = true → s.shuttingDown = true
  checked : call.pastCheck = true → call.afterShutdown = false
  child : ∀ agent afterShutdown, call = .addingChild agent afterShutdown → agent ∈ s.registered

structure Sound (s : Service ι) : Prop where
  calls : ∀ caller call, s.call caller = some call → s.Fits caller call
  holder : s.agentsMutex = some .destructor → s.destructor = .locked
  flag : s.shuttingDown = s.destructor.tookList
  tracked : ∀ agent ∈ s.registered, s.finished agent = true ∨ agent ∈ s.kept
  returned : ∀ entry ∈ s.returned, entry.1 ∈ s.registered ∧ entry.2 = false
  joined : ∀ agent left, s.destructor = .joining agent left → s.finished agent = true

omit [DecidableEq ι] in
theorem sound_initial : ({} : Service ι).Sound := ⟨nofun, nofun, rfl, nofun, nofun, nofun⟩

omit [DecidableEq ι] in
theorem Fits.mono {s t : Service ι} {caller : Caller ι} {call : Call} (h : s.Fits caller call)
    (hruns : s.runs caller = true → t.runs caller = true)
    (hflag : s.shuttingDown = true → t.shuttingDown = true)
    (hregistered : ∀ agent ∈ s.registered, agent ∈ t.registered) : t.Fits caller call :=
  ⟨hruns h.runs, fun hlate => hflag (h.flag hlate), h.checked,
    fun agent afterShutdown hcall => hregistered agent (h.child agent afterShutdown hcall)⟩

theorem goTo_calls {s : Service ι} {caller : Caller ι} {call : Option Call}
    (hs : ∀ other c, s.call other = some c → s.Fits other c)
    (hcall : ∀ c, call = some c → s.Fits caller c) (other : Caller ι) (c : Call)
    (h : (s.goTo caller call).call other = some c) : (s.goTo caller call).Fits other c := by
  replace h := (Function.update_apply s.call caller call other).symm.trans h
  have hfits : s.Fits other c := by
    split_ifs at h with hother
    · rw [hother]
      exact hcall c h
    · exact hs other c h
  exact hfits.mono id id fun _ => id

theorem Sound.goTo {s : Service ι} (h : s.Sound) {caller : Caller ι} {call : Option Call}
    (hcall : ∀ c, call = some c → s.Fits caller c) : (s.goTo caller call).Sound :=
  { h with calls := goTo_calls h.calls hcall }

omit [DecidableEq ι] in
theorem Sound.mutex {s : Service ι} (h : s.Sound) (holder : Option (Holder ι))
    (hholder : holder = some .destructor → s.destructor = .locked) :
    Sound { s with agentsMutex := holder } :=
  { h with
    holder := hholder
    calls := fun caller call hcall => (h.calls caller call hcall).mono id id fun _ => id }

omit [DecidableEq ι] in
theorem kept_of_not_taken {s : Service ι} (h : s.Sound) (hflag : s.shuttingDown = false) :
    s.kept = s.agents := by
  have htook := h.flag.symm.trans hflag
  rw [kept]
  cases hdestructor : s.destructor <;> rw [hdestructor] at htook <;>
    first | rfl | cases htook

omit [DecidableEq ι] in
theorem Sound.register {s : Service ι} (h : s.Sound) (hflag : s.shuttingDown = false)
    (agent : Nat) : (s.CleanupFinishedAgents.register agent).Sound := by
  have hkept : (s.CleanupFinishedAgents.register agent).kept =
      s.agents.filter (fun agent => !s.finished agent) ++ [agent] := by
    have htook := h.flag.symm.trans hflag
    rw [kept]
    change (match s.destructor with
      | .stopping _ agents | .waiting agents => agents
      | .joining _ left => left
      | .done => []
      | _ => _) = _
    cases hdestructor : s.destructor <;> rw [hdestructor] at htook <;>
      first | rfl | cases htook
  have hmem : ∀ other ∈ s.registered, other ∈ agent :: s.registered := fun _ =>
    List.mem_cons_of_mem agent
  refine
    { h with
      calls := fun caller call hcall => (h.calls caller call hcall).mono id id hmem
      tracked := fun other hother => ?_
      returned := fun entry hentry =>
        ⟨hmem _ (h.returned entry hentry).1, (h.returned entry hentry).2⟩ }
  rw [hkept, List.mem_append, List.mem_filter]
  rcases List.mem_cons.mp hother with rfl | hother
  · exact .inr (.inr (List.mem_singleton_self _))
  · have htracked := h.tracked other hother
    rw [kept_of_not_taken h hflag] at htracked
    cases hfinished : s.finished other with
    | true => exact .inl hfinished
    | false =>
        rw [hfinished] at htracked
        exact .inr (.inl ⟨htracked.resolve_left nofun, by simp⟩)

theorem Sound.next {s t : Service ι} (h : s.Sound) {caller : Caller ι} {networked : Bool}
    (hstep : s.next caller networked = some t) : t.Sound := by
  rw [Service.next.eq_def] at hstep
  split at hstep
  case h_1 => cases hstep
  case h_2 afterShutdown hcall =>
    have hfits := h.calls caller _ hcall
    split_ifs at hstep
    cases hstep
    refine (h.mutex (some (.caller caller)) nofun).goTo ?_
    rintro _ ⟨⟩
    exact ⟨hfits.runs, hfits.flag, nofun, nofun⟩
  case h_3 afterShutdown hcall =>
    have hfits := h.calls caller _ hcall
    cases hstep
    refine (h.mutex none nofun).goTo ?_
    intro call hnext
    split_ifs at hnext with hflag
    cases hnext
    -- a call that began after the shutdown does not get here
    have hbefore : afterShutdown = false :=
      Bool.eq_false_of_not_eq_true fun hlate => hflag (hfits.flag hlate)
    exact ⟨hfits.runs, hfits.flag, fun _ => hbefore, nofun⟩
  case h_4 afterShutdown hcall =>
    have hfits := h.calls caller _ hcall
    split_ifs at hstep <;> cases hstep
    · have hmade : ∀ other, s.runs other = true →
          runs { s with made := s.made + 1 } other = true := by
        intro other hruns
        cases other with
        | outside thread => rfl
        | agent agent =>
            simp only [runs, Bool.and_eq_true, decide_eq_true_eq] at hruns ⊢
            exact ⟨Nat.lt_succ_of_lt hruns.1, hruns.2⟩
      refine Sound.goTo (s := { s with made := s.made + 1 })
        { h with calls := fun other call hother =>
            (h.calls other call hother).mono (hmade other) id fun _ => id } ?_
      rintro _ ⟨⟩
      exact ⟨hmade caller hfits.runs, hfits.flag, hfits.checked, nofun⟩
    · exact h.goTo nofun
  case h_5 agent afterShutdown hcall =>
    have hfits := h.calls caller _ hcall
    split_ifs at hstep
    cases hstep
    refine (h.mutex (some (.caller caller)) nofun).goTo ?_
    rintro _ ⟨⟩
    exact ⟨hfits.runs, hfits.flag, hfits.checked, nofun⟩
  case h_6 agent afterShutdown hcall =>
    have hfits := h.calls caller _ hcall
    split_ifs at hstep with hflag <;> cases hstep
    · have hsound := h.mutex none nofun
      refine Sound.goTo (s := { s.release with stopRequested := agent :: s.stopRequested })
        { hsound with
          calls := fun other call hother =>
            (hsound.calls other call hother).mono id id fun _ => id } nofun
    · refine ((h.register (Bool.eq_false_of_not_eq_true hflag) agent).mutex none nofun).goTo ?_
      rintro _ ⟨⟩
      refine ⟨hfits.runs, hfits.flag, hfits.checked, ?_⟩
      rintro _ _ ⟨⟩
      exact List.mem_cons_self
  case h_7 agent afterShutdown hcall =>
    have hfits := h.calls caller _ hcall
    cases hstep
    refine Sound.goTo (s := { s with returned := (agent, afterShutdown) :: s.returned })
      { h with
        calls := fun other call hother => (h.calls other call hother).mono id id fun _ => id
        returned := ?_ } nofun
    intro entry hentry
    rcases List.mem_cons.mp hentry with rfl | hentry
    · exact ⟨hfits.child agent afterShutdown rfl, hfits.checked rfl⟩
    · exact h.returned entry hentry
  case h_8 hcall =>
    cases caller with
    | outside thread => cases hstep
    | agent agent =>
        dsimp only at hstep
        split_ifs at hstep
        cases hstep
        exact h.goTo nofun

omit [DecidableEq ι] in
theorem Sound.destroy {s t : Service ι} (h : s.Sound) (hstep : s.destroy = some t) :
    t.Sound := by
  have hkept : ∀ agent ∈ s.registered, s.finished agent = true ∨ agent ∈ s.kept := h.tracked
  have hcalls (t : Service ι) (hcall : t.call = s.call) (hmade : t.made = s.made)
      (hfinished : t.finished = s.finished) (hflag : s.shuttingDown = true → t.shuttingDown = true)
      (hregistered : t.registered = s.registered) :
      ∀ caller call, t.call caller = some call → t.Fits caller call := by
    intro caller call hcaller
    rw [hcall] at hcaller
    refine (h.calls caller call hcaller).mono (fun hruns => ?_) hflag (hregistered ▸ fun _ => id)
    cases caller with
    | outside thread => rfl
    | agent agent =>
        rw [runs, hmade, hfinished]
        exact hruns
  have hlocked : s.destructor ≠ .locked → s.agentsMutex ≠ some .destructor :=
    fun hne hholder => hne (h.holder hholder)
  rw [kept] at hkept
  rw [Service.destroy] at hstep
  have hflag := h.flag
  split at hstep
  case h_1 hdestructor =>
    cases hstep
    rw [hdestructor] at hkept hflag hlocked
    exact ⟨hcalls _ rfl rfl rfl id rfl, fun hholder => absurd hholder (hlocked nofun), hflag, hkept,
      h.returned, nofun⟩
  case h_2 hdestructor =>
    split_ifs at hstep
    cases hstep
    rw [hdestructor] at hkept hflag
    exact ⟨hcalls _ rfl rfl rfl id rfl, fun _ => rfl, hflag, hkept, h.returned, nofun⟩
  case h_3 hdestructor =>
    cases hstep
    rw [hdestructor] at hkept
    exact ⟨hcalls _ rfl rfl rfl (fun _ => rfl) rfl, nofun, rfl, hkept, h.returned, nofun⟩
  case h_4 agent left agents hdestructor =>
    cases hstep
    rw [hdestructor] at hkept hflag hlocked
    exact ⟨hcalls _ rfl rfl rfl id rfl, fun hholder => absurd hholder (hlocked nofun), hflag, hkept,
      h.returned, nofun⟩
  case h_5 agents hdestructor =>
    cases hstep
    rw [hdestructor] at hkept hflag hlocked
    exact ⟨hcalls _ rfl rfl rfl id rfl, fun hholder => absurd hholder (hlocked nofun), hflag, hkept,
      h.returned, nofun⟩
  case h_6 agent left hdestructor =>
    split_ifs at hstep with hfinished
    cases hstep
    rw [hdestructor] at hkept hflag hlocked
    refine ⟨hcalls _ rfl rfl rfl id rfl, fun hholder => absurd hholder (hlocked nofun), hflag, ?_,
      h.returned, ?_⟩
    · intro other hother
      rcases hkept other hother with hother | hother
      · exact .inl hother
      · rcases List.mem_cons.mp hother with rfl | hother
        · exact .inl hfinished
        · exact .inr hother
    · rintro _ _ ⟨⟩
      exact hfinished
  case h_7 hdestructor =>
    cases hstep
    rw [hdestructor] at hkept hflag hlocked
    exact ⟨hcalls _ rfl rfl rfl id rfl, fun hholder => absurd hholder (hlocked nofun), hflag, hkept,
      h.returned, nofun⟩
  case h_8 agent left hdestructor =>
    cases hstep
    rw [hdestructor] at hkept hflag hlocked
    exact ⟨hcalls _ rfl rfl rfl id rfl, fun hholder => absurd hholder (hlocked nofun), hflag, hkept,
      h.returned, nofun⟩
  case h_9 => cases hstep

omit [DecidableEq ι] in
theorem Sound.finish {s : Service ι} (h : s.Sound) {agent : Nat}
    (hcall : s.call (.agent agent) = none) :
    Sound { s with finished := Function.update s.finished agent true } where
  calls caller call hcaller := by
    refine (h.calls caller call hcaller).mono (fun hruns => ?_) id fun _ => id
    cases caller with
    | outside thread => rfl
    | agent other =>
        have hne : other ≠ agent := by
          rintro rfl
          cases hcall.symm.trans hcaller
        simp only [runs, Function.update_of_ne hne]
        exact hruns
  holder := h.holder
  flag := h.flag
  tracked other hother := by
    by_cases hsame : other = agent
    · exact .inl (hsame ▸ Function.update_self ..)
    · exact (h.tracked other hother).imp_left (Function.update_of_ne hsame _ _).trans
  returned := h.returned
  joined other left hdestructor := by
    by_cases hsame : other = agent
    · exact hsame ▸ Function.update_self ..
    · exact (Function.update_of_ne hsame _ _).trans (h.joined other left hdestructor)

theorem Sound.step {s t : Service ι} (h : s.Sound) {action : Action ι}
    (hstep : step action s = some t) : t.Sound := by
  cases action with
  | createAgent caller =>
      rw [Service.step] at hstep
      split_ifs at hstep with hidle
      cases hstep
      refine h.goTo ?_
      rintro _ ⟨⟩
      exact ⟨(Bool.and_eq_true_iff.mp hidle).1, id, nofun, nofun⟩
  | askOwnThread agent =>
      rw [Service.step] at hstep
      split_ifs at hstep with hidle
      cases hstep
      refine h.goTo ?_
      rintro _ ⟨⟩
      exact ⟨(Bool.and_eq_true_iff.mp hidle).1, nofun, nofun, nofun⟩
  | next caller networked => exact h.next hstep
  | finish agent =>
      rw [Service.step] at hstep
      split_ifs at hstep with hidle
      cases hstep
      exact h.finish (Option.isNone_iff_eq_none.mp (Bool.and_eq_true_iff.mp hidle).2)
  | destroy => exact h.destroy hstep

/-! ## No agent outlives the service -/

def destructorHolds (s : Service ι) : Mutex → Prop
  | .agents => s.agentsMutex = some .destructor
  | .join agent => s.joinMutexHeld agent = true

structure Outlived (s : Service ι) : Prop where
  tracked : s.destructor.tookList = false → ∀ entry ∈ s.returned,
    s.finished entry.1 = false → entry.1 ∈ s.agents
  refused : ∀ entry ∈ s.returned, entry.2 = false
  ended : s.destructor.waitsOver = true → ∀ entry ∈ s.returned, s.finished entry.1 = true
  notStuck : ∀ agent call mutex, s.destructor.waitsFor = some agent →
    s.call (.agent agent) = some call → call.mutex (Caller.agent (ι := ι) agent) = some mutex →
    ¬ s.destructorHolds mutex

omit [DecidableEq ι] in
theorem Sound.outlived {s : Service ι} (h : s.Sound) : s.Outlived where
  tracked htook entry hentry hfinished := by
    have htracked := h.tracked _ (h.returned entry hentry).1
    rw [hfinished, kept_of_not_taken h (h.flag.trans htook)] at htracked
    exact htracked.resolve_left nofun
  refused entry hentry := (h.returned entry hentry).2
  ended hover entry hentry := by
    have htracked := h.tracked _ (h.returned entry hentry).1
    have hkept : s.kept = [] := by
      rw [kept]
      revert hover
      rcases s.destructor with _ | _ | _ | _ | (_ | _) | _ | _ <;>
        first | exact fun _ => rfl | exact nofun
    rw [hkept] at htracked
    exact htracked.resolve_right nofun
  notStuck agent call mutex hwaits hcall hmutex hholds := by
    have hruns := (h.calls _ call hcall).runs
    cases mutex with
    | agents =>
        rw [h.holder hholds] at hwaits
        cases hwaits
    | join joined =>
        -- a thread that is joined has finished, and finished threads make no calls
        rw [destructorHolds, joinMutexHeld] at hholds
        split at hholds
        case h_1 other left hdestructor =>
          rw [hdestructor] at hwaits
          cases hwaits
          rw [runs, h.joined agent left hdestructor] at hruns
          simp at hruns
        case h_2 => cases hholds

/--
In every state that is reached an agent that runs is in the list until the destructor takes
it, no call that began after the shutdown returns an agent, every agent returned has
finished when the waits are over, and the destructor waits for no thread that it keeps from
going on.
-/
theorem run_outlived {actions : List (Action ι)} {s : Service ι}
    (hrun : Transition.run step actions {} = some s) : s.Outlived :=
  (Transition.run_preserves (P := Sound) (fun _ _ _ hstep h => h.step hstep) hrun
    sound_initial).outlived

def createdThenDestroyed : List (Action Unit) :=
  [.createAgent (.outside ()), .next (.outside ()) true, .next (.outside ()) true,
    .next (.outside ()) true, .next (.outside ()) true, .next (.outside ()) true,
    .next (.outside ()) true, .destroy, .destroy, .destroy, .destroy, .destroy, .finish 0,
    .destroy, .destroy]

theorem run_outlived_createdThenDestroyed :
    ∃ s, Transition.run step createdThenDestroyed {} = some s ∧ s.returned = [(0, false)] ∧
      s.destructor.waitsOver = true ∧ s.Outlived :=
  ⟨_, rfl, rfl, rfl, run_outlived (show Transition.run step createdThenDestroyed {} = some _ from rfl)⟩

end Service

end Haisos.LLMService
