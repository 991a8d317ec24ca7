import Haisos.Transition

/-!
# How a process ends

An agent's exit code is decided by the first query, a builtin's and a script's when their
thread ends.  Any number of threads stop the process, stop it for a broken pipe and ask
for its exit code while its program comes to its own end.
-/

namespace Haisos.HaisosOS

inductive ProcessEnd where
  | exited
  | stopped
  | brokenPipe
  deriving DecidableEq, Repr

def kExitCodeBrokenPipe : Int := 141
def kExitCodeStopped : Int := 143

def ExitCodeFor : ProcessEnd → Int → Int
  | .stopped, _ => kExitCodeStopped
  | .brokenPipe, _ => kExitCodeBrokenPipe
  | .exited, programCode => programCode % 256

/-- A `lua_Integer` cast to `int`. -/
def toInt (code : Int) : Int := code.bmod (2 ^ 32)

theorem exitCodeFor_toInt (code : Int) : ExitCodeFor .exited (toInt code) = code % 256 := by
  have hmod : toInt code % 2 ^ 32 = code % 2 ^ 32 := Int.bmod_emod
  calc
    toInt code % 256 = toInt code % 2 ^ 32 % 256 := (Int.emod_emod_of_dvd _ (by decide)).symm
    _ = code % 2 ^ 32 % 256 := by rw [hmod]
    _ = code % 256 := Int.emod_emod_of_dvd _ (by decide)

inductive Runtime where
  | agent
  | builtin
  | lua
  deriving DecidableEq, Repr

inductive LuaEnd where
  | noState
  | loadFailed
  | raised
  | returned
  | threw (ranToEnd : Bool)
  deriving DecidableEq, Repr

inductive Outcome where
  | agent (lastCommandFailed : Bool)
  | builtin (status : Option Int)
  | lua (ended : LuaEnd)
  deriving DecidableEq, Repr

structure Ended where
  ranToEnd : Bool
  status : Int
  deriving DecidableEq, Repr

inductive RuntimeThread where
  | running
  /-- The script is over, and what it wrote of its error is not. -/
  | unwound (ranToEnd scriptFailed : Bool)
  | ended (ended : Ended)
  | readBrokenPipe (ended : Ended) (brokenPipe : Bool)
  | over (ended : Ended)
  deriving DecidableEq, Repr

inductive Operation where
  | stopForBrokenPipe
  | triggerStop
  | exitCode
  deriving DecidableEq, Repr

/-- Where a call is. -/
inductive Call where
  | breaking
  | brokenStopping
  | brokenWaking
  | stopping
  | latchingStop
  | waking
  | asking
  | locking
  | latching (brokenPipe : Bool)
  deriving DecidableEq, Repr

structure Answer where
  finished : Bool
  code : Option Int
  deriving DecidableEq, Repr

structure Process (ι : Type*) where
  runtime : Runtime
  thread : RuntimeThread := .running
  inputLoopFinished : Bool := true
  brokenPipe : Bool := false
  /-- `m_stopRequested`, and `m_killed` of a script. -/
  stopRequested : Bool := false
  /-- The code that a script's `exit` asked for. -/
  exitRequested : Option Int := none
  exitCodeMutex : Option ι := none
  exitCode : Option Int := none
  call : ι → Option Call := fun _ => none
  answers : List Answer := []
  decided : Option ProcessEnd := none
  /-- Whether some `StopForBrokenPipe` began before the program ended. -/
  brokenPipeBegan : Bool := false
  /-- Whether some `StopForBrokenPipe` returned before the program ended. -/
  brokenPipeDone : Bool := false
  /-- Whether some `TriggerStop` began before the process finished. -/
  stopBegan : Bool := false

structure Tells (decided : Option ProcessEnd) (brokenPipeBegan brokenPipeDone stopBegan : Bool)
    (ownCode code : Int) : Prop where
  brokenPipe : decided = some .brokenPipe → code = kExitCodeBrokenPipe ∧ brokenPipeBegan = true
  stopped : decided = some .stopped → code = kExitCodeStopped ∧ stopBegan = true
  exited : decided = some .exited → code = ownCode % 256
  done : brokenPipeDone = true → decided = some .brokenPipe
  decided : decided.isSome = true

theorem Tells.range {decided : Option ProcessEnd}
    {brokenPipeBegan brokenPipeDone stopBegan : Bool} {ownCode code : Int}
    (h : Tells decided brokenPipeBegan brokenPipeDone stopBegan ownCode code) :
    0 ≤ code ∧ code ≤ 255 := by
  obtain ⟨processEnd, hdecided⟩ := Option.isSome_iff_exists.mp h.decided
  cases processEnd with
  | exited =>
      rw [h.exited hdecided]
      omega
  | stopped =>
      rw [(h.stopped hdecided).1]
      decide
  | brokenPipe =>
      rw [(h.brokenPipe hdecided).1]
      decide

inductive EndAction (ι : Type*) where
  | call (thread : ι) (operation : Operation)
  | next (thread : ι)
  | exit (code : Int)
  | programEnds (outcome : Outcome)
  | runThread
  | inputLoopEnds

namespace Process

variable {ι : Type*} [DecidableEq ι]

def programEnded (s : Process ι) : Bool :=
  match s.thread with
  | .running | .unwound _ _ => false
  | _ => true

/-- What `WaitToFinish(0)` returns. -/
def finished (s : Process ι) : Bool :=
  match s.thread with
  | .over _ => s.inputLoopFinished
  | _ => false

def goTo (s : Process ι) (thread : ι) (call : Option Call) : Process ι :=
  { s with call := Function.update s.call thread call }

def answer (s : Process ι) (thread : ι) (code : Option Int) : Process ι :=
  { s with answers := ⟨s.finished, code⟩ :: s.answers }.goTo thread none

def start (s : Process ι) (thread : ι) : Operation → Process ι
  | .stopForBrokenPipe =>
      { s with brokenPipeBegan := s.brokenPipeBegan || !s.programEnded }.goTo thread (some .breaking)
  | .triggerStop =>
      { s with stopBegan := s.stopBegan || !s.finished }.goTo thread (some .stopping)
  | .exitCode => s.goTo thread (some .asking)

/-- The end that the flags tell of, the broken pipe as it was read. -/
def processEnd (s : Process ι) (brokenPipe : Bool) (ended : Ended) : ProcessEnd × Int :=
  if brokenPipe then (.brokenPipe, 0)
  else
    match s.runtime with
    | .lua =>
        match s.exitRequested with
        | some code => (.exited, toInt code)
        | none =>
            if s.stopRequested && !ended.ranToEnd then (.stopped, 0) else (.exited, ended.status)
    | .agent | .builtin => if s.stopRequested then (.stopped, 0) else (.exited, ended.status)

def decide (s : Process ι) (brokenPipe : Bool) (ended : Ended) : Process ι :=
  let (processEnd, programCode) := s.processEnd brokenPipe ended
  { s with exitCode := some (ExitCodeFor processEnd programCode), decided := some processEnd }

/-- `StopForBrokenPipe` past the flag: an agent has no flag of its own for the stop. -/
def afterBrokenPipe (s : Process ι) (thread : ι) : Process ι :=
  s.goTo thread (some (if s.runtime = .agent then .brokenWaking else .brokenStopping))

/-- The next step of a thread's call. -/
def next (s : Process ι) (thread : ι) : Option (Process ι) :=
  match s.call thread with
  | none => none
  | some .breaking => some ({ s with brokenPipe := true }.afterBrokenPipe thread)
  | some .brokenStopping =>
      some ({ s with stopRequested := true }.goTo thread (some .brokenWaking))
  | some .brokenWaking =>
      some ({ s with brokenPipeDone := s.brokenPipeDone || !s.programEnded }.goTo thread none)
  | some .stopping =>
      -- an agent's stop counts only while the process has not finished
      if s.runtime = .agent then
        some (s.goTo thread (some (if s.finished then .waking else .latchingStop)))
      else some ({ s with stopRequested := true }.goTo thread (some .waking))
  | some .latchingStop => some ({ s with stopRequested := true }.goTo thread (some .waking))
  | some .waking => some (s.goTo thread none)
  | some .asking =>
      if s.runtime = .agent then
        if s.finished then some (s.goTo thread (some .locking)) else some (s.answer thread none)
      else some (s.answer thread s.exitCode)
  | some .locking =>
      if s.exitCodeMutex.isSome then none
      else if s.exitCode.isSome then some (s.answer thread s.exitCode)
      else
        some ({ s with exitCodeMutex := some thread }.goTo thread (some (.latching s.brokenPipe)))
  | some (.latching brokenPipe) =>
      match s.thread with
      | .over ended =>
          let s := { s.decide brokenPipe ended with exitCodeMutex := none }
          some (s.answer thread s.exitCode)
      | _ => none

/-- The end of a script, and whether it is a failure of its own. -/
def luaEnds (s : Process ι) : LuaEnd → RuntimeThread
  | .noState | .loadFailed => .unwound false true
  | .raised => .unwound false (!(s.exitRequested.isSome || s.stopRequested))
  | .returned => .unwound true false
  | .threw ranToEnd => .unwound ranToEnd true

def programEnds (s : Process ι) (outcome : Outcome) : Option (Process ι) :=
  match s.thread, s.runtime, outcome with
  | .running, .agent, .agent lastCommandFailed =>
      some { s with thread := .over ⟨true, if lastCommandFailed then 1 else 0⟩ }
  | .running, .builtin, .builtin status => some { s with thread := .ended ⟨true, status.getD 1⟩ }
  | .running, .lua, .lua ended => some { s with thread := s.luaEnds ended }
  | _, _, _ => none

/-- The next step of a builtin's or a script's thread: the flags are read one after the other. -/
def runThread (s : Process ι) : Option (Process ι) :=
  match s.thread with
  | .unwound ranToEnd scriptFailed =>
      some { s with thread := .ended ⟨ranToEnd, if scriptFailed then 1 else 0⟩ }
  | .ended ended => some { s with thread := .readBrokenPipe ended s.brokenPipe }
  | .readBrokenPipe ended brokenPipe =>
      some { s.decide brokenPipe ended with thread := .over ended }
  | .running | .over _ => none

def step : EndAction ι → Process ι → Option (Process ι)
  | .call thread operation, s =>
      if (s.call thread).isSome then none else some (s.start thread operation)
  | .next thread, s => s.next thread
  | .exit code, s =>
      if s.runtime = .lua ∧ s.thread = .running then some { s with exitRequested := some code }
      else none
  | .programEnds outcome, s => s.programEnds outcome
  | .runThread, s => s.runThread
  | .inputLoopEnds, s => some { s with inputLoopFinished := true }

/-! ## What the flags tell -/

def ownCode (s : Process ι) (ended : Ended) : Int := s.exitRequested.getD ended.status

/-- Whether the broken pipe has been looked at for the exit code for the last time. -/
def settled (s : Process ι) : Bool :=
  s.exitCode.isSome || (s.runtime == .agent && s.exitCodeMutex.isSome)

def DecidedAs (s : Process ι) (ended : Ended) (code : Int) : Prop :=
  Tells s.decided s.brokenPipeBegan s.brokenPipeDone s.stopBegan (s.ownCode ended) code

/-- What is true while a thread is in a call. -/
def Fits (s : Process ι) (thread : ι) : Call → Prop
  | .breaking => s.programEnded = false → s.brokenPipeBegan = true
  | .brokenStopping => s.brokenPipe = true ∧ s.runtime ≠ .agent
  | .brokenWaking => s.brokenPipe = true
  | .stopping => s.stopBegan = true ∨ s.finished = true
  | .latchingStop => s.stopBegan = true
  | .locking => s.runtime = .agent ∧ s.finished = true
  | .latching brokenPipe =>
      (s.runtime = .agent ∧ s.finished = true) ∧
      (s.exitCodeMutex = some thread ∧ s.exitCode = none) ∧
      (brokenPipe = true → s.brokenPipeBegan = true) ∧
      (s.brokenPipeDone = true → brokenPipe = true)
  | .waking | .asking => True

structure Flags (s : Process ι) : Prop where
  began : s.brokenPipe = true → s.settled = false → s.brokenPipeBegan = true
  done : s.brokenPipeDone = true → s.brokenPipe = true
  stopped : s.stopRequested = true → s.stopBegan = true ∨
    s.runtime ≠ .agent ∧ (s.brokenPipe = true ∨ s.exitCode.isSome = true)
  agent : s.runtime = .agent → s.thread = .running ∨ ∃ ended, s.thread = .over ended
  read : ∀ ended brokenPipe, s.thread = .readBrokenPipe ended brokenPipe → brokenPipe = s.brokenPipe
  inputLoop : s.runtime ≠ .agent → s.inputLoopFinished = true
  exitRequested : s.runtime ≠ .lua → s.exitRequested = none
  exitCode : s.exitCode.isSome = true → s.finished = true
  finished : s.runtime ≠ .agent → s.finished = true → s.exitCode.isSome = true
  decided : ∀ code, s.exitCode = some code → ∃ ended, s.thread = .over ended ∧
    s.DecidedAs ended code
  answers : ∀ answer ∈ s.answers, answer.code.isSome = answer.finished ∧
    ∀ code, answer.code = some code → s.exitCode = some code

structure Sound (s : Process ι) : Prop where
  calls : ∀ thread call, s.call thread = some call → s.Fits thread call
  flags : s.Flags

structure Later (s t : Process ι) : Prop where
  runtime : t.runtime = s.runtime
  programEnded : s.programEnded = true → t.programEnded = true
  finished : s.finished = true → t.finished = true
  began : s.brokenPipeBegan = true → t.brokenPipeBegan = true
  brokenPipe : s.brokenPipe = true → t.brokenPipe = true
  stopBegan : s.stopBegan = true → t.stopBegan = true

omit [DecidableEq ι] in
theorem Later.refl (s : Process ι) : Later s s := ⟨rfl, id, id, id, id, id⟩

omit [DecidableEq ι] in
theorem Fits.mono {s t : Process ι} {thread : ι} {call : Call} (h : s.Fits thread call)
    (hlater : Later s t)
    (hlatch : ∀ brokenPipe, call = .latching brokenPipe → t.exitCodeMutex = s.exitCodeMutex ∧
      t.exitCode = s.exitCode ∧ (t.brokenPipeDone = true → s.brokenPipeDone = true)) :
    t.Fits thread call := by
  cases call with
  | breaking =>
      intro hended
      refine hlater.began (h ?_)
      cases hs : s.programEnded with
      | false => rfl
      | true => exact absurd ((hlater.programEnded hs).symm.trans hended) nofun
  | brokenStopping => exact ⟨hlater.brokenPipe h.1, hlater.runtime ▸ h.2⟩
  | brokenWaking => exact hlater.brokenPipe h
  | stopping => exact h.imp hlater.stopBegan hlater.finished
  | latchingStop => exact hlater.stopBegan h
  | locking => exact ⟨hlater.runtime.trans h.1, hlater.finished h.2⟩
  | latching brokenPipe =>
      obtain ⟨hmutex, hcode, hdone⟩ := hlatch brokenPipe rfl
      obtain ⟨⟨hruntime, hfinished⟩, ⟨hheld, hnone⟩, hbegan, hread⟩ := h
      exact ⟨⟨hlater.runtime.trans hruntime, hlater.finished hfinished⟩,
        ⟨hmutex.trans hheld, hcode.trans hnone⟩, fun hb => hlater.began (hbegan hb),
        fun hd => hread (hdone hd)⟩
  | waking | asking => trivial

theorem Sound.goTo {s t : Process ι} (h : s.Sound) (ht : t.Flags) (hlater : Later s t)
    (hcall : t.call = s.call) {thread : ι} {call : Option Call}
    (hlatch : ∀ other brokenPipe, s.call other = some (.latching brokenPipe) → other ≠ thread →
      t.exitCodeMutex = s.exitCodeMutex ∧ t.exitCode = s.exitCode ∧
        (t.brokenPipeDone = true → s.brokenPipeDone = true))
    (hnew : ∀ c, call = some c → t.Fits thread c) : (t.goTo thread call).Sound where
  calls other c hother := by
    replace hother := (Function.update_apply t.call thread call other).symm.trans hother
    have hfits : t.Fits other c := by
      split_ifs at hother with hsame
      · rw [hsame]
        exact hnew c hother
      · rw [hcall] at hother
        refine (h.calls other c hother).mono hlater ?_
        rintro brokenPipe rfl
        exact hlatch other brokenPipe hother hsame
    exact hfits.mono ⟨rfl, id, id, id, id, id⟩ fun _ _ => ⟨rfl, rfl, id⟩
  flags := { ht with }

theorem Sound.same {s : Process ι} (h : s.Sound) (thread : ι) {call : Option Call}
    (hnew : ∀ c, call = some c → s.Fits thread c) : (s.goTo thread call).Sound :=
  h.goTo h.flags (.refl s) rfl (fun _ _ _ _ => ⟨rfl, rfl, id⟩) hnew

omit [DecidableEq ι] in
theorem Flags.answered {s : Process ι} (h : s.Flags) {code : Option Int}
    (hfinished : code.isSome = s.finished) (hcode : ∀ c, code = some c → s.exitCode = some c) :
    Flags { s with answers := ⟨s.finished, code⟩ :: s.answers } := by
  refine { h with answers := ?_ }
  intro answer hanswer
  rcases List.mem_cons.mp hanswer with rfl | hanswer
  · exact ⟨hfinished, hcode⟩
  · exact h.answers answer hanswer

theorem Sound.answer {s : Process ι} (h : s.Sound) (thread : ι) {code : Option Int}
    (hfinished : code.isSome = s.finished) (hcode : ∀ c, code = some c → s.exitCode = some c) :
    (s.answer thread code).Sound :=
  h.goTo (h.flags.answered hfinished hcode) ⟨rfl, id, id, id, id, id⟩ rfl
    (fun _ _ _ _ => ⟨rfl, rfl, id⟩) nofun

omit [DecidableEq ι] in
theorem programEnded_of_finished {s : Process ι} (h : s.finished = true) :
    s.programEnded = true := by
  rw [finished] at h
  rw [programEnded]
  split at h
  case h_1 ended hthread => rw [hthread]
  case h_2 => cases h

/--
No `StopForBrokenPipe` is the first to set its flag between the end of the program and the
last look at the flag.
-/
def BreaksInTime : EndAction ι → Process ι → Prop
  | .next thread, s => s.call thread = some .breaking → s.brokenPipe = false →
      s.programEnded = true → s.settled = true
  | _, _ => True

instance (action : EndAction ι) (s : Process ι) : Decidable (BreaksInTime action s) :=
  match action with
  | .next _ => inferInstanceAs (Decidable (_ → _ → _ → _))
  | .call _ _ | .exit _ | .programEnds _ | .runThread | .inputLoopEnds => isTrue trivial

omit [DecidableEq ι] in
theorem notAgent_of_thread {s : Process ι} (h : s.Flags) (hrunning : s.thread ≠ .running)
    (hover : ∀ ended, s.thread ≠ .over ended) : s.runtime ≠ .agent := by
  intro hagent
  rcases h.agent hagent with hthread | ⟨ended, hthread⟩
  · exact hrunning hthread
  · exact hover ended hthread

omit [DecidableEq ι] in
theorem exitCode_eq_none {s : Process ι} (h : s.Flags) (hfinished : s.finished = false) :
    s.exitCode = none := by
  refine Option.not_isSome_iff_eq_none.mp fun hsome => ?_
  exact absurd ((h.exitCode hsome).symm.trans hfinished) nofun

omit [DecidableEq ι] in
theorem Flags.brokenPipe {s : Process ι} (h : s.Flags) {thread : ι}
    (hfits : s.Fits thread .breaking)
    (hintime : s.brokenPipe = false → s.programEnded = true → s.settled = true) :
    Flags { s with brokenPipe := true } where
  began _ hsettled := by
    cases hbroken : s.brokenPipe with
    | true => exact h.began hbroken hsettled
    | false =>
        refine hfits (Bool.eq_false_of_not_eq_true fun hended => ?_)
        exact absurd ((hintime hbroken hended).symm.trans hsettled) nofun
  done _ := rfl
  stopped hstop := (h.stopped hstop).imp_right fun hright => ⟨hright.1, .inl rfl⟩
  agent := h.agent
  read ended brokenPipe hthread := by
    -- the flag was read and is not decided on: it was set before
    have hread := h.read ended brokenPipe hthread
    cases hbroken : s.brokenPipe with
    | true => exact hread.trans hbroken
    | false =>
        have hsettled := hintime hbroken (by rw [programEnded, hthread])
        have hnotAgent : s.runtime ≠ .agent := notAgent_of_thread h
          (fun hrunning => nomatch hrunning.symm.trans hthread)
          fun _ hover => nomatch hover.symm.trans hthread
        have hnone : s.exitCode = none := exitCode_eq_none h (by rw [Process.finished, hthread])
        simp [settled, hnone, hnotAgent] at hsettled
  inputLoop := h.inputLoop
  exitRequested := h.exitRequested
  exitCode := h.exitCode
  finished := h.finished
  decided := h.decided
  answers := h.answers

omit [DecidableEq ι] in
theorem Flags.stopRequested {s : Process ι} (h : s.Flags)
    (hstop : s.stopBegan = true ∨
      s.runtime ≠ .agent ∧ (s.brokenPipe = true ∨ s.exitCode.isSome = true)) :
    Flags { s with stopRequested := true } :=
  { h with stopped := fun _ => hstop }

omit [DecidableEq ι] in
/-- Without a broken pipe the end is a stop that was asked for, or the program's own. -/
theorem processEnd_cases (s : Process ι) (ended : Ended)
    (hexit : s.runtime ≠ .lua → s.exitRequested = none) :
    s.processEnd false ended = (.stopped, 0) ∧ s.stopRequested = true ∨
      (s.processEnd false ended).1 = .exited ∧
        ExitCodeFor .exited (s.processEnd false ended).2 = s.ownCode ended % 256 := by
  rw [processEnd, ownCode]
  cases hruntime : s.runtime with
  | lua =>
      cases hrequested : s.exitRequested with
      | some code => exact .inr ⟨rfl, exitCodeFor_toInt code⟩
      | none =>
          cases hstop : s.stopRequested <;> cases hran : ended.ranToEnd <;>
            simp [ExitCodeFor]
  | agent | builtin =>
      rw [hexit (by simp [hruntime])]
      cases hstop : s.stopRequested <;> simp [ExitCodeFor]

omit [DecidableEq ι] in
theorem decidedAs_decide {s : Process ι} (h : s.Flags) {brokenPipe : Bool} (ended : Ended)
    (hbroken : brokenPipe = true → s.brokenPipeBegan = true)
    (hdone : s.brokenPipeDone = true → brokenPipe = true)
    (hstop : brokenPipe = false → s.stopRequested = true → s.stopBegan = true) :
    ∃ code, (s.decide brokenPipe ended).exitCode = some code ∧
      (s.decide brokenPipe ended).DecidedAs ended code := by
  refine ⟨_, rfl, ?_⟩
  change Tells (some (s.processEnd brokenPipe ended).1) s.brokenPipeBegan s.brokenPipeDone
    s.stopBegan (s.ownCode ended)
    (ExitCodeFor (s.processEnd brokenPipe ended).1 (s.processEnd brokenPipe ended).2)
  cases brokenPipe with
  | true => exact ⟨fun _ => ⟨rfl, hbroken rfl⟩, nofun, nofun, fun _ => rfl, rfl⟩
  | false =>
      have hnotDone : s.brokenPipeDone ≠ true := fun hd => absurd (hdone hd) nofun
      rcases s.processEnd_cases ended h.exitRequested with ⟨hend, hrequested⟩ | ⟨hend, hcode⟩
      · rw [hend]
        exact ⟨nofun, fun _ => ⟨rfl, hstop rfl hrequested⟩, nofun, fun hd => absurd hd hnotDone, rfl⟩
      · rw [hend]
        exact ⟨nofun, nofun, fun _ => hcode, fun hd => absurd hd hnotDone, rfl⟩

omit [DecidableEq ι] in
theorem Flags.decide {s : Process ι} (h : s.Flags) {brokenPipe : Bool} (ended : Ended)
    (hnone : s.exitCode = none) (hloop : s.inputLoopFinished = true)
    (hdone : s.brokenPipeDone = true → brokenPipe = true)
    (hbroken : brokenPipe = true → s.brokenPipeBegan = true)
    (hstop : brokenPipe = false → s.stopRequested = true → s.stopBegan = true)
    (mutex : Option ι) :
    Flags { s.decide brokenPipe ended with thread := .over ended, exitCodeMutex := mutex } where
  began _ hsettled := nomatch hsettled
  done := h.done
  stopped hrequested := (h.stopped hrequested).imp_right fun hright => ⟨hright.1, .inr rfl⟩
  agent _ := .inr ⟨ended, rfl⟩
  read := nofun
  inputLoop := h.inputLoop
  exitRequested := h.exitRequested
  exitCode _ := hloop
  finished _ _ := rfl
  decided code hcode := by
    obtain ⟨decided, hdecided, htells⟩ := decidedAs_decide h ended hbroken hdone hstop
    cases hdecided.symm.trans hcode
    exact ⟨ended, rfl, htells⟩
  answers answer hanswer := by
    obtain ⟨hfinished, hcode⟩ := h.answers answer hanswer
    refine ⟨hfinished, fun code hsome => ?_⟩
    cases hnone.symm.trans (hcode code hsome)

/-! ## Steps -/

omit [DecidableEq ι] in
theorem inputLoopFinished_of_finished {s : Process ι} (h : s.finished = true) :
    s.inputLoopFinished = true := by
  rw [finished] at h
  split at h
  case h_1 => exact h
  case h_2 => cases h

theorem Sound.start {s : Process ι} (h : s.Sound) (thread : ι) (operation : Operation) :
    (s.start thread operation).Sound := by
  cases operation with
  | stopForBrokenPipe =>
      have hbegan : s.brokenPipeBegan = true → (s.brokenPipeBegan || !s.programEnded) = true :=
        fun hb => by rw [hb, Bool.true_or]
      refine h.goTo (t := { s with brokenPipeBegan := s.brokenPipeBegan || !s.programEnded })
        { h.flags with
          began := fun hb hs => hbegan (h.flags.began hb hs)
          decided := fun code hcode => ?_ }
        ⟨rfl, id, id, hbegan, id, id⟩ rfl (fun _ _ _ _ => ⟨rfl, rfl, id⟩) ?_
      · obtain ⟨ended, hthread, htells⟩ := h.flags.decided code hcode
        exact ⟨ended, hthread,
          { htells with
            brokenPipe := fun hd => ⟨(htells.brokenPipe hd).1, hbegan (htells.brokenPipe hd).2⟩ }⟩
      · rintro _ ⟨⟩
        intro hended
        change (s.brokenPipeBegan || !s.programEnded) = true
        rw [show s.programEnded = false from hended, Bool.not_false, Bool.or_true]
  | triggerStop =>
      have hbegan : s.stopBegan = true → (s.stopBegan || !s.finished) = true :=
        fun hb => by rw [hb, Bool.true_or]
      refine h.goTo (t := { s with stopBegan := s.stopBegan || !s.finished })
        { h.flags with
          stopped := fun hs => (h.flags.stopped hs).imp_left hbegan
          decided := fun code hcode => ?_ }
        ⟨rfl, id, id, id, id, hbegan⟩ rfl (fun _ _ _ _ => ⟨rfl, rfl, id⟩) ?_
      · obtain ⟨ended, hthread, htells⟩ := h.flags.decided code hcode
        exact ⟨ended, hthread,
          { htells with
            stopped := fun hd => ⟨(htells.stopped hd).1, hbegan (htells.stopped hd).2⟩ }⟩
      · rintro _ ⟨⟩
        change (s.stopBegan || !s.finished) = true ∨ s.finished = true
        cases s.finished with
        | true => exact .inr rfl
        | false => exact .inl (Bool.or_true _)
  | exitCode =>
      refine h.same thread ?_
      rintro _ ⟨⟩
      trivial

theorem Sound.next {s t : Process ι} (h : s.Sound) {thread : ι}
    (hintime : BreaksInTime (.next thread) s) (hstep : s.next thread = some t) : t.Sound := by
  rw [Process.next.eq_def] at hstep
  split at hstep
  case h_1 => cases hstep
  case h_2 hcall =>
    cases hstep
    refine h.goTo (h.flags.brokenPipe (h.calls thread _ hcall) (hintime hcall))
      ⟨rfl, id, id, id, fun _ => rfl, id⟩ rfl (fun _ _ _ _ => ⟨rfl, rfl, id⟩) ?_
    rintro _ ⟨⟩
    change Fits _ thread (if s.runtime = .agent then .brokenWaking else .brokenStopping)
    split_ifs with hagent
    · exact rfl
    · exact ⟨rfl, hagent⟩
  case h_3 hcall =>
    cases hstep
    obtain ⟨hbroken, hagent⟩ := h.calls thread _ hcall
    refine h.goTo (h.flags.stopRequested (.inr ⟨hagent, .inl hbroken⟩)) ⟨rfl, id, id, id, id, id⟩ rfl
      (fun _ _ _ _ => ⟨rfl, rfl, id⟩) ?_
    rintro _ ⟨⟩
    exact hbroken
  case h_4 hcall =>
    cases hstep
    have hbroken : s.brokenPipe = true := h.calls thread _ hcall
    -- once the program has ended nothing is added to what was done before
    have hdone (hended : s.programEnded = true)
        (hd : (s.brokenPipeDone || !s.programEnded) = true) : s.brokenPipeDone = true := by
      rwa [hended, Bool.not_true, Bool.or_false] at hd
    refine h.goTo (t := { s with brokenPipeDone := s.brokenPipeDone || !s.programEnded })
      { h.flags with done := fun _ => hbroken, decided := fun code hcode => ?_ }
      ⟨rfl, id, id, id, id, id⟩ rfl (fun other brokenPipe hother _ => ⟨rfl, rfl, ?_⟩) nofun
    · obtain ⟨ended, hthread, htells⟩ := h.flags.decided code hcode
      refine ⟨ended, hthread, { htells with done := fun hd => htells.done (hdone ?_ hd) }⟩
      rw [programEnded, hthread]
    · exact hdone (programEnded_of_finished (h.calls other _ hother).1.2)
  case h_5 hcall =>
    have hstop : s.stopBegan = true ∨ s.finished = true := h.calls thread _ hcall
    split_ifs at hstep with hagent hfinished <;> cases hstep
    · refine h.same thread ?_
      rintro _ ⟨⟩
      trivial
    · refine h.same thread ?_
      rintro _ ⟨⟩
      exact hstop.resolve_right hfinished
    · refine h.goTo (h.flags.stopRequested (hstop.imp_right fun hfinished =>
        ⟨hagent, .inr (h.flags.finished hagent hfinished)⟩)) ⟨rfl, id, id, id, id, id⟩ rfl
        (fun _ _ _ _ => ⟨rfl, rfl, id⟩) ?_
      rintro _ ⟨⟩
      trivial
  case h_6 hcall =>
    cases hstep
    refine h.goTo (h.flags.stopRequested (.inl (h.calls thread _ hcall)))
      ⟨rfl, id, id, id, id, id⟩ rfl (fun _ _ _ _ => ⟨rfl, rfl, id⟩) ?_
    rintro _ ⟨⟩
    trivial
  case h_7 hcall =>
    cases hstep
    exact h.same thread nofun
  case h_8 hcall =>
    split_ifs at hstep with hagent hfinished <;> cases hstep
    · refine h.same thread ?_
      rintro _ ⟨⟩
      exact ⟨hagent, hfinished⟩
    · exact h.answer thread (Bool.eq_false_of_not_eq_true hfinished).symm nofun
    · refine h.answer thread (Bool.eq_iff_iff.mpr ⟨h.flags.exitCode, h.flags.finished hagent⟩) ?_
      exact fun _ => id
  case h_9 hcall =>
    obtain ⟨hagent, hfinished⟩ := h.calls thread _ hcall
    split_ifs at hstep with hheld hsome <;> cases hstep
    · exact h.answer thread (hsome.trans hfinished.symm) fun _ => id
    · have hfree : s.exitCodeMutex = none := Option.not_isSome_iff_eq_none.mp hheld
      have hnone : s.exitCode = none := Option.not_isSome_iff_eq_none.mp hsome
      have hsettled : s.settled = false := by simp [settled, hfree, hnone]
      refine h.goTo (t := { s with exitCodeMutex := some thread })
        { h.flags with began := fun hb _ => h.flags.began hb hsettled }
        ⟨rfl, id, id, id, id, id⟩ rfl (fun other brokenPipe hother _ => ?_) ?_
      · cases hfree.symm.trans (h.calls other _ hother).2.1.1
      · rintro _ ⟨⟩
        exact ⟨⟨hagent, hfinished⟩, ⟨rfl, hnone⟩, fun hb => h.flags.began hb hsettled, h.flags.done⟩
  case h_10 brokenPipe hcall =>
    obtain ⟨⟨hagent, hfinished⟩, ⟨hheld, hnone⟩, hbegan, hdone⟩ := h.calls thread _ hcall
    split at hstep
    case h_2 => cases hstep
    case h_1 ended hthread =>
      cases hstep
      have hstop : s.stopRequested = true → s.stopBegan = true := fun hrequested =>
        (h.flags.stopped hrequested).resolve_right fun hright => hright.1 hagent
      have hflags := h.flags.decide ended hnone
        (inputLoopFinished_of_finished hfinished) hdone hbegan (fun _ => hstop) none
      rw [← hthread] at hflags
      refine h.goTo (hflags.answered ?_ fun _ => id) ⟨rfl, id, id, id, id, id⟩ rfl
        (fun other brokenPipe hother hne => ?_) nofun
      · exact hfinished.symm
      · cases hheld.symm.trans (h.calls other _ hother).2.1.1
        exact absurd rfl hne

omit [DecidableEq ι] in
theorem Sound.goesOn {s : Process ι} (h : s.Sound) {thread : RuntimeThread}
    (hunfinished : s.finished = false)
    (hended : s.programEnded = true → programEnded { s with thread } = true)
    (hagent : s.runtime = .agent → ∃ ended, thread = .over ended)
    (hover : s.runtime ≠ .agent → finished { s with thread } = false)
    (hread : ∀ ended brokenPipe, thread = .readBrokenPipe ended brokenPipe →
      brokenPipe = s.brokenPipe) : Sound { s with thread } where
  calls other call hother := by
    refine (h.calls other call hother).mono
      ⟨rfl, hended, fun hf => absurd (hf.symm.trans hunfinished) nofun, id, id, id⟩ ?_
    rintro brokenPipe rfl
    exact absurd ((h.calls other _ hother).1.2.symm.trans hunfinished) nofun
  flags :=
    { h.flags with
      agent := fun ha => .inr (hagent ha)
      read := hread
      exitCode := fun hsome => by
        rw [exitCode_eq_none h.flags hunfinished] at hsome
        cases hsome
      finished := fun hnotAgent hfinished =>
        absurd (hfinished.symm.trans (hover hnotAgent)) nofun
      decided := fun code hcode => nomatch (exitCode_eq_none h.flags hunfinished).symm.trans hcode }

omit [DecidableEq ι] in
theorem Sound.programEnds {s t : Process ι} (h : s.Sound) {outcome : Outcome}
    (hstep : s.programEnds outcome = some t) : t.Sound := by
  rw [Process.programEnds.eq_def] at hstep
  have hunfinished (hthread : s.thread = .running) : s.finished = false := by
    rw [finished, hthread]
  have hended (hthread : s.thread = .running) : s.programEnded = false := by
    rw [programEnded, hthread]
  split at hstep
  case h_1 hthread hruntime =>
    cases hstep
    exact h.goesOn (hunfinished hthread) (fun _ => rfl) (fun _ => ⟨_, rfl⟩)
      (fun hnotAgent => absurd hruntime hnotAgent) nofun
  case h_2 hthread hruntime =>
    cases hstep
    exact h.goesOn (hunfinished hthread) (fun _ => rfl) (fun ha => nomatch hruntime.symm.trans ha)
      (fun _ => rfl) nofun
  case h_3 ended hthread hruntime =>
    cases hstep
    have hlua : ∃ ranToEnd scriptFailed, s.luaEnds ended = .unwound ranToEnd scriptFailed := by
      cases ended <;> exact ⟨_, _, rfl⟩
    obtain ⟨ranToEnd, scriptFailed, hends⟩ := hlua
    rw [hends]
    exact h.goesOn (hunfinished hthread) (fun he => nomatch (hended hthread).symm.trans he)
      (fun ha => nomatch hruntime.symm.trans ha) (fun _ => rfl) nofun
  case h_4 => cases hstep

omit [DecidableEq ι] in
theorem Sound.runThread {s t : Process ι} (h : s.Sound) (hstep : s.runThread = some t) :
    t.Sound := by
  rw [Process.runThread.eq_def] at hstep
  have hunfinished (hover : ∀ ended, s.thread ≠ .over ended) : s.finished = false := by
    rw [finished]
    split
    case h_1 ended hthread => exact absurd hthread (hover ended)
    case h_2 => rfl
  have hnotAgent := notAgent_of_thread h.flags
  split at hstep
  case h_1 ranToEnd scriptFailed hthread =>
    rw [hthread] at hnotAgent
    cases hstep
    refine h.goesOn (hunfinished ?_) (fun _ => rfl) (fun ha => absurd ha (hnotAgent nofun nofun))
      (fun _ => rfl) nofun
    rw [hthread]
    exact nofun
  case h_2 ended hthread =>
    rw [hthread] at hnotAgent
    cases hstep
    refine h.goesOn (hunfinished ?_) (fun _ => rfl) (fun ha => absurd ha (hnotAgent nofun nofun))
      (fun _ => rfl) ?_
    · rw [hthread]
      exact nofun
    · rintro _ _ ⟨⟩
      rfl
  case h_3 ended brokenPipe hthread =>
    have hread := h.flags.read ended brokenPipe hthread
    rw [hthread] at hnotAgent hunfinished
    cases hstep
    have hagent := hnotAgent nofun nofun
    have hnone := exitCode_eq_none h.flags (hunfinished nofun)
    have hsettled : s.settled = false := by simp [settled, hnone, hagent]
    have hflags := h.flags.decide ended hnone (h.flags.inputLoop hagent)
      (fun hd => hread.trans (h.flags.done hd))
      (fun hb => h.flags.began (hread.symm.trans hb) hsettled) ?_ s.exitCodeMutex
    · refine ⟨fun other call hother => ?_, hflags⟩
      refine (h.calls other call hother).mono
        ⟨rfl, fun _ => rfl, fun _ => h.flags.inputLoop hagent, id, id, id⟩ ?_
      rintro latched rfl
      exact absurd (h.calls other _ hother).1.1 hagent
    · intro hb hrequested
      refine (h.flags.stopped hrequested).resolve_right ?_
      rintro ⟨-, hbroken | hsome⟩
      · exact absurd (hb.symm.trans (hread.trans hbroken)) nofun
      · rw [hnone] at hsome
        cases hsome
  case h_4 => cases hstep
  case h_5 => cases hstep

theorem Sound.step {s t : Process ι} (h : s.Sound) {action : EndAction ι}
    (hintime : BreaksInTime action s) (hstep : step action s = some t) : t.Sound := by
  cases action with
  | call thread operation =>
      rw [Process.step] at hstep
      split_ifs at hstep
      cases hstep
      exact h.start thread operation
  | next thread => exact h.next hintime hstep
  | exit code =>
      rw [Process.step] at hstep
      split_ifs at hstep with hlua
      cases hstep
      have hnone := exitCode_eq_none h.flags (by rw [finished, hlua.2])
      exact
        { calls := fun other call hother => (h.calls other call hother).mono (t := { s with .. })
            ⟨rfl, id, id, id, id, id⟩ fun _ _ => ⟨rfl, rfl, id⟩
          flags :=
            { h.flags with
              exitRequested := fun hnot => absurd hlua.1 hnot
              decided := fun c hc => nomatch hnone.symm.trans hc } }
  | programEnds outcome => exact h.programEnds hstep
  | runThread => exact h.runThread hstep
  | inputLoopEnds =>
      cases hstep
      have hfinished : s.finished = true → finished { s with inputLoopFinished := true } = true := by
        intro hf
        rw [finished] at hf ⊢
        split at hf
        case h_1 ended hthread => simp [hthread]
        case h_2 => cases hf
      exact
        { calls := fun other call hother => (h.calls other call hother).mono
            ⟨rfl, id, hfinished, id, id, id⟩ fun _ _ => ⟨rfl, rfl, id⟩
          flags :=
            { h.flags with
              inputLoop := fun _ => rfl
              exitCode := fun hsome => hfinished (h.flags.exitCode hsome)
              finished := fun hnotAgent hf => h.flags.finished hnotAgent (by
                rw [finished] at hf ⊢
                rw [h.flags.inputLoop hnotAgent]
                exact hf) } }

/-! ## The exit code is decided once -/

/-- A process as it is started. -/
def initial (ι : Type*) (runtime : Runtime) (interactive : Bool) : Process ι :=
  { runtime, inputLoopFinished := !(runtime == .agent && interactive) }

/-- What is to be true of the answers that queries got. -/
structure DecidedOnce (s : Process ι) : Prop where
  empty : ∀ answer ∈ s.answers, answer.code.isSome = answer.finished
  range : ∀ answer ∈ s.answers, ∀ code, answer.code = some code → 0 ≤ code ∧ code ≤ 255
  same : ∀ answer ∈ s.answers, ∀ other ∈ s.answers, ∀ code code', answer.code = some code →
    other.code = some code' → code = code'
  tells : ∀ answer ∈ s.answers, ∀ code, answer.code = some code →
    ∃ ended, s.thread = .over ended ∧ s.DecidedAs ended code
  brokenPipe : s.brokenPipeDone = true → ∀ answer ∈ s.answers, ∀ code, answer.code = some code →
    code = kExitCodeBrokenPipe

omit [DecidableEq ι] in
theorem sound_initial (runtime : Runtime) (interactive : Bool) :
    (initial ι runtime interactive).Sound where
  calls := nofun
  flags :=
    { began := nofun
      done := nofun
      stopped := nofun
      agent := fun _ => .inl rfl
      read := nofun
      inputLoop := fun hnotAgent => by cases runtime <;> first | rfl | exact absurd rfl hnotAgent
      exitRequested := fun _ => rfl
      exitCode := nofun
      finished := nofun
      decided := nofun
      answers := nofun }

omit [DecidableEq ι] in
theorem Sound.decidedOnce {s : Process ι} (h : s.Sound) : s.DecidedOnce := by
  have htells : ∀ answer ∈ s.answers, ∀ code, answer.code = some code →
      ∃ ended, s.thread = .over ended ∧ s.DecidedAs ended code := fun answer hanswer code hcode =>
    h.flags.decided code ((h.flags.answers answer hanswer).2 code hcode)
  refine ⟨fun answer hanswer => (h.flags.answers answer hanswer).1, ?_, ?_, htells, ?_⟩
  · intro answer hanswer code hcode
    obtain ⟨ended, -, hdecided⟩ := htells answer hanswer code hcode
    exact hdecided.range
  · intro answer hanswer other hother code code' hcode hcode'
    have hsome := (h.flags.answers answer hanswer).2 code hcode
    have hsome' := (h.flags.answers other hother).2 code' hcode'
    exact Option.some.inj (hsome.symm.trans hsome')
  · intro hdone answer hanswer code hcode
    obtain ⟨ended, -, hdecided⟩ := htells answer hanswer code hcode
    exact (hdecided.brokenPipe (hdecided.done hdone)).1

/-- In every run in which no broken pipe comes too late the exit code is decided once. -/
theorem run_decidedOnce {runtime : Runtime} {interactive : Bool} {actions : List (EndAction ι)}
    {s : Process ι} (hrun : Transition.run step actions (initial ι runtime interactive) = some s)
    (hintime : Transition.Meets step BreaksInTime actions (initial ι runtime interactive)) :
    s.DecidedOnce :=
  (Transition.run_preserves_of_meets (P := Sound) (fun _ _ _ hstep hin h => h.step hin hstep) hrun
    hintime (sound_initial runtime interactive)).decidedOnce

/-- A script is asked for its code, stopped for a broken pipe and stopped; it raises an error, and
is asked again. -/
def brokenAndStopped : List (EndAction Bool) :=
  [.call false .exitCode, .next false, .call true .stopForBrokenPipe, .next true,
    .call false .triggerStop, .next true, .next false, .programEnds (.lua .raised), .next true,
    .runThread, .next false, .runThread, .runThread, .call false .exitCode, .next false,
    .call true .stopForBrokenPipe, .next true, .next true, .next true, .call true .exitCode,
    .next true]

theorem run_decidedOnce_brokenAndStopped :
    ∃ s, Transition.run step brokenAndStopped (initial Bool .lua false) = some s ∧
      s.answers = [⟨true, some 141⟩, ⟨true, some 141⟩, ⟨false, none⟩] ∧ s.DecidedOnce := by
  have hanswers : (Transition.run step brokenAndStopped (initial Bool .lua false)).map answers =
      some [⟨true, some 141⟩, ⟨true, some 141⟩, ⟨false, none⟩] := by decide +kernel
  obtain ⟨s, hrun, hs⟩ := Option.map_eq_some_iff.mp hanswers
  have hintime : Transition.Meets step BreaksInTime brokenAndStopped (initial Bool .lua false) := by
    decide +kernel
  exact ⟨s, hrun, hs, run_decidedOnce hrun hintime⟩

/-- An agent finishes, then its pipe is found broken, and only then is it asked. -/
def brokenAfterEnd : List (EndAction Unit) :=
  [.programEnds (.agent false), .call () .stopForBrokenPipe, .next (), .next (),
    .call () .exitCode, .next (), .next (), .next ()]

/-- A script fails, and the pipe is found broken between the two looks at the flags. -/
def brokenBetweenFlags : List (EndAction Bool) :=
  [.programEnds (.lua .raised), .runThread, .runThread, .call true .stopForBrokenPipe,
    .next true, .next true, .runThread, .call false .exitCode, .next false]

/--
A broken pipe that comes too late still decides: the agent's exit code is 141, and the
script's is the code of a stop that nobody asked for.
-/
theorem run_not_decidedOnce :
    (∃ s, Transition.run step brokenAfterEnd (initial Unit .agent false) = some s ∧
      s.answers = [⟨true, some 141⟩] ∧ s.brokenPipeBegan = false ∧ ¬ s.DecidedOnce) ∧
    ∃ s, Transition.run step brokenBetweenFlags (initial Bool .lua false) = some s ∧
      s.answers = [⟨true, some 143⟩] ∧ s.stopBegan = false ∧ ¬ s.DecidedOnce := by
  constructor
  · refine ⟨_, rfl, rfl, rfl, fun h => ?_⟩
    obtain ⟨ended, -, htells⟩ := h.tells ⟨true, some 141⟩ (List.mem_singleton_self _) 141 rfl
    exact absurd (htells.brokenPipe rfl).2 nofun
  · refine ⟨_, rfl, rfl, rfl, fun h => ?_⟩
    obtain ⟨ended, -, htells⟩ := h.tells ⟨true, some 143⟩ (List.mem_singleton_self _) 143 rfl
    exact absurd (htells.stopped rfl).2 nofun

end Process

end Haisos.HaisosOS
