import Haisos.PipeService.Parties

/-!
# Stop tokens around pipes

Any number of threads read, write and close any number of pipes, each under its own or a
shared stop token, and others request a stop.  Every mutex is taken in a step of its own; what is
done under it until it is given back, or until another one is to be taken, is one step.
-/

namespace Haisos.PipeService

/-- An entry of `m_callbacks`: what it does is to wake both sides of a pipe. -/
structure Registered (π : Type*) where
  id : Nat
  pipe : π
  deriving DecidableEq

structure Token (ι π : Type*) where
  mutex : Option ι := none
  stopRequested : Bool := false
  callbacks : List (Registered π) := []
  nextId : Nat := 0
  /-- The callbacks that the `RequestStop` in progress has still to run. -/
  toRun : List (Registered π) := []
  /-- Whether some `RequestStop` has returned. -/
  completed : Bool := false
  /-- How often a callback was run, whether it is one to run, and whether it is erased. -/
  ran : Nat → Nat := fun _ => 0
  due : Nat → Bool := fun _ => false
  erased : Nat → Bool := fun _ => false

/-- A call of `Read` or `Write`; `ran` is how often the thread has run its own callback. -/
structure PipeCall (τ π : Type*) where
  pipe : π
  token : Option τ
  op : Call
  ran : Nat := 0

/-- Where a thread is.  `id` is `m_id`, or `none` where nothing was registered. -/
inductive Phase (τ π : Type*) where
  | idle
  | constructing (call : PipeCall τ π)
  | checking (call : PipeCall τ π)
  | waking (call : PipeCall τ π)
  | notifying (call : PipeCall τ π)
  | locking (call : PipeCall τ π) (id : Option Nat)
  | passing (call : PipeCall τ π) (id : Option Nat)
  | waiting (call : PipeCall τ π) (id : Option Nat)
  | destroying (call : PipeCall τ π) (id : Option Nat)
  | erasing (call : PipeCall τ π) (token : τ) (id : Nat)
  | stopping (token : τ)
  | requesting (token : τ)
  | running (token : τ)
  | calling (token : τ) (callback : Registered π)
  | notifyingAll (token : τ) (callback : Registered π)
  | closing (pipe : π) (readEnd : Bool)
  | closed (pipe : π) (readEnd : Bool)

inductive Mutex (τ π : Type*) where
  | token (token : τ)
  | pipe (pipe : π)

structure Pipes (ι τ π : Type*) where
  pipe : π → PipeBuffer
  pipeMutex : π → Option ι := fun _ => none
  token : τ → Token ι π := fun _ => {}
  phase : ι → Phase τ π := fun _ => .idle
  /-- Whether a callback was ever run after its `StopCallback` was destroyed. -/
  ranErased : Bool := false

inductive StopAction (ι τ π : Type*) where
  | read (thread : ι) (pipe : π) (token : Option τ) (count : Nat)
  | write (thread : ι) (pipe : π) (token : Option τ) (buf : List UInt8)
  | requestStop (thread : ι) (token : τ)
  | close (thread : ι) (pipe : π) (readEnd : Bool)
  | next (thread : ι)
  | spuriousWake (thread : ι)

def Call.isRead : Call → Bool
  | .read _ => true
  | .write _ _ => false

namespace Phase

variable {τ π : Type*} [DecidableEq π]

/-- What a `notify_all` on one wait set of a pipe makes of a thread. -/
def notified (pipe : π) (readers : Bool) : Phase τ π → Phase τ π
  | .waiting call id =>
      if call.pipe = pipe ∧ call.op.isRead = readers then .locking call id else .waiting call id
  | phase => phase

def tokenHeld : Phase τ π → Option τ
  | .checking call => call.token
  | .erasing _ token _ | .requesting token | .running token | .calling token _
  | .notifyingAll token _ => some token
  | _ => none

def pipeHeld : Phase τ π → Option π
  | .notifying call | .passing call _ => some call.pipe
  | .notifyingAll _ callback => some callback.pipe
  | .closed pipe _ => some pipe
  | _ => none

def wants : Phase τ π → Option (Mutex τ π)
  | .constructing call => call.token.map .token
  | .destroying call (some _) => call.token.map .token
  | .stopping token => some (.token token)
  | .waking call | .locking call _ => some (.pipe call.pipe)
  | .calling _ callback => some (.pipe callback.pipe)
  | .closing pipe _ => some (.pipe pipe)
  | _ => none

def registered : Phase τ π → Option (τ × Registered π)
  | .locking call (some id) | .passing call (some id) | .waiting call (some id)
  | .destroying call (some id) => call.token.map fun token => (token, ⟨id, call.pipe⟩)
  | .erasing call token id => some (token, ⟨id, call.pipe⟩)
  | _ => none

def runs : Phase τ π → Option τ
  | .running token | .calling token _ | .notifyingAll token _ => some token
  | _ => none

@[simp]
theorem tokenHeld_notified (phase : Phase τ π) (pipe : π) (readers : Bool) :
    (phase.notified pipe readers).tokenHeld = phase.tokenHeld := by
  cases phase with
  | waiting call id =>
      rw [Phase.notified]
      split_ifs <;> rfl
  | _ => rfl

@[simp]
theorem pipeHeld_notified (phase : Phase τ π) (pipe : π) (readers : Bool) :
    (phase.notified pipe readers).pipeHeld = phase.pipeHeld := by
  cases phase with
  | waiting call id =>
      rw [Phase.notified]
      split_ifs <;> rfl
  | _ => rfl

@[simp]
theorem runs_notified (phase : Phase τ π) (pipe : π) (readers : Bool) :
    (phase.notified pipe readers).runs = phase.runs := by
  cases phase with
  | waiting call id =>
      rw [Phase.notified]
      split_ifs <;> rfl
  | _ => rfl

end Phase

namespace Pipes

variable {ι τ π : Type*}

def isIdle (s : Pipes ι τ π) (thread : ι) : Bool :=
  match s.phase thread with
  | .idle => true
  | _ => false

theorem isIdle_iff {s : Pipes ι τ π} {thread : ι} :
    s.isIdle thread = true ↔ s.phase thread = .idle := by
  rw [isIdle]
  split <;> simp_all

section

variable [DecidableEq ι] [DecidableEq τ] [DecidableEq π]

@[simps]
def goTo (s : Pipes ι τ π) (thread : ι) (phase : Phase τ π) : Pipes ι τ π :=
  { s with phase := Function.update s.phase thread phase }

@[simps]
def setToken (s : Pipes ι τ π) (token : τ) (value : Token ι π) : Pipes ι τ π :=
  { s with token := Function.update s.token token value }

@[simps]
def setPipe (s : Pipes ι τ π) (pipe : π) (value : PipeBuffer) : Pipes ι τ π :=
  { s with pipe := Function.update s.pipe pipe value }

@[simps]
def setPipeMutex (s : Pipes ι τ π) (pipe : π) (holder : Option ι) : Pipes ι τ π :=
  { s with pipeMutex := Function.update s.pipeMutex pipe holder }

@[simps]
def notify (s : Pipes ι τ π) (pipe : π) (readers : Bool) : Pipes ι τ π :=
  { s with phase := fun thread => (s.phase thread).notified pipe readers }

def stopSeen (s : Pipes ι τ π) : Option τ → Bool
  | some token => (s.token token).stopRequested
  | none => false

def lockToken (s : Pipes ι τ π) (thread : ι) (token : τ) (phase : Phase τ π) :
    Option (Pipes ι τ π) :=
  if (s.token token).mutex.isSome then none
  else some ((s.setToken token { s.token token with mutex := some thread }).goTo thread phase)

def lockPipe (s : Pipes ι τ π) (thread : ι) (pipe : π) (phase : Phase τ π) :
    Option (Pipes ι τ π) :=
  if (s.pipeMutex pipe).isSome then none
  else some ((s.setPipeMutex pipe (some thread)).goTo thread phase)

/-- What the constructor of `StopCallback` does under the token's mutex. -/
def construct (s : Pipes ι τ π) (thread : ι) (call : PipeCall τ π) (token : τ) : Pipes ι τ π :=
  let value := s.token token
  if value.stopRequested then
    (s.setToken token { value with mutex := none }).goTo thread (.waking call)
  else
    (s.setToken token { value with
      mutex := none
      nextId := value.nextId + 1
      callbacks := value.callbacks ++ [⟨value.nextId, call.pipe⟩] }).goTo thread
        (.locking call (some value.nextId))

/-- One pass of `Read`, up to where the mutex is given back. -/
def passRead (s : Pipes ι τ π) (thread : ι) (call : PipeCall τ π) (id : Option Nat)
    (count : Nat) : Pipes ι τ π :=
  let before := s.pipe call.pipe
  let released := s.setPipeMutex call.pipe none
  match before.readPass count (s.stopSeen call.token) with
  | (.returned _ _, after) =>
      let read := released.setPipe call.pipe after
      (if before.size > 0 then read.notify call.pipe false else read).goTo thread
        (.destroying call id)
  | (.waits, _) => released.goTo thread (.waiting call id)

/-- One pass of `Write`, up to where the mutex is given back or the loop goes on. -/
def passWrite (s : Pipes ι τ π) (thread : ι) (call : PipeCall τ π) (id : Option Nat)
    (buf : List UInt8) (written : Nat) : Pipes ι τ π :=
  let before := s.pipe call.pipe
  let released := s.setPipeMutex call.pipe none
  match before.writePass buf written (s.stopSeen call.token) with
  | (.returned _ _, after) =>
      let wrote := released.setPipe call.pipe after
      (if before.readEndOpen && decide (before.need buf.length ≤ before.room) then
          wrote.notify call.pipe true
        else wrote).goTo thread (.destroying call id)
  | (.continued written', after) =>
      ((s.setPipe call.pipe after).notify call.pipe true).goTo thread
        (.passing { call with op := .write buf written' } id)
  | (.waits, _) => released.goTo thread (.waiting call id)

/-- `m_stopRequested.exchange(true)`, and what follows from it. -/
def request (s : Pipes ι τ π) (thread : ι) (token : τ) : Pipes ι τ π :=
  let value := s.token token
  if value.stopRequested then
    (s.setToken token { value with mutex := none, completed := true }).goTo thread .idle
  else
    (s.setToken token { value with
      stopRequested := true
      toRun := value.callbacks
      due := fun id => value.due id || value.callbacks.any fun callback => callback.id == id }).goTo
        thread (.running token)

/-- The loop of `RequestStop` over the callbacks. -/
def runNext (s : Pipes ι τ π) (thread : ι) (token : τ) : Pipes ι τ π :=
  match (s.token token).toRun with
  | [] =>
      (s.setToken token { s.token token with mutex := none, completed := true }).goTo thread .idle
  | callback :: _ => s.goTo thread (.calling token callback)

def runCallback (s : Pipes ι τ π) (thread : ι) (token : τ) (callback : Registered π) :
    Pipes ι τ π :=
  let value := s.token token
  let woken := (s.notify callback.pipe true).notify callback.pipe false
  ({ woken with ranErased := s.ranErased || value.erased callback.id }.setToken token { value with
      toRun := value.toRun.tail
      ran := Function.update value.ran callback.id (value.ran callback.id + 1) }).setPipeMutex
    callback.pipe none |>.goTo thread (.running token)

def erase (s : Pipes ι τ π) (thread : ι) (token : τ) (id : Nat) : Pipes ι τ π :=
  let value := s.token token
  (s.setToken token { value with
    mutex := none
    callbacks := value.callbacks.filter fun callback => callback.id != id
    erased := Function.update value.erased id true }).goTo thread .idle

def closeEnd (s : Pipes ι τ π) (thread : ι) (pipe : π) (readEnd : Bool) : Pipes ι τ π :=
  let value := s.pipe pipe
  let closed := (s.setPipeMutex pipe none).setPipe pipe
    (if readEnd then value.closeReadEnd else value.closeWriteEnd)
  (closed.notify pipe (!readEnd)).goTo thread .idle

/-- The next step of a thread. -/
def next (s : Pipes ι τ π) (thread : ι) : Option (Pipes ι τ π) :=
  match s.phase thread with
  | .idle | .waiting _ _ => none
  | .constructing call =>
      match call.token with
      | some token => s.lockToken thread token (.checking call)
      | none => some (s.goTo thread (.locking call none))
  | .checking call =>
      match call.token with
      | some token => some (s.construct thread call token)
      | none => none
  | .waking call => s.lockPipe thread call.pipe (.notifying call)
  | .notifying call =>
      some ((((s.notify call.pipe true).notify call.pipe false).setPipeMutex call.pipe none).goTo
        thread (.locking { call with ran := call.ran + 1 } none))
  | .locking call id => s.lockPipe thread call.pipe (.passing call id)
  | .passing call id =>
      match call.op with
      | .read count => some (s.passRead thread call id count)
      | .write buf written => some (s.passWrite thread call id buf written)
  | .destroying call id =>
      match call.token, id with
      | some token, some id => s.lockToken thread token (.erasing call token id)
      | _, _ => some (s.goTo thread .idle)
  | .erasing _ token id => some (s.erase thread token id)
  | .stopping token => s.lockToken thread token (.requesting token)
  | .requesting token => some (s.request thread token)
  | .running token => some (s.runNext thread token)
  | .calling token callback =>
      s.lockPipe thread callback.pipe (.notifyingAll token callback)
  | .notifyingAll token callback => some (s.runCallback thread token callback)
  | .closing pipe readEnd => s.lockPipe thread pipe (.closed pipe readEnd)
  | .closed pipe readEnd => some (s.closeEnd thread pipe readEnd)

def step : StopAction ι τ π → Pipes ι τ π → Option (Pipes ι τ π)
  | .read thread pipe token count, s =>
      -- a call of no bytes returns before anything is constructed
      if !s.isIdle thread then none
      else if count = 0 then some s
      else some (s.goTo thread (.constructing { pipe, token, op := .read count }))
  | .write thread pipe token buf, s =>
      if !s.isIdle thread then none
      else if buf.length = 0 then some s
      else some (s.goTo thread (.constructing { pipe, token, op := .write buf 0 }))
  | .requestStop thread token, s =>
      if s.isIdle thread then some (s.goTo thread (.stopping token)) else none
  | .close thread pipe readEnd, s =>
      if s.isIdle thread then some (s.goTo thread (.closing pipe readEnd)) else none
  | .next thread, s => s.next thread
  | .spuriousWake thread, s =>
      match s.phase thread with
      | .waiting call id => some (s.goTo thread (.locking call id))
      | _ => none

/-! ## Who holds which mutex -/

structure Owned (s : Pipes ι τ π) : Prop where
  token : ∀ token thread, (s.token token).mutex = some thread ↔
    (s.phase thread).tokenHeld = some token
  pipe : ∀ pipe thread, s.pipeMutex pipe = some thread ↔ (s.phase thread).pipeHeld = some pipe

theorem Owned.move {s t : Pipes ι τ π} (h : s.Owned) (thread : ι)
    (hothers : ∀ other, other ≠ thread → (t.phase other).tokenHeld = (s.phase other).tokenHeld ∧
      (t.phase other).pipeHeld = (s.phase other).pipeHeld)
    (htoken : ∀ token, (t.token token).mutex =
      if (t.phase thread).tokenHeld = some token then some thread
      else if (s.phase thread).tokenHeld = some token then none else (s.token token).mutex)
    (hpipe : ∀ pipe, t.pipeMutex pipe =
      if (t.phase thread).pipeHeld = some pipe then some thread
      else if (s.phase thread).pipeHeld = some pipe then none else s.pipeMutex pipe)
    (hfreeToken : ∀ token, (t.phase thread).tokenHeld = some token →
      (s.phase thread).tokenHeld = some token ∨ (s.token token).mutex = none)
    (hfreePipe : ∀ pipe, (t.phase thread).pipeHeld = some pipe →
      (s.phase thread).pipeHeld = some pipe ∨ s.pipeMutex pipe = none) : t.Owned := by
  obtain ⟨hs, hs'⟩ := h
  constructor
  · intro token other
    by_cases hother : other = thread
    · subst hother
      rw [htoken]
      grind
    · have hheld := hs token thread
      rw [htoken, (hothers other hother).1, ← hs token other]
      grind
  · intro pipe other
    by_cases hother : other = thread
    · subst hother
      rw [hpipe]
      grind
    · have hheld := hs' pipe thread
      rw [hpipe, (hothers other hother).2, ← hs' pipe other]
      grind

theorem Owned.lockToken {s t : Pipes ι τ π} (h : s.Owned) {thread : ι} {token : τ}
    {phase : Phase τ π} (hphase : (s.phase thread).tokenHeld = none ∧ (s.phase thread).pipeHeld = none)
    (hheld : phase.tokenHeld = some token ∧ phase.pipeHeld = none)
    (hstep : s.lockToken thread token phase = some t) : t.Owned := by
  rw [Pipes.lockToken] at hstep
  split_ifs at hstep with hfree
  cases hstep
  have hnone := Option.not_isSome_iff_eq_none.mp hfree
  refine h.move thread ?_ ?_ ?_ ?_ ?_ <;>
    simp only [goTo_phase, goTo_token, goTo_pipeMutex, setToken_phase, setToken_token,
      setToken_pipeMutex, Function.update_apply, if_true, hphase.1, hphase.2, hheld.1, hheld.2] <;>
    grind

theorem Owned.lockPipe {s t : Pipes ι τ π} (h : s.Owned) {thread : ι} {pipe : π}
    {phase : Phase τ π} (hphase : (s.phase thread).pipeHeld = none)
    (hheld : phase.tokenHeld = (s.phase thread).tokenHeld ∧ phase.pipeHeld = some pipe)
    (hstep : s.lockPipe thread pipe phase = some t) : t.Owned := by
  rw [Pipes.lockPipe] at hstep
  split_ifs at hstep with hfree
  cases hstep
  have hnone := Option.not_isSome_iff_eq_none.mp hfree
  have hs := h.token
  refine h.move thread ?_ ?_ ?_ ?_ ?_ <;>
    simp only [goTo_phase, goTo_token, goTo_pipeMutex, setPipeMutex_phase, setPipeMutex_token,
      setPipeMutex_pipeMutex, Function.update_apply, if_true, hphase, hheld.1, hheld.2] <;>
    grind

theorem Owned.same {s t : Pipes ι τ π} (h : s.Owned) (thread : ι)
    (hothers : ∀ other, other ≠ thread → (t.phase other).tokenHeld = (s.phase other).tokenHeld ∧
      (t.phase other).pipeHeld = (s.phase other).pipeHeld)
    (hthread : (t.phase thread).tokenHeld = (s.phase thread).tokenHeld ∧
      (t.phase thread).pipeHeld = (s.phase thread).pipeHeld)
    (htoken : ∀ token, (t.token token).mutex = (s.token token).mutex)
    (hpipe : ∀ pipe, t.pipeMutex pipe = s.pipeMutex pipe) : t.Owned := by
  have hs := h.token
  have hs' := h.pipe
  refine h.move thread hothers ?_ ?_ ?_ ?_ <;> grind

theorem Owned.unlockToken {s t : Pipes ι τ π} (h : s.Owned) (thread : ι) (token : τ)
    (hheld : (s.phase thread).tokenHeld = some token ∧ (s.phase thread).pipeHeld = none)
    (hothers : ∀ other, other ≠ thread → t.phase other = s.phase other)
    (hthread : (t.phase thread).tokenHeld = none ∧ (t.phase thread).pipeHeld = none)
    (htoken : ∀ other, (t.token other).mutex =
      if other = token then none else (s.token other).mutex)
    (hpipe : ∀ pipe, t.pipeMutex pipe = s.pipeMutex pipe) : t.Owned := by
  have hs := h.token
  have hs' := h.pipe
  refine h.move thread ?_ ?_ ?_ ?_ ?_ <;> grind

theorem Owned.unlockPipe {s t : Pipes ι τ π} (h : s.Owned) (thread : ι) (pipe : π)
    (hheld : (s.phase thread).pipeHeld = some pipe)
    (hothers : ∀ other, other ≠ thread → (t.phase other).tokenHeld = (s.phase other).tokenHeld ∧
      (t.phase other).pipeHeld = (s.phase other).pipeHeld)
    (hthread : (t.phase thread).tokenHeld = (s.phase thread).tokenHeld ∧
      (t.phase thread).pipeHeld = none)
    (htoken : ∀ token, (t.token token).mutex = (s.token token).mutex)
    (hpipe : ∀ other, t.pipeMutex other = if other = pipe then none else s.pipeMutex other) :
    t.Owned := by
  have hs := h.token
  have hs' := h.pipe
  refine h.move thread hothers ?_ ?_ ?_ ?_ <;> grind

theorem Owned.construct {s : Pipes ι τ π} (h : s.Owned) {thread : ι} {call : PipeCall τ π}
    {token : τ} (hphase : s.phase thread = .checking call) (htoken : call.token = some token) :
    (s.construct thread call token).Owned := by
  rw [Pipes.construct]
  split_ifs <;>
    exact h.unlockToken thread token (by simp [hphase, htoken, Phase.tokenHeld, Phase.pipeHeld])
      (fun other hother => by simp [Function.update_of_ne hother])
      (by simp [Phase.tokenHeld, Phase.pipeHeld])
      (fun other => by by_cases hsame : other = token <;> simp [hsame]) fun _ => rfl

theorem Owned.passRead {s : Pipes ι τ π} (h : s.Owned) {thread : ι} {call : PipeCall τ π}
    {id : Option Nat} {count : Nat} (hphase : s.phase thread = .passing call id) :
    (s.passRead thread call id count).Owned := by
  have hheld : (s.phase thread).tokenHeld = none ∧ (s.phase thread).pipeHeld = some call.pipe := by
    rw [hphase]
    exact ⟨rfl, rfl⟩
  rw [Pipes.passRead]
  split
  · split_ifs <;>
      exact h.unlockPipe thread call.pipe hheld.2
        (fun other hother => by simp [Function.update_of_ne hother])
        (by simp only [goTo_phase, Function.update_self, hheld.1]; exact ⟨rfl, rfl⟩)
        (fun token => by simp) fun pipe => by simp [Function.update_apply]
  · exact h.unlockPipe thread call.pipe hheld.2
      (fun other hother => by simp [Function.update_of_ne hother])
      (by simp only [goTo_phase, Function.update_self, hheld.1]; exact ⟨rfl, rfl⟩)
      (fun token => by simp) fun pipe => by simp [Function.update_apply]

theorem Owned.passWrite {s : Pipes ι τ π} (h : s.Owned) {thread : ι} {call : PipeCall τ π}
    {id : Option Nat} {buf : List UInt8} {written : Nat}
    (hphase : s.phase thread = .passing call id) :
    (s.passWrite thread call id buf written).Owned := by
  have hheld : (s.phase thread).tokenHeld = none ∧ (s.phase thread).pipeHeld = some call.pipe := by
    rw [hphase]
    exact ⟨rfl, rfl⟩
  rw [Pipes.passWrite]
  split
  · split_ifs <;>
      exact h.unlockPipe thread call.pipe hheld.2
        (fun other hother => by simp [Function.update_of_ne hother])
        (by simp only [goTo_phase, Function.update_self, hheld.1]; exact ⟨rfl, rfl⟩)
        (fun token => by simp) fun pipe => by simp [Function.update_apply]
  · exact h.same thread (fun other hother => by simp [Function.update_of_ne hother])
      (by simp only [goTo_phase, Function.update_self, hheld]; exact ⟨rfl, rfl⟩)
      (fun token => by simp) fun pipe => by simp
  · exact h.unlockPipe thread call.pipe hheld.2
      (fun other hother => by simp [Function.update_of_ne hother])
      (by simp only [goTo_phase, Function.update_self, hheld.1]; exact ⟨rfl, rfl⟩)
      (fun token => by simp) fun pipe => by simp [Function.update_apply]

theorem Owned.next {s t : Pipes ι τ π} (h : s.Owned) {thread : ι}
    (hstep : s.next thread = some t) : t.Owned := by
  rw [Pipes.next.eq_def] at hstep
  split at hstep
  case h_1 => cases hstep
  case h_2 => cases hstep
  case h_3 call hphase =>
    split at hstep
    case h_1 token htoken =>
      refine h.lockToken ?_ ?_ hstep
      · rw [hphase]
        exact ⟨rfl, rfl⟩
      · exact ⟨htoken, rfl⟩
    case h_2 =>
      cases hstep
      exact h.same thread (fun other hother => by simp [Function.update_of_ne hother])
        (by simp only [goTo_phase, Function.update_self, hphase]; exact ⟨rfl, rfl⟩) (fun _ => rfl)
        fun _ => rfl
  case h_4 call hphase =>
    split at hstep
    case h_1 token htoken =>
      cases hstep
      exact h.construct hphase htoken
    case h_2 => cases hstep
  case h_5 call hphase =>
    exact h.lockPipe (by rw [hphase]; rfl) (by rw [hphase]; exact ⟨rfl, rfl⟩) hstep
  case h_6 call hphase =>
    cases hstep
    exact h.unlockPipe thread call.pipe (by rw [hphase]; rfl)
      (fun other hother => by simp [Function.update_of_ne hother])
      (by simp only [goTo_phase, Function.update_self, hphase]; exact ⟨rfl, rfl⟩)
      (fun token => by simp) fun pipe => by simp [Function.update_apply]
  case h_7 call id hphase =>
    exact h.lockPipe (by rw [hphase]; rfl) (by rw [hphase]; exact ⟨rfl, rfl⟩) hstep
  case h_8 call id hphase =>
    split at hstep <;> cases hstep
    · exact h.passRead hphase
    · exact h.passWrite hphase
  case h_9 call id hphase =>
    split at hstep
    case h_1 token id htoken =>
      exact h.lockToken (by rw [hphase]; exact ⟨rfl, rfl⟩) ⟨rfl, rfl⟩ hstep
    case h_2 =>
      cases hstep
      exact h.same thread (fun other hother => by simp [Function.update_of_ne hother])
        (by simp only [goTo_phase, Function.update_self, hphase]; exact ⟨rfl, rfl⟩) (fun _ => rfl)
        fun _ => rfl
  case h_10 call token id hphase =>
    cases hstep
    exact h.unlockToken thread token (by rw [hphase]; exact ⟨rfl, rfl⟩)
      (fun other hother => by simp [Pipes.erase, Function.update_of_ne hother])
      (by simp only [Pipes.erase, goTo_phase, Function.update_self]; exact ⟨rfl, rfl⟩)
      (fun other => by by_cases hsame : other = token <;> simp [Pipes.erase, hsame]) fun _ => rfl
  case h_11 token hphase =>
    exact h.lockToken (by rw [hphase]; exact ⟨rfl, rfl⟩) ⟨rfl, rfl⟩ hstep
  case h_12 token hphase =>
    cases hstep
    rw [Pipes.request]
    split_ifs
    · exact h.unlockToken thread token (by rw [hphase]; exact ⟨rfl, rfl⟩)
        (fun other hother => by simp [Function.update_of_ne hother])
        (by simp only [goTo_phase, Function.update_self]; exact ⟨rfl, rfl⟩)
        (fun other => by by_cases hsame : other = token <;> simp [hsame]) fun _ => rfl
    · exact h.same thread (fun other hother => by simp [Function.update_of_ne hother])
        (by simp only [goTo_phase, Function.update_self, hphase]; exact ⟨rfl, rfl⟩)
        (fun other => by by_cases hsame : other = token <;> simp [hsame]) fun _ => rfl
  case h_13 token hphase =>
    cases hstep
    rw [Pipes.runNext]
    split
    · exact h.unlockToken thread token (by rw [hphase]; exact ⟨rfl, rfl⟩)
        (fun other hother => by simp [Function.update_of_ne hother])
        (by simp only [goTo_phase, Function.update_self]; exact ⟨rfl, rfl⟩)
        (fun other => by by_cases hsame : other = token <;> simp [hsame]) fun _ => rfl
    · exact h.same thread (fun other hother => by simp [Function.update_of_ne hother])
        (by simp only [goTo_phase, Function.update_self, hphase]; exact ⟨rfl, rfl⟩) (fun _ => rfl)
        fun _ => rfl
  case h_14 token callback hphase =>
    exact h.lockPipe (by rw [hphase]; rfl) (by rw [hphase]; exact ⟨rfl, rfl⟩) hstep
  case h_15 token callback hphase =>
    cases hstep
    exact h.unlockPipe thread callback.pipe (by rw [hphase]; rfl)
      (fun other hother => by simp [Pipes.runCallback, Function.update_of_ne hother])
      (by simp only [Pipes.runCallback, goTo_phase, Function.update_self, hphase]; exact ⟨rfl, rfl⟩)
      (fun other => by by_cases hsame : other = token <;> simp [Pipes.runCallback, hsame])
      fun pipe => by simp [Pipes.runCallback, Function.update_apply]
  case h_16 pipe readEnd hphase =>
    exact h.lockPipe (by rw [hphase]; rfl) (by rw [hphase]; exact ⟨rfl, rfl⟩) hstep
  case h_17 pipe readEnd hphase =>
    cases hstep
    exact h.unlockPipe thread pipe (by rw [hphase]; rfl)
      (fun other hother => by simp [Pipes.closeEnd, Function.update_of_ne hother])
      (by simp only [Pipes.closeEnd, goTo_phase, Function.update_self, hphase]; exact ⟨rfl, rfl⟩)
      (fun other => by simp [Pipes.closeEnd])
      fun other => by simp [Pipes.closeEnd, Function.update_apply]

theorem step_cases {action : StopAction ι τ π} {s t : Pipes ι τ π} (h : step action s = some t) :
    (∃ thread, s.next thread = some t) ∨ t = s ∨
    (∃ thread pipe token op, s.phase thread = .idle ∧
      t = s.goTo thread (.constructing { pipe, token, op })) ∨
    (∃ thread token, s.phase thread = .idle ∧ t = s.goTo thread (.stopping token)) ∨
    (∃ thread pipe readEnd, s.phase thread = .idle ∧ t = s.goTo thread (.closing pipe readEnd)) ∨
    ∃ thread call id, s.phase thread = .waiting call id ∧ t = s.goTo thread (.locking call id) := by
  cases action with
  | read thread pipe token count | write thread pipe token count =>
      rw [step] at h
      split_ifs at h with hidle hempty <;> cases h
      · exact .inr (.inl rfl)
      · rw [Bool.not_eq_true, Bool.not_eq_false', isIdle_iff] at hidle
        exact .inr (.inr (.inl ⟨thread, pipe, token, _, hidle, rfl⟩))
  | requestStop thread token =>
      rw [step] at h
      split_ifs at h with hidle
      cases h
      exact .inr (.inr (.inr (.inl ⟨thread, token, isIdle_iff.mp hidle, rfl⟩)))
  | close thread pipe readEnd =>
      rw [step] at h
      split_ifs at h with hidle
      cases h
      exact .inr (.inr (.inr (.inr (.inl ⟨thread, pipe, readEnd, isIdle_iff.mp hidle, rfl⟩))))
  | next thread => exact .inl ⟨thread, h⟩
  | spuriousWake thread =>
      rw [step] at h
      split at h <;> cases h
      exact .inr (.inr (.inr (.inr (.inr ⟨thread, _, _, ‹_›, rfl⟩))))

theorem Owned.step {s t : Pipes ι τ π} (h : s.Owned) {action : StopAction ι τ π}
    (hstep : step action s = some t) : t.Owned := by
  have hgoTo (thread : ι) (phase : Phase τ π)
      (hheld : (s.phase thread).tokenHeld = none ∧ (s.phase thread).pipeHeld = none)
      (hphase : phase.tokenHeld = none ∧ phase.pipeHeld = none) : (s.goTo thread phase).Owned :=
    h.same thread (fun other hother => by simp [Function.update_of_ne hother])
      (by simp [hheld, hphase]) (fun _ => rfl) fun _ => rfl
  rcases step_cases hstep with ⟨thread, hnext⟩ | rfl | ⟨thread, pipe, token, op, hidle, rfl⟩ |
    ⟨thread, token, hidle, rfl⟩ | ⟨thread, pipe, readEnd, hidle, rfl⟩ |
    ⟨thread, call, id, hwaiting, rfl⟩
  · exact h.next hnext
  · exact h
  · exact hgoTo thread _ (by rw [hidle]; exact ⟨rfl, rfl⟩) ⟨rfl, rfl⟩
  · exact hgoTo thread _ (by rw [hidle]; exact ⟨rfl, rfl⟩) ⟨rfl, rfl⟩
  · exact hgoTo thread _ (by rw [hidle]; exact ⟨rfl, rfl⟩) ⟨rfl, rfl⟩
  · exact hgoTo thread _ (by rw [hwaiting]; exact ⟨rfl, rfl⟩) ⟨rfl, rfl⟩

end

/-! ## No circle of waits -/

def holder (s : Pipes ι τ π) : Mutex τ π → Option ι
  | .token token => (s.token token).mutex
  | .pipe pipe => s.pipeMutex pipe

def WaitsFor (s : Pipes ι τ π) (thread other : ι) : Prop :=
  ∃ mutex, (s.phase thread).wants = some mutex ∧ s.holder mutex = some other

/-- Who holds a pipe's mutex waits for none, and who holds a token's waits for a pipe's at most. -/
theorem wants_of_pipeHeld {phase : Phase τ π} {pipe : π} (h : phase.pipeHeld = some pipe) :
    phase.wants = none := by
  cases phase <;> first | rfl | cases h

theorem wants_of_tokenHeld {phase : Phase τ π} {token : τ} (h : phase.tokenHeld = some token) :
    phase.wants = none ∨ ∃ pipe, phase.wants = some (.pipe pipe) := by
  cases phase <;> first | exact .inl rfl | exact .inr ⟨_, rfl⟩ | cases h

theorem Owned.waits_end {s : Pipes ι τ π} (h : s.Owned) {first second third fourth : ι}
    (hfirst : s.WaitsFor first second) (hsecond : s.WaitsFor second third) :
    ¬ s.WaitsFor third fourth := by
  obtain ⟨mutex, -, hheld⟩ := hfirst
  obtain ⟨mutex', hwants', hheld'⟩ := hsecond
  -- the second waits, so that what it holds is a token's mutex and what it wants is a pipe's
  cases mutex with
  | pipe pipe => cases (wants_of_pipeHeld ((h.pipe pipe second).mp hheld)).symm.trans hwants'
  | token token =>
      rcases wants_of_tokenHeld ((h.token token second).mp hheld) with hnone | ⟨pipe, hpipe⟩
      · cases hnone.symm.trans hwants'
      · cases hpipe.symm.trans hwants'
        rintro ⟨mutex'', hwants'', -⟩
        cases (wants_of_pipeHeld ((h.pipe pipe third).mp hheld')).symm.trans hwants''

theorem Owned.no_circle {s : Pipes ι τ π} (h : s.Owned) (thread : ι) :
    ¬ Relation.TransGen s.WaitsFor thread thread := by
  intro hcircle
  obtain ⟨second, hfirst, hrest⟩ := Relation.TransGen.head'_iff.mp hcircle
  -- who is on the circle waits for somebody on it
  have hgoesOn (other : ι) (hother : Relation.ReflTransGen s.WaitsFor other thread) :
      ∃ following, s.WaitsFor other following ∧
        Relation.ReflTransGen s.WaitsFor following thread := by
    rcases Relation.ReflTransGen.cases_head hother with rfl | hstep
    · exact ⟨second, hfirst, hrest⟩
    · exact hstep
  obtain ⟨third, hsecond, hrest'⟩ := hgoesOn second hrest
  obtain ⟨fourth, hthird, -⟩ := hgoesOn third hrest'
  exact h.waits_end hfirst hsecond hthird

end Pipes

end Haisos.PipeService
