import Haisos.Transition
import Haisos.PipeService.Callbacks

/-!
# No wake-up of a blocked call is lost

A thread stays in a wait set only as long as its call would block, and as long as a stop
request that its callback has not answered is still under way.
-/

namespace Haisos.PipeService

namespace Pipes

variable {ι τ π : Type*}

def Blocks (value : PipeBuffer) : Call → Prop
  | .read _ => value.size = 0 ∧ value.writeEndOpen = true
  | .write buf _ => value.readEndOpen = true ∧ value.room < value.need buf.length

/-- Where the call's token is stopped, its callback is still to be run. -/
def StopAhead (s : Pipes ι τ π) (call : PipeCall τ π) (id : Option Nat) : Prop :=
  ∀ token, call.token = some token → (s.token token).stopRequested = true →
    ∃ n, id = some n ∧ ⟨n, call.pipe⟩ ∈ (s.token token).toRun

structure WaitsRightly (s : Pipes ι τ π) (call : PipeCall τ π) (id : Option Nat) : Prop where
  blocks : Blocks (s.pipe call.pipe) call.op
  stopAhead : s.StopAhead call id

def Waits (s : Pipes ι τ π) : Prop :=
  ∀ thread call id, s.phase thread = .waiting call id → s.WaitsRightly call id

theorem stopAhead_of_not_seen {s : Pipes ι τ π} {call : PipeCall τ π} {id : Option Nat}
    (h : s.stopSeen call.token = false) : s.StopAhead call id := by
  intro token htoken hstopped
  rw [htoken, stopSeen, hstopped] at h
  cases h

section

variable [DecidableEq ι]

/-- Whatever a step changes, it leaves nobody waiting who should not. -/
theorem Waits.move {s t : Pipes ι τ π} (h : s.Waits) (thread : ι)
    (hothers : ∀ other, other ≠ thread → ∀ call id, t.phase other = .waiting call id →
      s.phase other = .waiting call id ∧
        (Blocks (s.pipe call.pipe) call.op → Blocks (t.pipe call.pipe) call.op) ∧
        (s.StopAhead call id → t.StopAhead call id))
    (hthread : ∀ call id, t.phase thread = .waiting call id → t.WaitsRightly call id) :
    t.Waits := by
  intro other call id hwaiting
  by_cases hother : other = thread
  · exact hthread call id (hother ▸ hwaiting)
  · obtain ⟨hbefore, hblocks, hstop⟩ := hothers other hother call id hwaiting
    have hrightly := h other call id hbefore
    exact ⟨hblocks hrightly.blocks, hstop hrightly.stopAhead⟩

theorem Waits.goTo {s t : Pipes ι τ π} (h : s.Waits) {thread : ι} {phase : Phase τ π}
    (hphase : t.phase = Function.update s.phase thread phase) (hpipe : t.pipe = s.pipe)
    (hstop : ∀ token, (t.token token).stopRequested = (s.token token).stopRequested)
    (htoRun : ∀ token, (t.token token).toRun = (s.token token).toRun)
    (hthread : ∀ call id, phase = .waiting call id → t.WaitsRightly call id) : t.Waits := by
  refine h.move thread (fun other hother call id hwaiting => ⟨?_, ?_, ?_⟩) fun call id hwaiting => ?_
  · rw [hphase, Function.update_of_ne hother] at hwaiting
    exact hwaiting
  · rw [hpipe]
    exact fun hs => hs
  · intro hahead token htoken hstopped
    rw [htoRun]
    exact hahead token htoken ((hstop token).symm.trans hstopped)
  · rw [hphase, Function.update_self] at hwaiting
    exact hthread call id hwaiting

section

variable [DecidableEq τ]

theorem Waits.setToken {s : Pipes ι τ π} (h : s.Waits) {thread : ι} {token : τ}
    {value : Token ι π} {phase : Phase τ π}
    (hstop : value.stopRequested = (s.token token).stopRequested)
    (htoRun : value.toRun = (s.token token).toRun)
    (hthread : ∀ call id, phase ≠ .waiting call id) :
    ((s.setToken token value).goTo thread phase).Waits := by
  refine h.goTo rfl rfl (fun other => ?_) (fun other => ?_)
    fun call id hwaiting => absurd hwaiting (hthread call id)
  · by_cases hother : other = token
    · rw [hother, goTo_token, setToken_self, hstop]
    · rw [goTo_token, setToken_of_ne s value hother]
  · by_cases hother : other = token
    · rw [hother, goTo_token, setToken_self, htoRun]
    · rw [goTo_token, setToken_of_ne s value hother]

theorem Waits.lockToken {s t : Pipes ι τ π} (h : s.Waits) {thread : ι} {token : τ}
    {phase : Phase τ π} (hstep : s.lockToken thread token phase = some t)
    (hthread : ∀ call id, phase ≠ .waiting call id) : t.Waits := by
  rw [Pipes.lockToken] at hstep
  split_ifs at hstep
  cases hstep
  exact h.setToken rfl rfl hthread

theorem Waits.request {s : Pipes ι τ π} (h : s.Waits) (hregisters : s.Registers) (thread : ι)
    (token : τ) : (s.request thread token).Waits := by
  rw [Pipes.request]
  split_ifs with hstop
  · exact h.setToken rfl rfl (by rintro _ _ ⟨⟩)
  refine h.move thread (fun other hother call id hwaiting => ?_) fun call id hwaiting => ?_
  · rw [goTo_phase, Function.update_of_ne hother] at hwaiting
    refine ⟨hwaiting, fun hs => hs, fun hs token' htoken hstopped => ?_⟩
    by_cases hsame : token' = token
    · have hfits := hregisters.fits other
      rw [show s.phase other = .waiting call id from hwaiting] at hfits
      subst hsame
      cases id with
      | none =>
          obtain ⟨hnone, -⟩ | ⟨stopped, hstopped', hflag, -⟩ := hfits
          · cases hnone.symm.trans htoken
          · cases hstopped'.symm.trans htoken
            exact absurd hflag hstop
      | some n =>
          obtain ⟨registered, hregistered, hmem, -⟩ := hfits
          cases hregistered.symm.trans htoken
          refine ⟨n, rfl, ?_⟩
          rw [goTo_token, setToken_self]
          exact hmem
    · rw [goTo_token, setToken_of_ne s _ hsame] at hstopped ⊢
      exact hs token' htoken hstopped
  · rw [goTo_phase, Function.update_self] at hwaiting
    cases hwaiting

end

end

section

variable [DecidableEq π]

theorem notified_eq_waiting {phase : Phase τ π} {pipe : π} {readers : Bool}
    {call : PipeCall τ π} {id : Option Nat} :
    phase.notified pipe readers = .waiting call id ↔
      phase = .waiting call id ∧ ¬ (call.pipe = pipe ∧ call.op.isRead = readers) := by
  cases phase with
  | waiting call' id' =>
      rw [Phase.notified]
      split_ifs with hwoken
      · constructor
        · rintro ⟨⟩
        · rintro ⟨⟨⟩, hnot⟩
          exact absurd hwoken hnot
      · refine ⟨?_, And.left⟩
        rintro ⟨⟩
        exact ⟨rfl, hwoken⟩
  | _ =>
      constructor
      · rintro ⟨⟩
      · rintro ⟨⟨⟩, -⟩

theorem Waits.notify {s : Pipes ι τ π} (h : s.Waits) (pipe : π) (readers : Bool) :
    (s.notify pipe readers).Waits := by
  intro thread call id hwaiting
  have hrightly := h thread call id (notified_eq_waiting.mp hwaiting).1
  exact ⟨hrightly.blocks, hrightly.stopAhead⟩

variable [DecidableEq ι]

theorem Waits.lockPipe {s t : Pipes ι τ π} (h : s.Waits) {thread : ι} {pipe : π}
    {phase : Phase τ π} (hstep : s.lockPipe thread pipe phase = some t)
    (hthread : ∀ call id, phase ≠ .waiting call id) : t.Waits := by
  rw [Pipes.lockPipe] at hstep
  split_ifs at hstep
  cases hstep
  exact h.goTo rfl rfl (fun _ => rfl) (fun _ => rfl)
    fun call id hwaiting => absurd hwaiting (hthread call id)

theorem Waits.setPipe {s t : Pipes ι τ π} (h : s.Waits) {thread : ι} {phase : Phase τ π}
    {pipe : π} {value : PipeBuffer}
    (hphase : t.phase thread = phase)
    (hothers : ∀ other, other ≠ thread → ∀ call id, t.phase other = .waiting call id →
      s.phase other = .waiting call id ∧
        (call.pipe = pipe → Blocks (s.pipe pipe) call.op → Blocks value call.op))
    (hpipe : t.pipe = Function.update s.pipe pipe value) (htoken : t.token = s.token)
    (hthread : ∀ call id, phase ≠ .waiting call id) : t.Waits := by
  refine h.move thread (fun other hother call id hwaiting => ?_)
    fun call id hwaiting => absurd (hphase.symm.trans hwaiting) (hthread call id)
  obtain ⟨hbefore, hblocks⟩ := hothers other hother call id hwaiting
  refine ⟨hbefore, fun hs => ?_, fun hs => ?_⟩
  · rw [hpipe]
    by_cases hsame : call.pipe = pipe
    · rw [hsame, Function.update_self]
      rw [hsame] at hs
      exact hblocks hsame hs
    · rw [Function.update_of_ne hsame]
      exact hs
  · intro token
    rw [htoken]
    exact hs token

theorem Waits.passRead {s : Pipes ι τ π} (h : s.Waits) (thread : ι) (call : PipeCall τ π)
    (id : Option Nat) (count : Nat) (hop : call.op = .read count) :
    (s.passRead thread call id count).Waits := by
  rw [Pipes.passRead, PipeBuffer.readPass]
  split_ifs with hsize hopen hseen
  · -- bytes were there, so that nobody waits to read, and the writers are woken
    refine h.setPipe (Function.update_self ..) (fun other hother call' id' hwaiting => ?_) rfl rfl
      (by rintro _ _ ⟨⟩)
    rw [goTo_phase, Function.update_of_ne hother, notify_phase, notified_eq_waiting] at hwaiting
    refine ⟨hwaiting.1, fun hsame hs => ?_⟩
    cases hcall : call'.op with
    | read count' =>
        rw [hcall] at hs
        exact absurd hs.1 hsize.ne'
    | write buf written => exact absurd ⟨hsame, by rw [hcall]; rfl⟩ hwaiting.2
  · exact h.setPipe (Function.update_self ..)
      (fun other hother _ _ hwaiting => ⟨(Function.update_of_ne hother ..).symm.trans hwaiting,
        fun _ hs => hs⟩) rfl rfl (by rintro _ _ ⟨⟩)
  · exact h.setPipe (Function.update_self ..)
      (fun other hother _ _ hwaiting => ⟨(Function.update_of_ne hother ..).symm.trans hwaiting,
        fun _ hs => hs⟩) rfl rfl (by rintro _ _ ⟨⟩)
  · refine h.goTo rfl rfl (fun _ => rfl) (fun _ => rfl) ?_
    rintro _ _ ⟨⟩
    refine ⟨?_, stopAhead_of_not_seen (Bool.eq_false_of_not_eq_true hseen)⟩
    rw [hop]
    exact ⟨Nat.eq_zero_of_not_pos hsize, by simpa using hopen⟩

theorem Waits.wrote {s : Pipes ι τ π} (h : s.Waits) {thread : ι} {pipe : π} (bytes : List UInt8)
    {t : Pipes ι τ π} {phase : Phase τ π} (hphase : t.phase thread = phase)
    (hothers : ∀ other, other ≠ thread → t.phase other = (s.phase other).notified pipe true)
    (hpipe : t.pipe = Function.update s.pipe pipe ((s.pipe pipe).copyIn bytes))
    (htoken : t.token = s.token) (hthread : ∀ call id, phase ≠ .waiting call id) : t.Waits := by
  refine h.setPipe hphase (fun other hother call id hwaiting => ?_) hpipe htoken hthread
  rw [hothers other hother, notified_eq_waiting] at hwaiting
  refine ⟨hwaiting.1, fun hsame hs => ?_⟩
  cases hcall : call.op with
  | read count => exact absurd ⟨hsame, by rw [hcall]; rfl⟩ hwaiting.2
  | write buf written =>
      rw [hcall] at hs
      have hroom : ((s.pipe pipe).copyIn bytes).room ≤ (s.pipe pipe).room :=
        Nat.sub_le_sub_left (Nat.le_add_right _ _) _
      exact ⟨hs.1, hroom.trans_lt hs.2⟩

theorem writePass_writes (value : PipeBuffer) (buf : List UInt8) (written : Nat) (stop : Bool) :
    (value.readEndOpen = true ∧ value.need buf.length ≤ value.room ∧
      ∃ bytes, (∃ n result, value.writePass buf written stop =
          (.returned n result, value.copyIn bytes)) ∨
        ∃ n, value.writePass buf written stop = (.continued n, value.copyIn bytes)) ∨
    (value.readEndOpen && decide (value.need buf.length ≤ value.room)) = false ∧
      ((∃ n result, value.writePass buf written stop = (.returned n result, value)) ∨
        value.writePass buf written stop = (.waits, value) ∧ Blocks value (.write buf written) ∧
          stop = false) := by
  rw [PipeBuffer.writePass]
  by_cases hopen : value.readEndOpen = true
  · rw [hopen, Bool.not_true, if_neg Bool.false_ne_true]
    by_cases hroom : value.need buf.length ≤ value.room
    · rw [if_pos hroom]
      refine .inl ⟨rfl, hroom, (buf.drop written).take (min value.room (buf.length - written)), ?_⟩
      dsimp only
      split_ifs
      · exact .inl ⟨_, _, rfl⟩
      · exact .inr ⟨_, rfl⟩
    · rw [if_neg hroom]
      refine .inr ⟨by simp [hroom], ?_⟩
      cases stop
      · exact .inr ⟨rfl, ⟨hopen, Nat.lt_of_not_le hroom⟩, rfl⟩
      · exact .inl ⟨_, _, rfl⟩
  · rw [Bool.eq_false_of_not_eq_true hopen, Bool.not_false, if_pos rfl]
    exact .inr ⟨rfl, .inl ⟨_, _, rfl⟩⟩

theorem Waits.passWrite {s : Pipes ι τ π} (h : s.Waits) (thread : ι) (call : PipeCall τ π)
    (id : Option Nat) (buf : List UInt8) (written : Nat) (hop : call.op = .write buf written) :
    (s.passWrite thread call id buf written).Waits := by
  rw [Pipes.passWrite]
  rcases writePass_writes (s.pipe call.pipe) buf written (s.stopSeen call.token) with
    ⟨hopen, hroom, bytes, ⟨n, result, hpass⟩ | ⟨n, hpass⟩⟩ |
    ⟨hnot, ⟨n, result, hpass⟩ | ⟨hpass, hblocks, hseen⟩⟩
  · simp only [hpass, hopen, hroom, decide_true, Bool.and_true, if_true]
    refine h.wrote bytes (Function.update_self ..) (fun other hother => ?_) rfl rfl
      (by rintro _ _ ⟨⟩)
    rw [goTo_phase, Function.update_of_ne hother]
    rfl
  · simp only [hpass]
    refine h.wrote bytes (Function.update_self ..) (fun other hother => ?_) rfl rfl
      (by rintro _ _ ⟨⟩)
    rw [goTo_phase, Function.update_of_ne hother]
    rfl
  · simp only [hpass, hnot, Bool.false_eq_true, if_false]
    exact h.setPipe (Function.update_self ..)
      (fun other hother _ _ hwaiting => ⟨(Function.update_of_ne hother ..).symm.trans hwaiting,
        fun _ hs => hs⟩) rfl rfl (by rintro _ _ ⟨⟩)
  · simp only [hpass]
    refine h.goTo rfl rfl (fun _ => rfl) (fun _ => rfl) ?_
    rintro _ _ ⟨⟩
    refine ⟨?_, stopAhead_of_not_seen hseen⟩
    rw [hop]
    exact hblocks

theorem Waits.closeEnd {s : Pipes ι τ π} (h : s.Waits) (thread : ι) (pipe : π)
    (readEnd : Bool) : (s.closeEnd thread pipe readEnd).Waits := by
  refine h.setPipe (Function.update_self ..) (fun other hother call id hwaiting => ?_) rfl rfl nofun
  rw [Pipes.closeEnd, goTo_phase, Function.update_of_ne hother, notify_phase,
    notified_eq_waiting] at hwaiting
  refine ⟨hwaiting.1, fun hsame hs => ?_⟩
  -- those who wait for the other end are woken, and the others do not look at this one
  cases hcall : call.op <;> rw [hcall] at hs <;> cases readEnd
  · exact absurd ⟨hsame, by rw [hcall]; rfl⟩ hwaiting.2
  · exact ⟨rfl, hs.2⟩
  · exact ⟨hs.1, hs.2⟩
  · exact absurd ⟨hsame, by rw [hcall]; rfl⟩ hwaiting.2

variable [DecidableEq τ]

theorem Waits.runCallback {s : Pipes ι τ π} (h : s.Waits) {thread : ι} {token : τ}
    {callback : Registered π} {rest : List (Registered π)}
    (hrun : (s.token token).toRun = callback :: rest) :
    (s.runCallback thread token callback).Waits := by
  refine h.move thread (fun other hother call id hwaiting => ?_) fun call id hwaiting => ?_
  · rw [Pipes.runCallback, goTo_phase, Function.update_of_ne hother] at hwaiting
    obtain ⟨hwaiting, hreaders⟩ := notified_eq_waiting.mp hwaiting
    obtain ⟨hwaiting, hwriters⟩ := notified_eq_waiting.mp hwaiting
    have hpipe : call.pipe ≠ callback.pipe := by
      intro hsame
      cases hop : call.op.isRead
      · exact hreaders ⟨hsame, hop⟩
      · exact hwriters ⟨hsame, hop⟩
    refine ⟨hwaiting, fun hs => hs, fun hs token' htoken hstopped => ?_⟩
    rw [Pipes.runCallback, goTo_token, setPipeMutex_token] at hstopped ⊢
    by_cases hsame : token' = token
    · subst hsame
      rw [setToken_self] at hstopped ⊢
      obtain ⟨n, hid, hmem⟩ := hs token' htoken hstopped
      refine ⟨n, hid, ?_⟩
      rw [hrun] at hmem
      change _ ∈ (s.token token').toRun.tail
      rw [hrun]
      rcases List.mem_cons.mp hmem with heq | hmem
      · exact absurd (congrArg Registered.pipe heq) hpipe
      · exact hmem
    · rw [setToken_of_ne _ _ hsame] at hstopped ⊢
      exact hs token' htoken hstopped
  · rw [Pipes.runCallback, goTo_phase, Function.update_self] at hwaiting
    cases hwaiting

theorem Waits.next {s t : Pipes ι τ π} (h : s.Waits) (hregisters : s.Registers) {thread : ι}
    (hstep : s.next thread = some t) : t.Waits := by
  have hgoTo (u : Pipes ι τ π) (hu : u.Waits) (phase : Phase τ π)
      (hphase : ∀ call id, phase ≠ .waiting call id) : (u.goTo thread phase).Waits :=
    hu.goTo rfl rfl (fun _ => rfl) (fun _ => rfl)
      fun call id hwaiting => absurd hwaiting (hphase call id)
  rw [Pipes.next.eq_def] at hstep
  split at hstep
  case h_1 => cases hstep
  case h_2 => cases hstep
  case h_3 call hphase =>
    split at hstep
    · exact h.lockToken hstep (by rintro _ _ ⟨⟩)
    · cases hstep
      exact hgoTo s h _ (by rintro _ _ ⟨⟩)
  case h_4 call hphase =>
    split at hstep <;> cases hstep
    rw [Pipes.construct]
    split_ifs <;> exact h.setToken rfl rfl (by rintro _ _ ⟨⟩)
  case h_5 call hphase => exact h.lockPipe hstep (by rintro _ _ ⟨⟩)
  case h_6 call hphase =>
    cases hstep
    refine ((h.notify call.pipe true).notify call.pipe false).goTo rfl rfl (fun _ => rfl)
      (fun _ => rfl) ?_
    rintro _ _ ⟨⟩
  case h_7 call id hphase => exact h.lockPipe hstep (by rintro _ _ ⟨⟩)
  case h_8 call id hphase =>
    split at hstep <;> cases hstep
    case h_1 count hop => exact h.passRead thread call id count hop
    case h_2 buf written hop => exact h.passWrite thread call id buf written hop
  case h_9 call id hphase =>
    split at hstep
    · exact h.lockToken hstep (by rintro _ _ ⟨⟩)
    · cases hstep
      exact hgoTo s h _ (by rintro _ _ ⟨⟩)
  case h_10 call token id hphase =>
    cases hstep
    exact h.setToken rfl rfl (by rintro _ _ ⟨⟩)
  case h_11 token hphase => exact h.lockToken hstep (by rintro _ _ ⟨⟩)
  case h_12 token hphase =>
    cases hstep
    exact h.request hregisters thread token
  case h_13 token hphase =>
    cases hstep
    rw [Pipes.runNext]
    split
    · exact h.setToken rfl rfl (by rintro _ _ ⟨⟩)
    · exact hgoTo s h _ (by rintro _ _ ⟨⟩)
  case h_14 token callback hphase => exact h.lockPipe hstep (by rintro _ _ ⟨⟩)
  case h_15 token callback hphase =>
    cases hstep
    have hfits := hregisters.fits thread
    rw [hphase] at hfits
    obtain ⟨-, rest, hrun⟩ := hfits
    exact h.runCallback hrun
  case h_16 pipe readEnd hphase => exact h.lockPipe hstep (by rintro _ _ ⟨⟩)
  case h_17 pipe readEnd hphase =>
    cases hstep
    exact h.closeEnd thread pipe readEnd

theorem Waits.step {s t : Pipes ι τ π} (h : s.Waits) (hregisters : s.Registers)
    {action : StopAction ι τ π} (hstep : step action s = some t) : t.Waits := by
  have hgoTo (thread : ι) (phase : Phase τ π) (hphase : ∀ call id, phase ≠ .waiting call id) :
      (s.goTo thread phase).Waits :=
    h.goTo rfl rfl (fun _ => rfl) (fun _ => rfl)
      fun call id hwaiting => absurd hwaiting (hphase call id)
  rcases step_cases hstep with ⟨thread, hnext⟩ | rfl | ⟨thread, pipe, token, op, hidle, rfl⟩ |
    ⟨thread, token, hidle, rfl⟩ | ⟨thread, pipe, readEnd, hidle, rfl⟩ |
    ⟨thread, call, id, hwaiting, rfl⟩
  · exact h.next hregisters hnext
  · exact h
  · exact hgoTo thread _ nofun
  · exact hgoTo thread _ nofun
  · exact hgoTo thread _ nofun
  · exact hgoTo thread _ nofun

end

/-! ## What holds in every state reached -/

def start (capacity : π → Nat) : Pipes ι τ π := { pipe := fun pipe => .create (capacity pipe) }

structure Sound (s : Pipes ι τ π) : Prop where
  owned : s.Owned
  registers : s.Registers
  waits : s.Waits

theorem sound_start (capacity : π → Nat) : (start (ι := ι) (τ := τ) capacity).Sound where
  owned := ⟨fun _ _ => ⟨nofun, nofun⟩, fun _ _ => ⟨nofun, nofun⟩⟩
  registers := ⟨fun _ => Token.Sound.initial, fun _ => trivial, nofun, fun _ h => absurd rfl h, rfl⟩
  waits := nofun

structure NoLostWakeUp (s : Pipes ι τ π) : Prop where
  blocks : ∀ thread call id, s.phase thread = .waiting call id →
    Blocks (s.pipe call.pipe) call.op
  token : ∀ thread call id token, s.phase thread = .waiting call id → call.token = some token →
    (s.token token).completed = false

/-- A call that is past the constructor of its `StopCallback`, with what was registered. -/
def InCall (s : Pipes ι τ π) (thread : ι) (call : PipeCall τ π) (id : Option Nat) : Prop :=
  s.phase thread = .locking call id ∨ s.phase thread = .passing call id ∨
    s.phase thread = .waiting call id ∨ s.phase thread = .destroying call id

/-- What is registered with a token is run when it is to be, and no more than once. -/
structure RunOnce (s : Pipes ι τ π) : Prop where
  atMostOnce : ∀ token id, (s.token token).ran id ≤ 1
  notErased : s.ranErased = false
  /-- What was alive at the first stop request is run before the request returns, and
  before it is destroyed. -/
  alive : ∀ token id, (s.token token).due id = true →
    (s.token token).completed = true ∨ (s.token token).erased id = true →
    (s.token token).ran id = 1
  due : ∀ token callback, callback ∈ (s.token token).callbacks →
    (s.token token).stopRequested = true → (s.token token).due callback.id = true
  /-- A constructor that comes after the stop runs the callback itself, and no other does. -/
  own : ∀ thread call id, s.InCall thread call id →
    call.ran = if id = none ∧ call.token.isSome then 1 else 0

theorem Waits.noLostWakeUp {s : Pipes ι τ π} (h : s.Waits) (hregisters : s.Registers) :
    s.NoLostWakeUp where
  blocks thread call id hwaiting := (h thread call id hwaiting).blocks
  token thread call id token hwaiting htoken := by
    refine Bool.eq_false_of_not_eq_true fun hcompleted => ?_
    obtain ⟨hstopped, hnil⟩ := (hregisters.tokens token).completed hcompleted
    obtain ⟨n, -, hmem⟩ := (h thread call id hwaiting).stopAhead token htoken hstopped
    rw [hnil] at hmem
    cases hmem

theorem Registers.runOnce {s : Pipes ι τ π} (h : s.Registers) : s.RunOnce where
  atMostOnce token id := by
    rw [(h.tokens token).ran id]
    split_ifs
    · exact le_rfl
    · exact Nat.zero_le 1
  notErased := h.ranErased
  alive token id hdue hover := by
    rw [(h.tokens token).ran id, if_pos ⟨hdue, (h.tokens token).not_toRun hover⟩]
  due token callback hmem hstop := (h.tokens token).due hstop callback hmem
  own thread call id hcall := by
    have hconstructed : s.Constructed call id := by
      have hfits := h.fits thread
      rcases hcall with hphase | hphase | hphase | hphase <;>
      · rw [hphase] at hfits
        exact hfits
    cases id with
    | none =>
        obtain ⟨hnone, hran⟩ | ⟨token, htoken, -, hran⟩ := hconstructed
        · rw [hran, hnone]
          rfl
        · rw [hran, htoken]
          rfl
    | some n =>
        obtain ⟨token, htoken, -, hran⟩ := hconstructed
        rw [hran, if_neg (fun hand => nomatch hand.1)]

structure Woken (s : Pipes ι τ π) : Prop where
  noLostWakeUp : s.NoLostWakeUp
  runOnce : s.RunOnce
  noCircle : ∀ thread, ¬ Relation.TransGen s.WaitsFor thread thread

theorem Sound.woken {s : Pipes ι τ π} (h : s.Sound) : s.Woken :=
  ⟨h.waits.noLostWakeUp h.registers, h.registers.runOnce, h.owned.no_circle⟩

variable [DecidableEq ι] [DecidableEq τ] [DecidableEq π]

theorem Sound.step {s t : Pipes ι τ π} (h : s.Sound) {action : StopAction ι τ π}
    (hstep : step action s = some t) : t.Sound :=
  ⟨h.owned.step hstep, h.registers.step h.owned hstep, h.waits.step h.registers hstep⟩

/--
In every state that is reached, whoever is in a wait set would block and has no token whose
stop request has returned, every callback is run once at most, once where it was alive at the
stop, and never after its destruction, and no threads wait for mutexes in a circle.
-/
theorem run_woken (capacity : π → Nat) {actions : List (StopAction ι τ π)} {s : Pipes ι τ π}
    (hrun : Transition.run step actions (start capacity) = some s) : s.Woken :=
  (Transition.run_preserves (P := Sound) (fun _ _ _ hstep h => h.step hstep) hrun
    (sound_start capacity)).woken

def interruptedRead : List (StopAction Bool Unit Unit) :=
  [.read false () (some ()) 1, .next false, .next false, .next false, .next false,
    .requestStop true (), .next true, .next true, .next true, .next true, .next true, .next true,
    .next false, .next false, .next false, .next false]

theorem run_woken_interruptedRead :
    ∃ s, Transition.run step interruptedRead (start fun _ => 1) = some s ∧
      (s.token ()).ran 0 = 1 ∧ (s.token ()).completed = true ∧ s.Woken :=
  ⟨_, rfl, rfl, rfl, run_woken (fun _ => 1)
    (show Transition.run step interruptedRead (start fun _ => 1) = some _ from rfl)⟩

end Pipes

end Haisos.PipeService
