import Haisos.Hsh.Pipeline.Passes

/-!
# Between the steps of the passes

Which pipes are bounded, whose ends the shell still holds, and which stages have begun,
after any run of the three passes.
-/

namespace Haisos.Hsh.Passes

open PipeService

variable {σ : Type} {stages : Stages σ} {state state' : State σ}

/-! ## The pipes -/

namespace StageBuffer

@[simp]
theorem capacity_read (buffer : StageBuffer) (count : Nat) :
    (buffer.read count).2.capacity = buffer.capacity := by
  cases buffer with
  | bounded buffer =>
      rw [read]
      split_ifs
      · rfl
      · simp only [PipeBuffer.readPass]
        split_ifs <;> rfl
  | unbounded buffer =>
      rw [read]
      split_ifs <;> rfl

@[simp]
theorem capacity_write (buffer : StageBuffer) (buf : List UInt8) (written : Nat) :
    (buffer.write buf written).2.capacity = buffer.capacity := by
  cases buffer with
  | bounded buffer =>
      rw [write]
      split_ifs
      · rfl
      · simp only [PipeBuffer.writePass]
        split_ifs <;> rfl
  | unbounded buffer =>
      rw [write]
      split_ifs <;> rfl

@[simp]
theorem capacity_closeUnheld (buffer : StageBuffer) (readHeld writeHeld : Bool) :
    (buffer.closeUnheld readHeld writeHeld).capacity = buffer.capacity := by
  cases buffer <;> cases readHeld <;> cases writeHeld <;> rfl

theorem readEndOpen_closeUnheld (buffer : StageBuffer) (writeHeld : Bool) :
    (buffer.closeUnheld false writeHeld).readEndOpen = false := by
  cases buffer <;> cases writeHeld <;> rfl

theorem writeEndOpen_closeUnheld (buffer : StageBuffer) (readHeld : Bool) :
    (buffer.closeUnheld readHeld false).writeEndOpen = false := by
  cases buffer <;> cases readHeld <;> rfl

end StageBuffer

/-! ## Actions -/

theorem capacity_perform {child : Bool} {stage : Nat} {answer : Answer} {pipes : Nat → StageBuffer}
    {process : Process σ} {performed : Performed σ}
    (h : perform stages child stage answer pipes process = some performed) (pipe : Nat) :
    (performed.pipes pipe).capacity = (pipes pipe).capacity := by
  have hupdate {changed : Nat} {buffer : StageBuffer}
      (hbuffer : buffer.capacity = (pipes changed).capacity) :
      (Function.update pipes changed buffer pipe).capacity = (pipes pipe).capacity := by
    rw [Function.update_apply]
    split_ifs with heq
    · rw [hbuffer, heq]
    · rfl
  rw [perform] at h
  cases hact : stages.act process.state with
  | read count next =>
      simp only [hact] at h
      split_ifs at h with hreads
      · cases stage with
        | zero =>
            cases h
            rfl
        | succ left =>
            have hread := (pipes left).capacity_read count
            rcases hpass : (pipes left).read count with ⟨_ | _, buffer⟩ <;>
              simp only [hpass, reduceCtorEq] at h hread
            cases h
            exact hupdate hread
      · cases h
        rfl
  | write buf next =>
      simp only [hact] at h
      split_ifs at h with hwrites hinside
      · have hwrite := (pipes stage).capacity_write buf process.written
        rcases hpass : (pipes stage).write buf process.written with ⟨_ | _ | _, buffer⟩ <;>
          simp only [hpass, reduceCtorEq] at h hwrite <;> cases h <;> exact hupdate hwrite
      · cases h
        rfl
      · cases h
        rfl
  | _ =>
      simp only [hact] at h
      cases h
      rfl

section

variable {child : Bool} {stage : Nat} {answer : Answer} {pipes : Nat → StageBuffer}
  {process : Process σ}

end

/-! ## The phases -/

namespace Phase

/-- The stages that were started or run, whose ends the shell has released. -/
def Past (stages : Stages σ) : Phase σ → Nat → Prop
  | .before true stage, other | .inStage true stage _, other =>
      stages.childStage other = true ∧ other < stage
  | .before false stage, other | .inStage false stage _, other =>
      stages.childStage other = true ∨ other < stage
  | .waiting _, other | .done, other => other < stages.count

/-- The shell is at a stage of the pipeline, and in the pass of its kind. -/
def Fits (stages : Stages σ) : Phase σ → Prop
  | .before _ stage | .waiting stage => stage ≤ stages.count
  | .inStage child stage _ => stage < stages.count ∧ stages.childStage stage = child
  | .done => True

/-- The stage that the shell is starting or running. -/
def current : Phase σ → Option Nat
  | .inStage _ stage _ => some stage
  | _ => none

end Phase

theorem lt_count_of_childStage {stage : Nat} (h : stages.childStage stage = true) :
    stage < stages.count := by
  rw [Stages.childStage] at h
  by_contra hge
  rw [List.getElem?_eq_none (Nat.le_of_not_lt hge)] at h
  cases h

namespace Phase

theorem past_passTwo (other : Nat) :
    (before false 0 : Phase σ).Past stages other ↔
      (before true stages.count : Phase σ).Past stages other := by
  simp only [Past, Nat.not_lt_zero, or_false]
  exact ⟨fun h => ⟨h, lt_count_of_childStage h⟩, And.left⟩

theorem past_passThree (other : Nat) :
    (waiting 0 : Phase σ).Past stages other ↔
      (before false stages.count : Phase σ).Past stages other :=
  ⟨Or.inr, fun h => h.elim lt_count_of_childStage id⟩

theorem past_skipped {child : Bool} {stage : Nat} (h : stages.childStage stage ≠ child)
    (other : Nat) :
    (before child (stage + 1) : Phase σ).Past stages other ↔
      (before child stage : Phase σ).Past stages other := by
  cases child with
  | true =>
      refine ⟨fun hpast => ⟨hpast.1, ?_⟩, fun hpast => ⟨hpast.1, Nat.lt_succ_of_lt hpast.2⟩⟩
      rcases Nat.lt_succ_iff_lt_or_eq.mp hpast.2 with hlt | rfl
      · exact hlt
      · exact absurd hpast.1 h
  | false =>
      refine ⟨fun hpast => ?_, fun hpast => hpast.imp_right Nat.lt_succ_of_lt⟩
      rcases hpast with hchild | hlt
      · exact .inl hchild
      · rcases Nat.lt_succ_iff_lt_or_eq.mp hlt with hlt | rfl
        · exact .inr hlt
        · exact .inl (by simpa using h)

theorem past_over {child : Bool} {stage : Nat} (h : stages.childStage stage = child)
    (other : Nat) :
    (before child (stage + 1) : Phase σ).Past stages other ↔
      (before child stage : Phase σ).Past stages other ∨ other = stage := by
  cases child with
  | true =>
      simp only [Past, Nat.lt_succ_iff_lt_or_eq, and_or_left]
      apply or_congr_right
      exact ⟨And.right, fun heq => ⟨heq ▸ h, heq⟩⟩
  | false => simp only [Past, Nat.lt_succ_iff_lt_or_eq, or_assoc]

end Phase

/-- What holds between the steps. -/
structure Ordered (stages : Stages σ) (state : State σ) : Prop where
  capacity : ∀ pipe, (state.pipes pipe).capacity =
    if stages.unbounded pipe then none else some stages.capacity
  fits : state.phase.Fits stages
  readEnds : ∀ pipe, state.readEnds pipe = true → ¬ state.phase.Past stages (pipe + 1)
  writeEnds : ∀ pipe, state.writeEnds pipe = true → ¬ state.phase.Past stages pipe
  begun : ∀ stage, state.processes stage ≠ [] →
    state.phase.Past stages stage ∨ state.phase.current = some stage

namespace Ordered

/-- A step of the shell from one stage to another. -/
theorem move {phase : Phase σ} (h : Ordered stages state)
    (hfits : phase.Fits stages)
    (hcurrent : state.phase.current = none)
    (hpast : ∀ stage, phase.Past stages stage ↔ state.phase.Past stages stage) :
    Ordered stages { state with phase } where
  capacity := h.capacity
  fits := hfits
  readEnds pipe hend := by
    rw [hpast]
    exact h.readEnds pipe hend
  writeEnds pipe hend := by
    rw [hpast]
    exact h.writeEnds pipe hend
  begun stage hne := by
    rw [hpast]
    rcases h.begun stage hne with hstage | hstage
    · exact .inl hstage
    · rw [hcurrent] at hstage
      cases hstage

theorem before {child : Bool} {stage : Nat} (h : Ordered stages state)
    (hphase : state.phase = .before child stage) {answer : Answer}
    (hstep : shellStep stages answer state = some state') : Ordered stages state' := by
  have hcurrent : state.phase.current = none := by
    rw [hphase]
    rfl
  have hfits := h.fits
  rw [hphase, Phase.Fits] at hfits
  simp only [shellStep, hphase] at hstep
  split_ifs at hstep with hend hchild hkind <;> cases hstep
  · apply h.move (Nat.zero_le _) hcurrent
    intro other
    rw [hphase, hend, hchild]
    exact Phase.past_passTwo other
  · apply h.move (Nat.zero_le _) hcurrent
    intro other
    rw [hphase, hend, Bool.eq_false_iff.mpr hchild]
    exact Phase.past_passThree other
  · refine h.move ?_ hcurrent ?_
    · exact ⟨Nat.lt_of_le_of_ne hfits hend, hkind⟩
    · intro other
      rw [hphase]
      cases child <;> rfl
  · refine h.move ?_ hcurrent ?_
    · exact Nat.lt_of_le_of_ne hfits hend
    · intro other
      rw [hphase]
      exact Phase.past_skipped hkind other

theorem waiting {stage : Nat} (h : Ordered stages state) (hphase : state.phase = .waiting stage)
    {answer : Answer} (hstep : shellStep stages answer state = some state') :
    Ordered stages state' := by
  have hcurrent : state.phase.current = none := by
    rw [hphase]
    rfl
  have hfits := h.fits
  rw [hphase, Phase.Fits] at hfits
  simp only [shellStep, hphase] at hstep
  split_ifs at hstep with hend hmain <;> cases hstep
  · refine h.move ?_ hcurrent ?_
    · trivial
    · intro other
      rw [hphase]
      rfl
  · refine h.move ?_ hcurrent ?_
    · exact Nat.lt_of_le_of_ne hfits hend
    · intro other
      rw [hphase]
      rfl

/-- The programs of a stage that is begun, and the pipes, are changed. -/
theorem perform {child : Bool} {stage : Nat} (h : Ordered stages state) {phase : Phase σ}
    {answer : Answer} {process : Process σ} {performed : Performed σ}
    (hperform : Passes.perform stages child stage answer state.pipes process = some performed)
    (hfits : phase.Fits stages)
    (hcurrent : phase.current = state.phase.current)
    (hpast : ∀ stage, phase.Past stages stage ↔ state.phase.Past stages stage)
    (hstage : state.phase.Past stages stage ∨ state.phase.current = some stage)
    (processes : List (Process σ)) :
    Ordered stages
      ({ state with phase, pipes := performed.pipes }.setProcesses stage processes) where
  capacity pipe := by
    rw [← h.capacity pipe]
    exact capacity_perform hperform pipe
  fits := hfits
  readEnds pipe hend := by
    simp only [State.setProcesses]
    rw [hpast]
    exact h.readEnds pipe hend
  writeEnds pipe hend := by
    simp only [State.setProcesses]
    rw [hpast]
    exact h.writeEnds pipe hend
  begun other hne := by
    simp only [State.setProcesses] at hne ⊢
    rw [hpast, hcurrent]
    rw [Function.update_apply] at hne
    split_ifs at hne with heq
    · exact heq ▸ hstage
    · exact h.begun other hne

theorem inStage {child : Bool} {stage : Nat} {process : Process σ} (h : Ordered stages state)
    (hphase : state.phase = .inStage child stage process) :
    stage < stages.count ∧ stages.childStage stage = child := by
  have hfits := h.fits
  rw [hphase] at hfits
  exact hfits

theorem exit {child : Bool} {stage : Nat} {process : Process σ} (h : Ordered stages state)
    (hphase : state.phase = .inStage child stage process) :
    Ordered stages ({ state with phase := .before child (stage + 1) }.releaseFor stage) where
  capacity := h.capacity
  fits := (h.inStage hphase).1
  readEnds pipe hend := by
    simp only [State.releaseFor, Bool.and_eq_true, decide_eq_true_eq] at hend ⊢
    rw [Phase.past_over (h.inStage hphase).2]
    rintro (hpast | heq)
    · apply h.readEnds pipe hend.1
      rw [hphase]
      cases child <;> exact hpast
    · exact hend.2 heq
  writeEnds pipe hend := by
    simp only [State.releaseFor, Bool.and_eq_true, decide_eq_true_eq] at hend ⊢
    rw [Phase.past_over (h.inStage hphase).2]
    rintro (hpast | heq)
    · apply h.writeEnds pipe hend.1
      rw [hphase]
      cases child <;> exact hpast
    · exact hend.2 heq
  begun other hne := by
    left
    simp only [State.releaseFor] at hne ⊢
    rw [Phase.past_over (h.inStage hphase).2]
    rcases h.begun other hne with hpast | hcurrent
    · left
      rw [hphase] at hpast
      cases child <;> exact hpast
    · right
      rw [hphase] at hcurrent
      exact (Option.some.inj hcurrent).symm

end Ordered

/-! ## The steps -/

theorem shellStep_inStage {child : Bool} {stage : Nat} {process : Process σ}
    (hphase : state.phase = .inStage child stage process) {answer : Answer}
    (hstep : shellStep stages answer state = some state') :
    state' = { state with phase := .before child (stage + 1) }.releaseFor stage ∨
    ∃ performed processes,
      perform stages child stage answer state.pipes process = some performed ∧
      state' = { state with
        phase := .inStage child stage performed.process
        pipes := performed.pipes }.setProcesses stage processes := by
  simp only [shellStep, hphase] at hstep
  cases hact : stages.act process.state with
  | exit =>
      simp only [hact] at hstep
      exact .inl (Option.some.inj hstep).symm
  | _ =>
      simp only [hact] at hstep
      obtain ⟨performed, hperform, rfl⟩ := Option.map_eq_some_iff.mp hstep
      exact .inr ⟨performed, _, hperform, rfl⟩

theorem processStep_cases {stage index : Nat} {answer : Answer}
    (hstep : processStep stages stage index answer state = some state') :
    state.processes stage ≠ [] ∧
      ∃ process performed processes,
        perform stages false stage answer state.pipes process = some performed ∧
        state' = { state with pipes := performed.pipes }.setProcesses stage processes := by
  rw [processStep] at hstep
  cases hprocess : (state.processes stage)[index]? with
  | none =>
      rw [hprocess] at hstep
      cases hstep
  | some process =>
      refine ⟨List.ne_nil_of_mem (List.mem_of_getElem? hprocess), process, ?_⟩
      simp only [hprocess] at hstep
      cases hact : stages.act process.state with
      | exit =>
          simp only [hact] at hstep
          exact ⟨{ pipes := state.pipes, process }, _, by simp [perform, hact],
            (Option.some.inj hstep).symm⟩
      | _ =>
          simp only [hact] at hstep
          obtain ⟨performed, hperform, rfl⟩ := Option.map_eq_some_iff.mp hstep
          exact ⟨performed, _, hperform, rfl⟩

theorem Ordered.shellStep {answer : Answer} (h : Ordered stages state)
    (hstep : Passes.shellStep stages answer state = some state') : Ordered stages state' := by
  cases hphase : state.phase with
  | before child stage => exact h.before hphase hstep
  | inStage child stage process =>
      rcases shellStep_inStage hphase hstep with rfl | ⟨performed, processes, hperform, rfl⟩
      · exact h.exit hphase
      · apply h.perform hperform
        · exact h.inStage hphase
        · rw [hphase]
          rfl
        · intro other
          rw [hphase]
          cases child <;> rfl
        · rw [hphase]
          exact .inr rfl
  | waiting stage => exact h.waiting hphase hstep
  | done =>
      rw [Passes.shellStep, hphase] at hstep
      cases hstep

theorem Ordered.processStep {stage index : Nat} {answer : Answer} (h : Ordered stages state)
    (hstep : Passes.processStep stages stage index answer state = some state') :
    Ordered stages state' := by
  obtain ⟨hne, process, performed, processes, hperform, rfl⟩ := processStep_cases hstep
  exact h.perform hperform h.fits rfl (fun _ => .rfl) (h.begun stage hne) processes

theorem Ordered.closeUnheld (h : Ordered stages state) : Ordered stages state.closeUnheld where
  capacity pipe := by
    rw [← h.capacity pipe]
    exact StageBuffer.capacity_closeUnheld _ _ _
  fits := h.fits
  readEnds := h.readEnds
  writeEnds := h.writeEnds
  begun := h.begun

/-- Between the steps an end that nobody holds is closed. -/
structure Reached (stages : Stages σ) (state : State σ) : Prop extends Ordered stages state where
  readClosed : ∀ pipe, pipe + 1 < stages.count → state.readHeld pipe = false →
    (state.pipes pipe).readEndOpen = false
  writeClosed : ∀ pipe, pipe + 1 < stages.count → state.writeHeld pipe = false →
    (state.pipes pipe).writeEndOpen = false

theorem Ordered.reached (h : Ordered stages state) : Reached stages state.closeUnheld where
  toOrdered := h.closeUnheld
  readClosed pipe _ hheld := by
    have hsame : state.readHeld pipe = false := hheld
    simp only [State.closeUnheld, hsame]
    exact StageBuffer.readEndOpen_closeUnheld _ _
  writeClosed pipe _ hheld := by
    have hsame : state.writeHeld pipe = false := hheld
    simp only [State.closeUnheld, hsame]
    exact StageBuffer.writeEndOpen_closeUnheld _ _

theorem Reached.step {move : Move} (h : Reached stages state)
    (hstep : step stages move state = some state') : Reached stages state' := by
  obtain ⟨next, hnext, rfl⟩ := Option.map_eq_some_iff.mp hstep
  cases move with
  | shell answer => exact (h.toOrdered.shellStep hnext).reached
  | process stage index answer => exact (h.toOrdered.processStep hnext).reached

end Haisos.Hsh.Passes
