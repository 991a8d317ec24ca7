import Haisos.Hsh.Pipeline.Ordered

/-!
# No pass waits for ever

A stage that waits at a pipe waits for a program next to it, that one for the next, and so
on to the first stage or the last: one of them can go on.
-/

namespace Haisos.Hsh.Passes

variable {σ : Type} {stages : Stages σ} {state : State σ}

/-! ## Somebody can go on -/

/-- A program of a stage comes to wait at a pipe. -/
def Waits (stages : Stages σ) (state : State σ) (stage : Nat) (process : Process σ) : Prop :=
  perform stages false stage {} state.pipes process = none

/-- A program of a stage can go on, or it waits for one next to it that gets on: for one that is to
write to the pipe, or for one that is to read from it. -/
inductive GetsOn (stages : Stages σ) (state : State σ) : Nat → Process σ → Prop where
  | ready {stage process} (hready : ¬ Waits stages state stage process) :
      GetsOn stages state stage process
  | input {left process writer} (hempty : (state.pipes left).size = 0)
      (hmem : writer ∈ state.processes left) (hwrites : writer.writes = true)
      (hwriter : GetsOn stages state left writer) : GetsOn stages state (left + 1) process
  | output {stage process reader} (hfull : 0 < (state.pipes stage).size)
      (hmem : reader ∈ state.processes (stage + 1)) (hreads : reader.reads = true)
      (hreader : GetsOn stages state (stage + 1) reader) : GetsOn stages state stage process

/-- What the shell runs, or what it waits for, gets on. -/
def ShellGetsOn (stages : Stages σ) (state : State σ) : Prop :=
  match state.phase with
  | .inStage _ stage process => GetsOn stages state stage process
  | .waiting stage => ∀ process ∈ state.processes stage, GetsOn stages state stage process
  | _ => True

def CanGoOn (stages : Stages σ) (state : State σ) : Prop :=
  ∃ move, (step stages move state).isSome

/-- Whether a program waits does not depend on what is outside, nor on who runs it. -/
theorem waits_iff {child : Bool} {stage : Nat} {answer : Answer} {process : Process σ} :
    perform stages child stage answer state.pipes process = none ↔
      Waits stages state stage process := by
  rw [Waits, perform, perform]
  cases stages.act process.state with
  | read count next =>
      dsimp only
      split_ifs
      · cases stage with
        | zero => simp
        | succ left =>
            dsimp only
            split <;> simp
      · simp
  | write buf next =>
      dsimp only
      split_ifs
      · split <;> simp
      · simp
      · simp
  | _ => simp

theorem GetsOn.canGoOn {stage : Nat} {process : Process σ}
    (h : GetsOn stages state stage process) (hmem : process ∈ state.processes stage) :
    CanGoOn stages state := by
  induction h with
  | @ready stage process hready =>
      obtain ⟨index, hindex⟩ := List.getElem?_of_mem hmem
      obtain ⟨performed, hperform⟩ := Option.ne_none_iff_exists'.mp hready
      refine ⟨.process stage index {}, ?_⟩
      rw [step, Option.isSome_map]
      simp only [processStep, hindex]
      cases stages.act process.state <;> simp [hperform]
  | input _ hwriter _ _ ih => exact ih hwriter
  | output _ hreader _ _ ih => exact ih hreader

theorem canGoOn_inStage {child : Bool} {stage : Nat} {process : Process σ}
    (hphase : state.phase = .inStage child stage process)
    (h : GetsOn stages state stage process) : CanGoOn stages state := by
  cases h with
  | ready hready =>
      obtain ⟨performed, hperform⟩ :=
        Option.ne_none_iff_exists'.mp (mt (@waits_iff _ _ _ child _ {} _).mp hready)
      refine ⟨.shell {}, ?_⟩
      rw [step, Option.isSome_map]
      simp only [shellStep, hphase]
      cases stages.act process.state <;> simp [hperform]
  | input _ hmem _ hwriter => exact hwriter.canGoOn hmem
  | output _ hmem _ hreader => exact hreader.canGoOn hmem

theorem ShellGetsOn.canGoOn (h : ShellGetsOn stages state) (hdone : state.phase ≠ .done) :
    CanGoOn stages state := by
  cases hphase : state.phase with
  | before child stage =>
      refine ⟨.shell {}, ?_⟩
      rw [step, Option.isSome_map]
      simp only [shellStep, hphase]
      split_ifs <;> rfl
  | inStage child stage process =>
      rw [ShellGetsOn, hphase] at h
      exact canGoOn_inStage hphase h
  | waiting stage =>
      rw [ShellGetsOn, hphase] at h
      cases hprograms : state.processes stage with
      | nil =>
          refine ⟨.shell {}, ?_⟩
          rw [step, Option.isSome_map]
          simp only [shellStep, hphase, hprograms]
          split_ifs with _ hmain
          · rfl
          · cases hmain
          · rfl
      | cons process rest =>
          have hmem : process ∈ state.processes stage := by
            rw [hprograms]
            exact List.mem_cons_self
          exact (h process hmem).canGoOn hmem
  | done => exact absurd hphase hdone

namespace Reached

theorem room (h : Reached stages state) (pipe capacity : Nat)
    (hcapacity : (state.pipes pipe).capacity = some capacity) : 0 < capacity := by
  rw [h.capacity pipe] at hcapacity
  split_ifs at hcapacity
  cases hcapacity
  exact stages.capacity_pos

theorem writer (h : Reached stages state) {pipe : Nat} (hpipe : pipe + 1 < stages.count)
    (hopen : (state.pipes pipe).writeEndOpen = true) (hpast : state.phase.Past stages pipe) :
    ∃ process ∈ state.processes pipe, process.writes = true := by
  have hheld : state.writeHeld pipe = true := by
    by_contra hnot
    rw [h.writeClosed pipe hpipe (Bool.eq_false_iff.mpr hnot)] at hopen
    cases hopen
  rw [State.writeHeld, Bool.or_eq_true] at hheld
  rcases hheld with hend | hprogram
  · exact absurd hpast (h.writeEnds pipe hend)
  · simpa using hprogram

theorem reader (h : Reached stages state) {pipe : Nat} (hpipe : pipe + 1 < stages.count)
    (hopen : (state.pipes pipe).readEndOpen = true)
    (hpast : state.phase.Past stages (pipe + 1)) :
    ∃ process ∈ state.processes (pipe + 1), process.reads = true := by
  have hheld : state.readHeld pipe = true := by
    by_contra hnot
    rw [h.readClosed pipe hpipe (Bool.eq_false_iff.mpr hnot)] at hopen
    cases hopen
  rw [State.readHeld, Bool.or_eq_true] at hheld
  rcases hheld with hend | hprogram
  · exact absurd hpast (h.readEnds pipe hend)
  · simpa using hprogram

end Reached

/-! ## The passes -/

namespace Reached

end Reached

/-- Programs: what a builtin says, `cat`, a here-document that is read by the shell itself. -/
inductive Relay where
  | say
  | start
  | copy
  | copied (bytes : List UInt8)
  | expand
  | over

def Relay.act : Relay → Action Relay
  | .say => .write [104, 105, 10] fun _ => .over
  | .start => .start .copy .over
  | .copy => .read 4096 fun result bytes => if result > 0 then .copied bytes else .over
  | .copied bytes => .write bytes fun _ => .copy
  | .expand => .read 4096 fun result _ => if result > 0 then .expand else .start
  | .over => .exit

end Haisos.Hsh.Passes
