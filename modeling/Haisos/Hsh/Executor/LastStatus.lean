import Haisos.Hsh.Executor.Contexts
import Haisos.Hsh.Executor.Status

/-!
# The shell's `$?` against the rules

The shell passes its statuses up and stores some of them.  While a part is run, what it
stores is what the trace comes to, and what it passes up is the status of the part.
-/

namespace Haisos.Hsh

open StateExcept

variable {τ : Type}

/-! ## What the trace has come to -/

/--
At least `count` command substitutions have run, and if every step so far settles, what was
expanded has found the status of what ran last, and `P` holds of what the trace comes to.
-/
def Reads (start : Int) (count : Nat) (P : StatusReading τ → Prop) (s : ExecState τ) : Prop :=
  count ≤ s.substitutionCount ∧
    (Settled start s.trace → FindsLast start s.trace ∧ P (readTrace start s.trace))

/-- The trace has come to the shell's `$?`, and to `status`. -/
def AtStatus (start : Int) (count : Nat) (parts : List (OpenPart τ)) (status : Int)
    (s : ExecState τ) : Prop :=
  Reads start count (fun reading =>
    ∃ continued, reading = { last := s.lastExitStatus, status, parts, continued }) s

/-- The trace has come to the shell's `$?`, and to what leads out as `failure` does. -/
def LeftBy (start : Int) (count : Nat) (parts : List (OpenPart τ)) (failure : Failure)
    (s : ExecState τ) : Prop :=
  Reads start count (fun reading => ∀ leaving, failure.leaving = some leaving →
    reading.last = s.lastExitStatus ∧ reading.parts = parts ∧
      reading.leaving.getD .error = leaving) s

section

variable {start : Int} {count : Nat} {s s' : ExecState τ} {P Q : StatusReading τ → Prop}

theorem Reads.mono (h : Reads start count P s) (htrace : s'.trace = s.trace)
    (hcount : s.substitutionCount ≤ s'.substitutionCount) (hPQ : ∀ reading, P reading → Q reading) :
    Reads start count Q s' := by
  refine ⟨h.1.trans hcount, fun hsettled => ?_⟩
  rw [htrace] at hsettled ⊢
  obtain ⟨hfinds, hread⟩ := h.2 hsettled
  exact ⟨hfinds, hPQ _ hread⟩

theorem Reads.log (h : Reads start count P s) {event : Event τ}
    (hstep : ∀ reading, P reading → reading.Settles event →
      reading.Finds event ∧ Q (reading.step event)) :
    Reads start count Q { s with trace := event :: s.trace } := by
  refine ⟨h.1, fun hsettled => ?_⟩
  obtain ⟨hfinds, hread⟩ := h.2 hsettled.2
  obtain ⟨hfound, hnext⟩ := hstep _ hread hsettled.1
  exact ⟨⟨hfound, hfinds⟩, hnext⟩

theorem Reads.weaken {count' : Nat} (h : Reads start count P s) (hle : count' ≤ count) :
    Reads start count' P s := ⟨hle.trans h.1, h.2⟩

end

/-! ### Steps that the trace does not tell of -/

/-- `P` looks at the trace, at `$?` and at a bound on the command substitutions. -/
def Steady (P : ExecState τ → Prop) : Prop :=
  ∀ s s', s'.trace = s.trace → s'.lastExitStatus = s.lastExitStatus →
    s.substitutionCount ≤ s'.substitutionCount → P s → P s'

theorem steady_atStatus {start : Int} {count : Nat} {parts : List (OpenPart τ)} {status : Int} :
    Steady (AtStatus start count parts status) := by
  intro s s' htrace hlast hcount h
  refine h.mono htrace hcount fun reading hreading => ?_
  rw [hlast]
  exact hreading

theorem steady_leftBy {start : Int} {count : Nat} {parts : List (OpenPart τ)} {failure : Failure} :
    Steady (LeftBy start count parts failure) := by
  intro s s' htrace hlast hcount h
  refine h.mono htrace hcount fun reading hreading => ?_
  rw [hlast]
  exact hreading

/-- What `f` changes, the trace does not tell of. -/
def Untold (f : ExecState τ → ExecState τ) : Prop :=
  ∀ s, (f s).trace = s.trace ∧ (f s).lastExitStatus = s.lastExitStatus ∧
    (f s).substitutionCount = s.substitutionCount

section

variable {α : Type} {P : ExecState τ → Prop} {Q : α → ExecState τ → Prop}
  {F : Failure → ExecState τ → Prop}

theorem Steady.modify (hP : Steady P) {f : ExecState τ → ExecState τ} (hf : Untold f) :
    Triple P (modify f : Exec τ Unit) (fun _ => P) F :=
  Triple.modify_intro fun s hs => hP s (f s) (hf s).1 (hf s).2.1 (hf s).2.2.ge hs

theorem Steady.consult (hP : Steady P) (outcome : Nat → α) :
    Triple P (consult outcome : Exec τ α) (fun _ => P) F :=
  Triple.modifyGet_intro fun s hs => hP s _ rfl rfl le_rfl hs

theorem triple_scoped {body : Exec τ α} {f : ExecState τ → ExecState τ} (hf : Untold f)
    (hQ : ∀ a, Steady (Q a)) (hF : ∀ failure, Steady (F failure)) (h : Triple P body Q F) :
    Triple P (tryCatch (do
      let a ← body
      modify f
      pure a) fun failure => do
        modify f
        throw failure) Q F := by
  refine Triple.tryCatch_intro F ?_ fun failure => ?_
  · refine Triple.bind_intro h fun a => ?_
    exact Triple.bind_intro ((hQ a).modify hf) fun _ => Triple.pure_intro fun _ h => h
  · exact Triple.bind_intro ((hF failure).modify hf) fun _ => Triple.throw_intro fun _ h => h

theorem triple_withStartInsteadOfWait {body : Exec τ α} {s : ExecState τ} (flag : Bool)
    (hQ : ∀ a, Steady (Q a)) (hF : ∀ failure, Steady (F failure))
    (h : Triple (· = { s with startInsteadOfWait := flag }) body Q F) :
    Triple (· = s) (withStartInsteadOfWait flag body) Q F := by
  refine Triple.at_bind (exec_get s) (Triple.at_bind (exec_modify _ s) ?_)
  exact triple_scoped (fun _ => ⟨rfl, rfl, rfl⟩) hQ hF h

end

theorem triple_inLoop {P : ExecState τ → Prop} {Q : Int → ExecState τ → Prop}
    {F : Failure → ExecState τ → Prop} {body : Exec τ Int} (hP : Steady P)
    (hQ : ∀ a, Steady (Q a)) (hF : ∀ failure, Steady (F failure)) (h : Triple P body Q F) :
    Triple P (inLoop body) Q F :=
  Triple.bind_intro (hP.modify fun _ => ⟨rfl, rfl, rfl⟩) fun _ =>
    triple_scoped (fun _ => ⟨rfl, rfl, rfl⟩) hQ hF h

/-! ### Notes -/

section

variable {start : Int} {count : Nat} {parts : List (OpenPart τ)} {status : Int}

theorem triple_told (told : Int) {F : Failure → ExecState τ → Prop} :
    Triple (AtStatus start count parts status) (log (.told told) : Exec τ Unit)
      (fun _ => AtStatus start count parts told) F :=
  Triple.modify_intro fun s hs => hs.log fun reading hreading _ => by
    obtain ⟨continued, rfl⟩ := hreading
    exact ⟨trivial, continued, rfl⟩

theorem triple_tell (told : Int) {F : Failure → ExecState τ → Prop} :
    Triple (AtStatus start count parts status) (tell told : Exec τ Int)
      (AtStatus start count parts) F :=
  Triple.bind_intro (triple_told told) fun _ => Triple.pure_intro fun _ h => h

theorem leftBy_of_atStatus {s : ExecState τ} {failure : Failure}
    (h : AtStatus start count parts status s)
    (hfailure : ∀ leaving, failure.leaving = some leaving → leaving = .error) :
    LeftBy start count parts failure s := by
  refine h.mono rfl le_rfl fun reading hreading leaving hleaving => ?_
  obtain ⟨continued, rfl⟩ := hreading
  exact ⟨rfl, rfl, (hfailure leaving hleaving).symm⟩

theorem triple_throw {α : Type} {failure : Failure} {Q : α → ExecState τ → Prop}
    (hfailure : ∀ leaving, failure.leaving = some leaving → leaving = .error) :
    Triple (AtStatus start count parts status) (throw failure : Exec τ α) Q
      (LeftBy start count parts) :=
  Triple.throw_intro fun _ h => leftBy_of_atStatus h hfailure

theorem triple_throw_error {α : Type} {error : ShellError} {Q : α → ExecState τ → Prop} :
    Triple (AtStatus start count parts status) (throw (.shellError error) : Exec τ α) Q
      (LeftBy start count parts) :=
  triple_throw fun leaving h => by
    cases h
    rfl

theorem triple_throw_stopped {α : Type} {Q : α → ExecState τ → Prop} :
    Triple (AtStatus start count parts status) (throw .stopped : Exec τ α) Q
      (LeftBy start count parts) :=
  triple_throw fun leaving h => by cases h

theorem triple_raiseError (error : Option ShellError) :
    Triple (AtStatus start count parts status) (raiseError error : Exec τ Unit)
      (fun _ => AtStatus start count parts status) (LeftBy start count parts) := by
  cases error with
  | none => exact Triple.pure_intro fun _ h => h
  | some error => exact triple_throw_error

theorem triple_jump (failure : Failure) {Q : Int → ExecState τ → Prop} :
    Triple (AtStatus start count parts status) (jump failure : Exec τ Int) Q
      (LeftBy start count parts) := by
  refine Triple.bind_intro (Q := fun _ => LeftBy start count parts failure) ?_ fun _ =>
    Triple.throw_intro fun _ h => h
  refine Triple.modify_intro fun s hs => hs.log fun reading hreading _ => ?_
  obtain ⟨continued, rfl⟩ := hreading
  refine ⟨trivial, fun leaving hleaving => ⟨rfl, rfl, ?_⟩⟩
  rw [StatusReading.step, hleaving]
  rfl

theorem exec_noteStatus (s : ExecState τ) :
    exec (noteStatus : Exec τ Unit) s =
      (.ok ⟨⟩, { s with trace := .expands s.lastExitStatus :: s.trace }) := rfl

theorem AtStatus.expands {s : ExecState τ} (h : AtStatus start count parts status s) :
    AtStatus start count parts status { s with trace := .expands s.lastExitStatus :: s.trace } := by
  refine h.log fun reading hreading _ => ?_
  obtain ⟨continued, rfl⟩ := hreading
  exact ⟨rfl, continued, rfl⟩

theorem exec_checkNoExec (s : ExecState τ) :
    exec (checkNoExec : Exec τ Bool) s =
      if (s.options.noexec && !s.options.interactive) = true then
        (.ok true, { s with trace := .skipped :: s.trace })
      else (.ok false, s) := by
  rw [checkNoExec, exec_bind_ok (exec_get s)]
  split <;> rfl

theorem AtStatus.skips {s : ExecState τ} (h : AtStatus start count parts status s) (any : Int) :
    AtStatus start count parts any { s with trace := .skipped :: s.trace } :=
  h.log fun _ _ hsettles => hsettles.elim

theorem triple_checkNoExec {F : Failure → ExecState τ → Prop} :
    Triple (AtStatus start count parts status) (checkNoExec : Exec τ Bool)
      (fun _ => AtStatus start count parts status) F := by
  refine Triple.of_exec fun s hs => .inl ?_
  rw [exec_checkNoExec]
  split
  · exact ⟨_, _, rfl, hs.skips status⟩
  · exact ⟨_, _, rfl, hs⟩

end

/-! ## Parts -/

section

variable {start : Int} {count : Nat} {parts : List (OpenPart τ)} {status : Int} {s : ExecState τ}

theorem AtStatus.opens (h : AtStatus start count parts status s) (place : Place) (node : Node τ) :
    AtStatus start count ({ place, node, outer := status, before := s.lastExitStatus } :: parts)
      (node.firstStatus s.lastExitStatus) { s with trace := .opens place node :: s.trace } := by
  refine h.log fun reading hreading hsettles => ⟨trivial, false, ?_⟩
  obtain ⟨continued, rfl⟩ := hreading
  cases continued with
  | false => rfl
  | true =>
      have hzero : s.lastExitStatus = 0 := hsettles rfl
      simp only [StatusReading.step, StatusReading.opens, hzero]
      rfl

def EndedAs (start : Int) (count : Nat) (part : OpenPart τ) (around : List (OpenPart τ))
    (status : Int) (s : ExecState τ) : Prop :=
  Reads start count (fun reading => reading = part.ended around status s.lastExitStatus ∧
    (part.place = .background → s.lastExitStatus = status)) s

/-- What it comes to when a failure has led out of the part. -/
def LeftAs (start : Int) (count : Nat) (part : OpenPart τ) (around : List (OpenPart τ))
    (failure : Failure) (s : ExecState τ) : Prop :=
  Reads start count (fun reading => ∀ leaving, failure.leaving = some leaving →
    reading = part.left around leaving s.lastExitStatus) s

variable {part : OpenPart τ}

theorem AtStatus.closes (h : AtStatus start count (part :: parts) status s) :
    EndedAs start count part parts status { s with trace := .closes :: s.trace } := by
  refine h.log fun reading hreading hsettles => ?_
  obtain ⟨continued, rfl⟩ := hreading
  refine ⟨trivial, rfl, fun hplace => hsettles ?_⟩
  simp [hplace]

theorem LeftBy.quits {failure : Failure} (h : LeftBy start count (part :: parts) failure s) :
    LeftAs start count part parts failure { s with trace := .quits :: s.trace } := by
  refine h.log fun reading hreading _ => ⟨trivial, fun leaving hleaving => ?_⟩
  obtain ⟨hlast, hparts, hgetD⟩ := hreading leaving hleaving
  rw [StatusReading.step, StatusReading.quits, hparts, hlast]
  exact congrArg (part.left parts · s.lastExitStatus) hgetD

theorem triple_inPart {α : Type} {place : Place} {node : Node τ} {m : Exec τ α}
    {Q R : α → ExecState τ → Prop} {F G : Failure → ExecState τ → Prop}
    (hm : Triple (· = { s with trace := .opens place node :: s.trace }) m Q F)
    (hcloses : ∀ a s', Q a s' → R a { s' with trace := .closes :: s'.trace })
    (hquits : ∀ failure s', F failure s' → G failure { s' with trace := .quits :: s'.trace }) :
    Triple (· = s) (inPart place node m) R G := by
  have hopens : exec (log (.opens place node)) s =
    (.ok ⟨⟩, { s with trace := .opens place node :: s.trace }) := rfl
  refine Triple.at_bind hopens (Triple.tryCatch_intro F ?_ fun failure => ?_)
  · refine Triple.bind_intro hm fun a => ?_
    exact Triple.bind_intro (Q := fun _ => R a) (Triple.modify_intro (hcloses a)) fun _ =>
      Triple.pure_intro fun _ h => h
  · exact Triple.bind_intro (Q := fun _ => G failure) (Triple.modify_intro (hquits failure))
      fun _ => Triple.throw_intro fun _ h => h

def partAt (s : ExecState τ) (place : Place) (node : Node τ) (status : Int) : OpenPart τ :=
  { place, node, outer := status, before := s.lastExitStatus }

theorem triple_part {place : Place} {node : Node τ} {m : Exec τ Int}
    (hm : Triple (· = { s with trace := .opens place node :: s.trace }) m
      (AtStatus start count (partAt s place node status :: parts))
      (LeftBy start count (partAt s place node status :: parts))) :
    Triple (· = s) (inPart place node m) (EndedAs start count (partAt s place node status) parts)
      (LeftAs start count (partAt s place node status) parts) :=
  triple_inPart hm (fun _ _ h => h.closes) fun _ _ h => h.quits

theorem steady_endedAs : Steady (EndedAs start count part parts status) := by
  intro s s' htrace hlast hcount h
  refine h.mono htrace hcount fun reading hreading => ?_
  rw [hlast]
  exact hreading

theorem steady_leftAs {failure : Failure} : Steady (LeftAs start count part parts failure) := by
  intro s s' htrace hlast hcount h
  refine h.mono htrace hcount fun reading hreading => ?_
  rw [hlast]
  exact hreading

/-! ### Parts in the environment of what is around them -/

theorem EndedAs.atStatus (h : EndedAs start count part parts status s) {outer : Int}
    (hended : ∀ last, part.ended parts status last = { last, status := outer, parts }) :
    AtStatus start count parts outer s :=
  h.mono rfl le_rfl fun _ hreading => ⟨false, hreading.1.trans (hended _)⟩

theorem LeftAs.leftBy {failure : Failure} (h : LeftAs start count part parts failure s)
    (hleft : ∀ leaving last, failure.leaving = some leaving →
      part.left parts leaving last =
        { last, status := part.outer, parts, leaving := some leaving }) :
    LeftBy start count parts failure s := by
  refine h.mono rfl le_rfl fun reading hreading leaving hleaving => ?_
  rw [hreading leaving hleaving, hleft leaving _ hleaving]
  exact ⟨rfl, rfl, rfl⟩

theorem OpenPart.left_eq (henvironment : part.ownEnvironment parts = false)
    (hcalled : part.place ≠ .called) (hround : part.inRound parts = false) (leaving : Leaving)
    (last : Int) :
    part.left parts leaving last =
      { last, status := part.outer, parts, leaving := some leaving } := by
  cases leaving <;> simp [OpenPart.left, henvironment, hcalled, hround]

theorem OpenPart.left_own (henvironment : part.ownEnvironment parts = true) (leaving : Leaving)
    (last : Int) : part.left parts leaving last = part.ended parts leaving.status last := by
  unfold OpenPart.left
  rw [if_pos henvironment]

theorem isSubshell_of_isLoop {node : Node τ} (h : node.isLoop = true) :
    node.isSubshell = false := by
  match node with
  | .list _ | .andOr _ | .pipeline _ => rfl
  | .command (.simple _) | .command (.functionDefinition _ _ _ _) => rfl
  | .command (.compound body _ _) =>
      cases body with
      | subshell => cases h
      | _ => rfl

end

/-! ## Execution -/

/-- While a part is run, what the shell stores and passes up is what the trace comes to. -/
structure Executor.Follows (start : Int) (inner : Executor τ) : Prop where
  list : ∀ tested items count parts,
    Triple (fun s => AtStatus start count parts s.lastExitStatus s) (inner.list tested items)
      (AtStatus start count parts) (LeftBy start count parts)
  command : ∀ tested command count part parts, part.node = .command command →
    Triple (AtStatus start count (part :: parts) 0) (inner.command tested command)
      (AtStatus start count (part :: parts)) (LeftBy start count (part :: parts))
  round : ∀ tested kind condition body status count part parts, part.node.isLoop = true →
    Triple (AtStatus start count (part :: parts) status)
      (inner.round tested kind condition body status)
      (AtStatus start count (part :: parts)) (LeftBy start count (part :: parts))

section

variable {start : Int} {inner : Executor τ} (follows : inner.Follows start) (outcomes : Outcomes τ)
  {count : Nat} {parts : List (OpenPart τ)} {status : Int} {s s' : ExecState τ} (tested : Nat)

include follows

/-! ### Lists and commands inside a part -/

theorem triple_listPart (place : Place) (items : CommandList HereDocument τ)
    (hs : AtStatus start count parts status s) :
    Triple (· = s) (inPart place (.list items) (inner.list tested items))
      (EndedAs start count (partAt s place (.list items) status) parts)
      (LeftAs start count (partAt s place (.list items) status) parts) :=
  triple_part ((follows.list tested items count _).at_state (hs.opens place (.list items)))

theorem triple_commandPart (place : Place) (command : Command HereDocument τ)
    (hs : AtStatus start count parts status s) :
    Triple (· = s) (inPart place (.command command) (inner.command tested command))
      (EndedAs start count (partAt s place (.command command) status) parts)
      (LeftAs start count (partAt s place (.command command) status) parts) :=
  triple_part ((follows.command tested command count _ _ rfl).at_state
    (hs.opens place (.command command)))

theorem triple_bodyPart {part : OpenPart τ} (items : CommandList HereDocument τ)
    (hsubshell : part.node.isSubshell = false) (hloop : part.node.isLoop = false) :
    Triple (AtStatus start count (part :: parts) status)
      (inPart .body (.list items) (inner.list tested items))
      (AtStatus start count (part :: parts)) (LeftBy start count (part :: parts)) := by
  refine Triple.of_pre fun s hs => ?_
  refine (triple_listPart follows tested .body items hs).consequence (fun _ h => h)
    (fun status s h => h.atStatus fun last => ?_) fun failure s h => h.leftBy fun leaving last _ => ?_
  · simp [OpenPart.ended, partAt, hsubshell]
  · refine OpenPart.left_eq ?_ (by simp [partAt]) ?_ leaving last
    · simp [OpenPart.ownEnvironment, partAt, hsubshell]
    · simp [OpenPart.inRound, partAt, hloop]

theorem triple_conditionPart {part : OpenPart τ} (items : CommandList HereDocument τ)
    (hloop : part.node.isLoop = false) :
    Triple (AtStatus start count (part :: parts) status)
      (inPart .condition (.list items) (inner.list tested items))
      (fun _ => AtStatus start count (part :: parts) status)
      (LeftBy start count (part :: parts)) := by
  refine Triple.of_pre fun s hs => ?_
  refine (triple_listPart follows tested .condition items hs).consequence (fun _ h => h)
    (fun status s h => h.atStatus fun last => rfl) fun failure s h => h.leftBy fun leaving last _ => ?_
  refine OpenPart.left_eq rfl (by simp [partAt]) ?_ leaving last
  simp [OpenPart.inRound, partAt, hloop]

/-- What is run in a round of a loop, up to a `break` or `continue` that goes no further. -/
theorem triple_roundPart {place : Place} (hplace : place = .condition ∨ place = .body)
    {part : OpenPart τ} (hloop : part.node.isLoop = true) (items : CommandList HereDocument τ) :
    Triple (AtStatus start count (part :: parts) status)
      (catchLoopControl (inPart place (.list items) (inner.list tested items)))
      (fun ended s =>
        match ended with
        | .status told =>
            AtStatus start count (part :: parts) (if place = .body then told else status) s
        | .control _ =>
            AtStatus start count (part :: parts) (if place = .body then 0 else status) s)
      (LeftBy start count (part :: parts)) := by
  refine Triple.of_pre fun s hs => ?_
  have hpart := triple_listPart follows tested place items hs
  have henvironment : (partAt s place (.list items) status).ownEnvironment (part :: parts) = false := by
    rcases hplace with rfl | rfl
    · rfl
    · simp [OpenPart.ownEnvironment, partAt, isSubshell_of_isLoop hloop]
  have hround : (partAt s place (.list items) status).inRound (part :: parts) = true := by
    rcases hplace with rfl | rfl <;> simp [OpenPart.inRound, partAt, hloop]
  have hcalled : (partAt s place (.list items) status).place ≠ .called := by
    rcases hplace with rfl | rfl <;> simp [partAt]
  refine Triple.tryCatch_intro (LeftAs start count (partAt s place (.list items) status)
    (part :: parts)) (Triple.bind_intro hpart fun told => Triple.pure_intro fun s' h => ?_)
    fun failure => ?_
  · refine h.atStatus fun last => ?_
    rcases hplace with rfl | rfl
    · rfl
    · simp [OpenPart.ended, partAt, isSubshell_of_isLoop hloop]
  · cases failure with
    | loopControl isBreak levels =>
        dsimp only
        split
        · rename_i hlevels
          refine Triple.throw_intro fun s' h => h.mono rfl le_rfl fun reading hreading => ?_
          rintro leaving ⟨⟩
          rw [hreading _ rfl]
          simp [OpenPart.left, henvironment, hround, hlevels]
        · rename_i hlevels
          refine Triple.pure_intro fun s' h => h.mono rfl le_rfl fun reading hreading => ?_
          refine ⟨!isBreak, ?_⟩
          rw [hreading _ rfl, OpenPart.left, henvironment]
          simp only [hround, hlevels]
          rcases hplace with rfl | rfl <;> rfl
    | exit | functionReturn | shellError =>
        refine Triple.throw_intro fun s' h => h.leftBy ?_
        rintro leaving last ⟨⟩
        simp [OpenPart.left, henvironment, hcalled]
    | stopped | outOfFuel =>
        exact Triple.throw_intro fun s' h => h.leftBy fun _ _ hleaving => by cases hleaving

/-! ### Subshells -/

omit follows in
theorem triple_runSubshell {part : OpenPart τ} (henvironment : part.ownEnvironment parts = true)
    {body : Exec τ Int}
    (h : Triple (· = s) body (EndedAs start count part parts) (LeftAs start count part parts)) :
    Triple (· = s) (runSubshell body)
      (fun told s' => s'.lastExitStatus = s.lastExitStatus ∧
        Reads start count (fun reading => ∃ status last, told = status % 256 ∧
          reading = part.ended parts status last) s')
      (LeftBy start count parts) := by
  refine Triple.at_bind (exec_get s) (Triple.tryCatch_intro (LeftAs start count part parts) ?_
    fun failure => ?_)
  · refine Triple.bind_intro h fun told => ?_
    refine Triple.bind_intro (Q := fun _ s' => s'.lastExitStatus = s.lastExitStatus ∧
      Reads start count (fun reading => ∃ last, reading = part.ended parts told last) s')
      (Triple.modify_intro fun s' h => ?_) fun _ => Triple.pure_intro fun s' h => ?_
    · exact ⟨rfl, h.mono rfl le_rfl fun reading hreading => ⟨_, hreading.1⟩⟩
    · refine ⟨h.1, h.2.mono rfl le_rfl fun reading hreading => ?_⟩
      obtain ⟨last, hreading⟩ := hreading
      exact ⟨told, last, rfl, hreading⟩
  · refine Triple.bind_intro (Q := fun _ s' => s'.lastExitStatus = s.lastExitStatus ∧
      Reads start count (fun reading => ∀ leaving, failure.leaving = some leaving →
        ∃ last, reading = part.ended parts leaving.status last) s')
      (Triple.modify_intro fun s' h => ?_) fun _ => ?_
    · refine ⟨rfl, h.mono rfl le_rfl fun reading hreading leaving hleaving => ?_⟩
      exact ⟨s'.lastExitStatus,
        (hreading leaving hleaving).trans (OpenPart.left_own henvironment leaving _)⟩
    · have hended {leaving : Leaving} {told : Int} (hleaving : failure.leaving = some leaving)
          (htold : told = leaving.status % 256) (s' : ExecState τ)
          (h : s'.lastExitStatus = s.lastExitStatus ∧
            Reads start count (fun reading => ∀ leaving, failure.leaving = some leaving →
              ∃ last, reading = part.ended parts leaving.status last) s') :
          s'.lastExitStatus = s.lastExitStatus ∧
            Reads start count (fun reading => ∃ status last, told = status % 256 ∧
              reading = part.ended parts status last) s' := by
        refine ⟨h.1, h.2.mono rfl le_rfl fun reading hreading => ?_⟩
        obtain ⟨last, hreading⟩ := hreading leaving hleaving
        exact ⟨_, last, htold, hreading⟩
      have hpropagates (hleaving : failure.leaving = none) (s' : ExecState τ)
          (h : s'.lastExitStatus = s.lastExitStatus ∧
            Reads start count (fun reading => ∀ leaving, failure.leaving = some leaving →
              ∃ last, reading = part.ended parts leaving.status last) s') :
          LeftBy start count parts failure s' :=
        h.2.mono rfl le_rfl fun _ _ leaving hsome => by
          rw [hleaving] at hsome
          cases hsome
      cases failure with
      | exit | functionReturn | loopControl | shellError =>
          exact Triple.pure_intro (hended rfl rfl)
      | stopped | outOfFuel => exact Triple.throw_intro (hpropagates rfl)

theorem triple_subshellPart {part : OpenPart τ} (hsubshell : part.node.isSubshell = true)
    (items : CommandList HereDocument τ) :
    Triple (AtStatus start count (part :: parts) status)
      (runSubshell (inPart .body (.list items) (inner.list tested items)))
      (AtStatus start count (part :: parts)) (LeftBy start count (part :: parts)) := by
  refine Triple.of_pre fun s hs => ?_
  have henvironment : (partAt s .body (.list items) status).ownEnvironment (part :: parts) = true := by
    simp [OpenPart.ownEnvironment, partAt, hsubshell]
  refine (triple_runSubshell henvironment
    (triple_listPart follows tested .body items hs)).consequence (fun _ h => h)
    (fun told s' h => ?_) fun _ _ h => h
  refine h.2.mono rfl le_rfl fun reading hreading => ⟨false, ?_⟩
  obtain ⟨status', last, rfl, rfl⟩ := hreading
  simp [OpenPart.ended, partAt, hsubshell, h.1]

/-! ### Expansions -/

omit follows in
/-- A simple command's status is that of the command substitutions after the first `count`. -/
def substitutedStatus (part : OpenPart τ) (count : Nat) (status : Int) (s : ExecState τ) : Int :=
  if part.node.isSimple ∧ s.substitutionCount ≠ count then s.lastExitStatus else status

omit follows in
/-- Words of the command `part` are expanded. -/
def Expanding (start : Int) (count : Nat) (part : OpenPart τ) (parts : List (OpenPart τ))
    (status : Int) (s : ExecState τ) : Prop :=
  AtStatus start count (part :: parts) (substitutedStatus part count status s) s

omit follows in
/-- A command substitution has ended with the status `told`, which the shell has not stored. -/
def Substituted (start : Int) (count : Nat) (part : OpenPart τ) (parts : List (OpenPart τ))
    (status told : Int) (s : ExecState τ) : Prop :=
  Reads start count (fun reading => ∃ continued, reading =
    { last := told
      status := if part.node.isSimple then told else status
      parts := part :: parts
      continued }) s

omit follows in
theorem AtStatus.rejects {part : OpenPart τ} (h : AtStatus start count (part :: parts) status s) :
    Substituted start count part parts status 2 { s with trace := .rejected :: s.trace } := by
  refine h.log fun reading hreading _ => ?_
  obtain ⟨continued, rfl⟩ := hreading
  exact ⟨trivial, continued, rfl⟩

theorem triple_substitution (part : OpenPart τ) (items : CommandList HereDocument τ) :
    Triple (AtStatus start count (part :: parts) status)
      (withStartInsteadOfWait false
        (runSubshell (inPart .substitution (.list items) (inner.list tested items))))
      (Substituted start count part parts status) (LeftBy start count (part :: parts)) := by
  refine Triple.of_pre fun s hs => ?_
  have hpart := triple_listPart follows tested .substitution items
    (steady_atStatus s { s with startInsteadOfWait := false } rfl rfl le_rfl hs)
  refine triple_withStartInsteadOfWait false (fun told => ?_) (fun _ => steady_leftBy)
    ((triple_runSubshell rfl hpart).consequence (fun _ h => h) (fun told s' h => ?_)
      fun _ _ h => h)
  · intro s s' htrace _ hcount h
    exact h.mono htrace hcount fun _ h => h
  · refine h.2.mono rfl le_rfl fun reading hreading => ⟨false, ?_⟩
    obtain ⟨status', last, rfl, rfl⟩ := hreading
    rfl

omit follows in
theorem Substituted.stored {part : OpenPart τ} {told : Int}
    (h : Substituted start (count + 1) part parts (substitutedStatus part count status s) told s') :
    Expanding start count part parts status { s' with lastExitStatus := told } := by
  have hmore : s'.substitutionCount ≠ count := Nat.ne_of_gt h.1
  have heq : (if part.node.isSimple then told else substitutedStatus part count status s) =
      substitutedStatus part count status { s' with lastExitStatus := told } := by
    unfold substitutedStatus
    by_cases hsimple : part.node.isSimple = true <;> simp [hsimple, hmore]
  rw [Expanding, ← heq]
  exact h.weaken (Nat.le_succ count)

theorem triple_runSubstitutions (part : OpenPart τ) : ∀ programs,
    Triple (Expanding start count part parts status) (runSubstitutions inner tested programs)
      (fun _ => Expanding start count part parts status) (LeftBy start count (part :: parts))
  | [] => Triple.pure_intro fun _ h => h
  | program :: rest => by
      refine Triple.of_pre fun s hs => ?_
      rw [runSubstitutions]
      refine Triple.at_bind (exec_modify _ s) ?_
      have hcounted : AtStatus start (count + 1) (part :: parts)
          (substitutedStatus part count status s)
          { s with substitutionCount := s.substitutionCount + 1 } :=
        ⟨Nat.succ_le_succ hs.1, hs.2⟩
      have hrest (told : Int) : Triple
          (Substituted start (count + 1) part parts (substitutedStatus part count status s) told)
          (do
            modify fun s => { s with lastExitStatus := told }
            noteStatus
            runSubstitutions inner tested rest)
          (fun _ => Expanding start count part parts status)
          (LeftBy start count (part :: parts)) := by
        refine Triple.of_pre fun s' hs' => ?_
        refine Triple.at_bind (exec_modify _ s') (Triple.at_bind (exec_noteStatus _) ?_)
        exact (triple_runSubstitutions part rest).at_state hs'.stored.expands
      cases program with
      | none =>
          exact Triple.at_bind (m := log .rejected) rfl (Triple.at_bind (exec_pure 2 _)
            ((hrest 2).at_state hcounted.rejects))
      | some items =>
          exact Triple.bind_intro (((triple_substitution follows tested part items).at_state
            hcounted).consequence (fun _ h => h) (fun _ _ h => h)
              fun _ _ h => h.weaken (Nat.le_succ count)) hrest

theorem triple_expand {α : Type} (part : OpenPart τ) (expanded : Nat → Expanded τ α) :
    Triple (Expanding start count part parts status) (expand inner tested expanded)
      (fun _ => Expanding start count part parts status) (LeftBy start count (part :: parts)) := by
  refine Triple.of_pre fun s hs => ?_
  refine Triple.at_bind (m := consult expanded) rfl (Triple.at_bind (exec_noteStatus _) ?_)
  refine Triple.bind_intro ((triple_runSubstitutions follows tested part _).at_state
    (AtStatus.expands (s := { s with clock := s.clock + 1 }) hs)) fun _ => ?_
  split
  · exact Triple.pure_intro fun _ h => h
  · refine Triple.throw_intro fun s h => leftBy_of_atStatus h fun leaving hleaving => ?_
    cases hleaving
    rfl

theorem triple_expandIn {α : Type} {part : OpenPart τ} (hsimple : part.node.isSimple = false)
    (expanded : Nat → Expanded τ α) :
    Triple (AtStatus start count (part :: parts) status) (expand inner tested expanded)
      (fun _ => AtStatus start count (part :: parts) status) (LeftBy start count (part :: parts)) := by
  have heq (s : ExecState τ) : substitutedStatus part count status s = status := by
    simp [substitutedStatus, hsimple]
  have hexpand : Triple (Expanding start count part parts status) (expand inner tested expanded)
      (fun _ => Expanding start count part parts status) (LeftBy start count (part :: parts)) :=
    triple_expand follows tested part expanded
  refine hexpand.consequence (fun s h => ?_) (fun _ s h => ?_) fun _ _ h => h
  · rw [Expanding, heq]
    exact h
  · rw [Expanding, heq] at h
    exact h

theorem triple_redirect (part : OpenPart τ) (redirections : List (Redirection HereDocument)) :
    Triple (Expanding start count part parts status) (redirect outcomes inner tested redirections)
      (fun _ => Expanding start count part parts status) (LeftBy start count (part :: parts)) := by
  cases redirections with
  | nil => exact Triple.pure_intro fun _ h => h
  | cons redirection rest => exact triple_expand follows tested part _

/-! ### Functions and texts -/

omit follows in
/-- A `return` has led out of what a function or `.` runs. -/
def CalledBy (start : Int) (count : Nat) (parts : List (OpenPart τ)) (failure : Failure)
    (s : ExecState τ) : Prop :=
  match failure with
  | .functionReturn told => AtStatus start count parts told s
  | failure => LeftBy start count parts failure s

omit follows in
theorem LeftAs.calledBy {part : OpenPart τ} {failure : Failure} (hplace : part.place = .called)
    (h : LeftAs start count part parts failure s) : CalledBy start count parts failure s := by
  have henvironment : part.ownEnvironment parts = false := by
    simp [OpenPart.ownEnvironment, hplace]
  have hround : part.inRound parts = false := by simp [OpenPart.inRound, hplace]
  cases failure with
  | functionReturn told =>
      have hcaught : AtStatus start count parts told s :=
        h.mono rfl le_rfl fun reading hreading => ⟨false, by
          rw [hreading _ rfl]
          simp [OpenPart.left, OpenPart.ended, henvironment, hplace]⟩
      exact hcaught
  | exit | loopControl | shellError =>
      refine LeftAs.leftBy h ?_
      rintro leaving last ⟨⟩
      simp [OpenPart.left, henvironment, hround]
  | stopped | outOfFuel => exact LeftAs.leftBy h fun _ _ hleaving => by cases hleaving

omit follows in
theorem steady_calledBy {failure : Failure} : Steady (CalledBy start count parts failure) := by
  cases failure with
  | functionReturn => exact steady_atStatus
  | exit | loopControl | shellError | stopped | outOfFuel => exact steady_leftBy

omit follows in
theorem triple_inFunction {body : Exec τ Int}
    (h : Triple (AtStatus start count parts status) body (AtStatus start count parts)
      (CalledBy start count parts)) :
    Triple (AtStatus start count parts status) (inFunction body) (AtStatus start count parts)
      (LeftBy start count parts) := by
  refine Triple.bind_intro (Q := fun _ => AtStatus start count parts status)
    (Triple.get_intro fun _ hs => hs) fun saved => ?_
  refine Triple.bind_intro (steady_atStatus.modify fun _ => ⟨rfl, rfl, rfl⟩) fun _ => ?_
  refine Triple.tryCatch_intro (CalledBy start count parts) ?_ fun failure => ?_
  · refine Triple.bind_intro h fun told => ?_
    exact Triple.bind_intro (steady_atStatus.modify fun _ => ⟨rfl, rfl, rfl⟩) fun _ =>
      Triple.pure_intro fun _ h => h
  · refine Triple.bind_intro (steady_calledBy.modify fun _ => ⟨rfl, rfl, rfl⟩) fun _ => ?_
    cases failure with
    | functionReturn => exact Triple.pure_intro fun _ h => h
    | exit | loopControl | shellError | stopped | outOfFuel =>
        exact Triple.throw_intro fun _ h => h

omit follows in
theorem triple_inDotScript {body : Exec τ Int}
    (h : Triple (AtStatus start count parts status) body (AtStatus start count parts)
      (CalledBy start count parts)) :
    Triple (AtStatus start count parts status) (inDotScript body) (AtStatus start count parts)
      (LeftBy start count parts) := by
  refine Triple.bind_intro (steady_atStatus.modify fun _ => ⟨rfl, rfl, rfl⟩) fun _ => ?_
  refine Triple.tryCatch_intro (CalledBy start count parts) ?_ fun failure => ?_
  · refine Triple.bind_intro h fun told => ?_
    exact Triple.bind_intro (steady_atStatus.modify fun _ => ⟨rfl, rfl, rfl⟩) fun _ =>
      Triple.pure_intro fun _ h => h
  · refine Triple.bind_intro (steady_calledBy.modify fun _ => ⟨rfl, rfl, rfl⟩) fun _ => ?_
    cases failure with
    | functionReturn => exact Triple.pure_intro fun _ h => h
    | exit | loopControl | shellError | stopped | outOfFuel =>
        exact Triple.throw_intro fun _ h => h

theorem triple_evaluatedPart (items : CommandList HereDocument τ) :
    Triple (AtStatus start count parts status)
      (inPart .evaluated (.list items) (inner.list tested items)) (AtStatus start count parts)
      (LeftBy start count parts) := by
  refine Triple.of_pre fun s hs => ?_
  refine (triple_listPart follows tested .evaluated items hs).consequence (fun _ h => h)
    (fun told s h => h.atStatus fun last => rfl) fun failure s h => h.leftBy fun leaving last _ => ?_
  exact OpenPart.left_eq rfl (by simp [partAt]) rfl leaving last

theorem triple_sourcedPart (items : CommandList HereDocument τ) :
    Triple (AtStatus start count parts status)
      (inPart .called (.list items) (inner.list tested items)) (AtStatus start count parts)
      (CalledBy start count parts) := by
  refine Triple.of_pre fun s hs => ?_
  exact (triple_listPart follows tested .called items hs).consequence (fun _ h => h)
    (fun told s h => h.atStatus fun last => rfl) fun failure s h => h.calledBy rfl

theorem triple_functionPart (command : Command HereDocument τ) :
    Triple (AtStatus start count parts status)
      (inPart .called (.command command) (inner.command tested command))
      (AtStatus start count parts) (CalledBy start count parts) := by
  refine Triple.of_pre fun s hs => ?_
  exact (triple_commandPart follows tested .called command hs).consequence (fun _ h => h)
    (fun told s h => h.atStatus fun last => rfl) fun failure s h => h.calledBy rfl

omit follows in
theorem triple_executeCommands {place : Place} {F : Failure → ExecState τ → Prop}
    (hpart : ∀ items status, Triple (AtStatus start count parts status)
      (inPart place (.list items) (inner.list tested items)) (AtStatus start count parts) F)
    (error : Option ShellError)
    (herror : ∀ failed, error = some failed → ∀ status s, AtStatus start count parts status s →
      F (.shellError failed) s) : ∀ commands status,
      Triple (AtStatus start count parts status)
        (executeCommands inner tested place error status commands) (AtStatus start count parts) F
  | [], status => by
      rw [executeCommands]
      cases error with
      | none => exact Triple.pure_intro fun _ h => h
      | some error => exact Triple.throw_intro (herror error rfl status)
  | items :: rest, status =>
      Triple.bind_intro (hpart items status) fun told =>
        triple_executeCommands hpart error herror rest told

/-! ### Simple commands -/

omit follows in
theorem triple_runProgram (fields : List Text) :
    Triple (AtStatus start count parts status) (runProgram outcomes fields)
      (AtStatus start count parts) (LeftBy start count parts) := by
  refine Triple.bind_intro (steady_atStatus.consult _) fun program => ?_
  cases program with
  | readOnlyAssignment error => exact triple_throw_error
  | notStarted told => exact triple_tell told
  | started =>
      refine Triple.bind_intro (Q := fun _ => AtStatus start count parts status)
        (Triple.get_intro fun _ hs => hs) fun seen => ?_
      split
      · exact Triple.bind_intro (steady_atStatus.modify fun _ => ⟨rfl, rfl, rfl⟩) fun _ =>
          triple_tell 0
      · refine Triple.bind_intro (steady_atStatus.consult _) fun waited => ?_
        cases waited with
        | none => exact triple_throw_stopped
        | some told => exact triple_tell told

theorem triple_runBuiltin (fields : List Text) :
    Triple (AtStatus start count parts status) (runBuiltin outcomes inner tested fields)
      (AtStatus start count parts) (LeftBy start count parts) := by
  refine Triple.bind_intro (steady_atStatus.consult _) fun outcome => ?_
  have hget {f : ExecState τ → Exec τ Int}
      (hf : ∀ seen, Triple (AtStatus start count parts status) (f seen) (AtStatus start count parts)
        (LeftBy start count parts)) :
      Triple (AtStatus start count parts status) (get >>= f) (AtStatus start count parts)
        (LeftBy start count parts) :=
    Triple.bind_intro (Q := fun _ => AtStatus start count parts status)
      (Triple.get_intro fun _ hs => hs) hf
  cases outcome with
  | status told => exact triple_tell told
  | setOptions options told =>
      exact Triple.bind_intro (steady_atStatus.modify fun _ => ⟨rfl, rfl, rfl⟩) fun _ =>
        triple_tell told
  | breakContinue isBreak levels =>
      refine hget fun seen => ?_
      split
      · exact triple_tell 0
      · exact triple_jump _
  | returnWith told =>
      refine hget fun seen => ?_
      split <;> exact triple_jump _
  | exitWith told => exact triple_jump _
  | fails error => exact triple_throw_error
  | stops => exact triple_throw_stopped
  | evaluates commands error =>
      refine Triple.bind_intro (triple_told 0) fun _ => ?_
      exact triple_executeCommands tested
        (fun items status => triple_evaluatedPart follows tested items) error
        (fun _ _ _ _ h => leftBy_of_atStatus h fun _ hleaving => by
          cases hleaving
          rfl) commands 0
  | sources commands error =>
      refine Triple.bind_intro (triple_told 0) fun _ => triple_inDotScript ?_
      exact triple_executeCommands tested
        (fun items status => triple_sourcedPart follows tested items) error
        (fun _ _ _ _ h => leftBy_of_atStatus h fun _ hleaving => by
          cases hleaving
          rfl) commands 0

theorem triple_runFields (names : List Text) (name : Text) (arguments : List Text) :
    Triple (AtStatus start count parts status)
      (runFields outcomes inner tested names name arguments) (AtStatus start count parts)
      (LeftBy start count parts) := by
  have hassign {m : Exec τ Int}
      (hm : Triple (AtStatus start count parts status) m (AtStatus start count parts)
        (LeftBy start count parts)) :
      Triple (AtStatus start count parts status) (do
          raiseError (← consult (outcomes.assign · names))
          m) (AtStatus start count parts) (LeftBy start count parts) :=
    Triple.bind_intro (steady_atStatus.consult _) fun error =>
      Triple.bind_intro (triple_raiseError error) fun _ => hm
  have hbuiltin := hassign (triple_runBuiltin follows outcomes tested (name :: arguments))
  unfold runFields
  split
  · exact hbuiltin
  · refine Triple.bind_intro (Q := fun _ => AtStatus start count parts status)
      (Triple.get_intro fun _ hs => hs) fun seen => ?_
    cases seen.functions name with
    | some body => exact hassign (triple_inFunction (triple_functionPart follows tested body))
    | none =>
        dsimp only
        split
        · exact hbuiltin
        · exact triple_runProgram outcomes _

theorem triple_executeSimpleCommand {part : OpenPart τ} (hsimple : part.node.isSimple = true)
    (command : SimpleCommand HereDocument) :
    Triple (AtStatus start count (part :: parts) 0)
      (executeSimpleCommand outcomes inner tested command) (AtStatus start count (part :: parts))
      (LeftBy start count (part :: parts)) := by
  refine Triple.of_pre fun s hs => Triple.at_bind (exec_get s) ?_
  -- From here on the command substitutions of this command are counted.
  set first := s.substitutionCount with hfirst
  have hentered : Expanding start first part parts 0 s := by
    have hzero : substitutedStatus part first 0 s = 0 := by simp [substitutedStatus, hfirst]
    rw [Expanding, hzero]
    exact ⟨le_rfl, hs.2⟩
  have hcounted {m : Exec τ Int} (hm : Triple (· = s) m (AtStatus start first (part :: parts))
      (LeftBy start first (part :: parts))) : Triple (· = s) m
        (AtStatus start count (part :: parts)) (LeftBy start count (part :: parts)) :=
    hm.consequence (fun _ h => h) (fun _ _ h => h.weaken hs.1) fun _ _ h => h.weaken hs.1
  refine hcounted (Triple.bind_intro ((triple_expand follows tested part _).at_state hentered)
    fun fields => Triple.of_pre fun s₁ h₁ => ?_)
  by_cases hskips : (s₁.options.noexec && !s₁.options.interactive) = true
  · have hrun : exec checkNoExec s₁ = (.ok true, { s₁ with trace := .skipped :: s₁.trace }) := by
      rw [exec_checkNoExec, if_pos hskips]
    refine Triple.at_bind hrun ?_
    exact Triple.at_bind (exec_get _) (Triple.at_pure (h₁.skips _))
  · have hrun : exec checkNoExec s₁ = (.ok false, s₁) := by rw [exec_checkNoExec, if_neg hskips]
    refine Triple.at_bind hrun ?_
    refine Triple.bind_intro ((triple_redirect follows outcomes tested part _).at_state h₁)
      fun error => Triple.of_pre fun s₂ h₂ => ?_
    cases error with
    | some message =>
        dsimp only
        split
        · exact triple_throw_error.at_state h₂
        · exact (triple_tell 2).at_state h₂
    | none =>
        refine Triple.bind_intro ((triple_expand follows tested part _).at_state h₂)
          fun _ => Triple.of_pre fun s₃ h₃ => ?_
        cases fields with
        | nil =>
            have hstatus : AtStatus start first (part :: parts)
                (if s₃.substitutionCount ≠ first then s₃.lastExitStatus else 0)
                { s₃ with clock := s₃.clock + 1 } := by
              have hstatus := h₃
              rw [Expanding, substitutedStatus] at hstatus
              simp only [hsimple, true_and] at hstatus
              exact hstatus
            have hraise (error : Option ShellError) :
                Triple (· = { s₃ with clock := s₃.clock + 1 }) (raiseError error)
                  (fun _ => (· = { s₃ with clock := s₃.clock + 1 }))
                  (LeftBy start first (part :: parts)) := by
              cases error with
              | none => exact Triple.pure_intro fun _ h => h
              | some error => exact triple_throw_error.at_state hstatus
            refine Triple.at_bind (m := consult _) rfl (Triple.bind_intro (hraise _) fun _ => ?_)
            exact Triple.at_bind (exec_get _) (Triple.at_pure hstatus)
        | cons name arguments =>
            exact (triple_runFields follows outcomes tested _ name arguments).at_state h₃

/-! ### Compound commands -/

theorem triple_executeIf {part : OpenPart τ} (hsubshell : part.node.isSubshell = false)
    (hloop : part.node.isLoop = false) (elseBody : Option (CommandList HereDocument τ)) :
    ∀ branches, Triple (AtStatus start count (part :: parts) 0)
      (executeIf inner tested elseBody branches) (AtStatus start count (part :: parts))
      (LeftBy start count (part :: parts))
  | [] => by
      cases elseBody with
      | none => exact Triple.pure_intro fun _ h => h
      | some items => exact triple_bodyPart follows tested items hsubshell hloop
  | .mk condition body :: rest => by
      refine Triple.bind_intro (triple_conditionPart follows (tested + 1) condition hloop)
        fun status => ?_
      split
      · exact triple_bodyPart follows tested body hsubshell hloop
      · exact triple_executeIf hsubshell hloop elseBody rest

theorem triple_executeRound {part : OpenPart τ} (hloop : part.node.isLoop = true) (kind : LoopKind)
    (condition body : CommandList HereDocument τ) :
    Triple (AtStatus start count (part :: parts) status)
      (executeRound inner tested kind condition body status)
      (AtStatus start count (part :: parts)) (LeftBy start count (part :: parts)) := by
  have hround (status : Int) :=
    follows.round tested kind condition body status count part parts hloop
  refine Triple.bind_intro (triple_roundPart follows (tested + 1) (.inl rfl) hloop condition)
    fun ended => ?_
  rcases ended with tests | _ | _
  · change Triple (AtStatus start count (part :: parts) status) _ _ _
    dsimp only
    split
    · refine Triple.bind_intro (triple_roundPart follows tested (.inr rfl) hloop body)
        fun ended => ?_
      rcases ended with told | _ | _
      · exact hround told
      · exact hround 0
      · exact Triple.pure_intro fun _ h => h
    · exact Triple.pure_intro fun _ h => h
  · exact hround status
  · exact Triple.pure_intro fun _ h => h

theorem triple_executeFor {part : OpenPart τ} (hloop : part.node.isLoop = true) (var : Text)
    (body : CommandList HereDocument τ) : ∀ values status,
      Triple (AtStatus start count (part :: parts) status)
        (executeFor outcomes inner tested var body status values)
        (AtStatus start count (part :: parts)) (LeftBy start count (part :: parts))
  | [], _ => Triple.pure_intro fun _ h => h
  | _ :: values, status => by
      rw [executeFor]
      refine Triple.bind_intro (steady_atStatus.consult _) fun error => ?_
      refine Triple.bind_intro (triple_raiseError error) fun _ => ?_
      refine Triple.bind_intro (triple_roundPart follows tested (.inr rfl) hloop body)
        fun ended => ?_
      rcases ended with told | _ | _
      · exact triple_executeFor hloop var body values told
      · exact triple_executeFor hloop var body values 0
      · exact Triple.pure_intro fun _ h => h

theorem triple_matchesAny {part : OpenPart τ} (hsimple : part.node.isSimple = false)
    (subject : Text) : ∀ patterns, Triple (AtStatus start count (part :: parts) status)
      (matchesAny outcomes inner tested subject patterns)
      (fun _ => AtStatus start count (part :: parts) status) (LeftBy start count (part :: parts))
  | [] => Triple.pure_intro fun _ h => h
  | pattern :: rest => by
      refine Triple.bind_intro (triple_expandIn follows tested hsimple _) fun accepts => ?_
      split
      · exact Triple.pure_intro fun _ h => h
      · exact triple_matchesAny hsimple subject rest

theorem triple_executeCase {part : OpenPart τ} (hsimple : part.node.isSimple = false)
    (hsubshell : part.node.isSubshell = false) (hloop : part.node.isLoop = false)
    (subject : Text) : ∀ items, Triple (AtStatus start count (part :: parts) 0)
      (executeCase outcomes inner tested subject items) (AtStatus start count (part :: parts))
      (LeftBy start count (part :: parts))
  | [] => Triple.pure_intro fun _ h => h
  | .mk patterns body :: rest => by
      refine Triple.bind_intro (triple_matchesAny follows outcomes tested hsimple subject patterns)
        fun accepts => ?_
      split
      · split
        · exact Triple.pure_intro fun _ h => h
        · exact triple_bodyPart follows tested body hsubshell hloop
      · exact triple_executeCase hsimple hsubshell hloop subject rest

theorem triple_executeCompound {part : OpenPart τ} {body : Compound HereDocument τ}
    {redirections : List (Redirection HereDocument)} {line : Nat}
    (hnode : part.node = .command (.compound body redirections line)) :
    Triple (AtStatus start count (part :: parts) 0) (executeCompound outcomes inner tested body)
      (AtStatus start count (part :: parts)) (LeftBy start count (part :: parts)) := by
  have hsimple : part.node.isSimple = false := by
    rw [hnode]
    rfl
  cases body with
  | braceGroup items =>
      exact triple_bodyPart follows tested items (by rw [hnode]; rfl) (by rw [hnode]; rfl)
  | subshell items => exact triple_subshellPart follows tested (by rw [hnode]; rfl) items
  | ifCommand branches elseBody =>
      exact triple_executeIf follows tested (by rw [hnode]; rfl) (by rw [hnode]; rfl) elseBody
        branches
  | loop kind condition items =>
      exact triple_inLoop steady_atStatus (fun _ => steady_atStatus) (fun _ => steady_leftBy)
        (follows.round tested kind condition items 0 count part parts (by rw [hnode]; rfl))
  | forCommand var words items =>
      have hfor (values : List Text) : Triple (AtStatus start count (part :: parts) 0)
          (inLoop (executeFor outcomes inner tested var items 0 values))
          (AtStatus start count (part :: parts)) (LeftBy start count (part :: parts)) :=
        triple_inLoop steady_atStatus (fun _ => steady_atStatus) (fun _ => steady_leftBy)
          (triple_executeFor follows outcomes tested (by rw [hnode]; rfl) var items values 0)
      cases words with
      | some words =>
          exact Triple.bind_intro (triple_expandIn follows tested hsimple _) hfor
      | none => exact Triple.bind_intro (steady_atStatus.consult _) hfor
  | caseCommand subject items =>
      refine Triple.bind_intro (triple_expandIn follows tested hsimple _) fun subject => ?_
      exact triple_executeCase follows outcomes tested hsimple (by rw [hnode]; rfl)
        (by rw [hnode]; rfl) subject items

theorem triple_executeRedirected {part : OpenPart τ} {body : Compound HereDocument τ}
    {redirections : List (Redirection HereDocument)} {line : Nat}
    (hnode : part.node = .command (.compound body redirections line)) :
    Triple (AtStatus start count (part :: parts) 0)
      (executeRedirected outcomes inner tested body redirections)
      (AtStatus start count (part :: parts)) (LeftBy start count (part :: parts)) := by
  have hredirect : Triple (AtStatus start count (part :: parts) 0)
      (redirect outcomes inner tested redirections)
      (fun _ => AtStatus start count (part :: parts) 0) (LeftBy start count (part :: parts)) := by
    cases redirections with
    | nil => exact Triple.pure_intro fun _ h => h
    | cons redirection rest => exact triple_expandIn follows tested (by rw [hnode]; rfl) _
  refine Triple.bind_intro hredirect fun error => ?_
  split
  · exact triple_tell 2
  · exact triple_executeCompound follows outcomes tested hnode

omit follows in
theorem AtStatus.note {event : Event τ} (h : AtStatus start count parts status s)
    (hfinds : ∀ reading : StatusReading τ, reading.Finds event)
    (hstep : ∀ reading : StatusReading τ, reading.step event = reading) :
    AtStatus start count parts status { s with trace := event :: s.trace } :=
  h.log fun reading hreading _ => ⟨hfinds reading, by
    rw [hstep]
    exact hreading⟩

omit follows in
theorem triple_logged {m : Exec τ Int} {pre : ExecState τ → Prop} (what : Ran)
    (hm : Triple pre m (AtStatus start count parts) (LeftBy start count parts)) :
    Triple pre (logged what tested m) (AtStatus start count parts) (LeftBy start count parts) := by
  refine Triple.bind_intro hm fun told => ?_
  refine Triple.bind_intro (Q := fun _ => AtStatus start count parts told)
    (Triple.modify_intro fun s h => ?_) fun _ => Triple.pure_intro fun _ h => h
  exact h.note (fun _ => trivial) fun _ => rfl

theorem triple_executeCommand {part : OpenPart τ} {command : Command HereDocument τ}
    (hnode : part.node = .command command) :
    Triple (AtStatus start count (part :: parts) 0) (executeCommand outcomes inner tested command)
      (AtStatus start count (part :: parts)) (LeftBy start count (part :: parts)) := by
  refine Triple.bind_intro (steady_atStatus.consult _) fun stop => ?_
  split
  · exact triple_throw_stopped
  cases command with
  | simple simple =>
      refine triple_logged tested .simpleCommand ?_
      exact triple_executeSimpleCommand follows outcomes tested (by rw [hnode]; rfl) simple
  | functionDefinition name body =>
      exact Triple.bind_intro (steady_atStatus.modify fun _ => ⟨rfl, rfl, rfl⟩) fun _ =>
        Triple.pure_intro fun _ h => h
  | compound body redirections line =>
      have hbody : Triple (AtStatus start count (part :: parts) 0)
          (executeRedirected outcomes inner tested body redirections)
          (AtStatus start count (part :: parts)) (LeftBy start count (part :: parts)) :=
        triple_executeRedirected follows outcomes tested hnode
      rw [executeKind]
      split
      · exact triple_logged tested .subshell hbody
      · exact hbody

/-! ### Pipelines -/

theorem triple_executeStage {part : OpenPart τ} (child : Bool) (position : Nat)
    (command : Command HereDocument τ) :
    Triple (AtStatus start count (part :: parts) status)
      (executeStage inner tested child position command)
      (fun ended => AtStatus start count (part :: parts)
        (if part.node.hasLastStage position then ended.1 else status))
      (LeftBy start count (part :: parts)) := by
  refine Triple.bind_intro (steady_atStatus.modify fun _ => ⟨rfl, rfl, rfl⟩) fun _ =>
    Triple.of_pre fun s hs => ?_
  have hpart := triple_commandPart follows tested (.stage position) command
    (steady_atStatus s { s with startInsteadOfWait := child } rfl rfl le_rfl hs)
  refine Triple.bind_intro (triple_runSubshell rfl (triple_withStartInsteadOfWait child
    (fun _ => steady_endedAs) (fun _ => steady_leftAs) hpart)) fun told => ?_
  refine Triple.bind_intro (Q := fun _ => AtStatus start count (part :: parts)
    (if part.node.hasLastStage position then told else status)) (Triple.get_intro fun s' h => ?_)
    fun seen => Triple.pure_intro fun _ h => h
  refine h.2.mono rfl le_rfl fun reading hreading => ⟨false, ?_⟩
  obtain ⟨status', last, rfl, rfl⟩ := hreading
  rw [h.1]
  rfl

/-- How the last stage of a pass ended, if it is of the pass. -/
def LastStage (start : Int) (count : Nat) (parts : List (OpenPart τ)) (status : Int)
    (ofPass : Bool) (ended : StageEnd) (s : ExecState τ) : Prop :=
  if ofPass then AtStatus start count parts ended.1 s
  else ended = (0, false) ∧ AtStatus start count parts status s

theorem triple_executePass {part : OpenPart τ} (child : Bool)
    {stages : List (Command HereDocument τ × Bool)} {stage : Command HereDocument τ × Bool}
    (hlast : ∀ position, part.node.hasLastStage position = (position == stages.length)) :
    Triple (AtStatus start count (part :: parts) status)
      (executePass inner tested child (stages ++ [stage]))
      (fun ended s => ∃ ended' last, ended = ended' ++ [last] ∧ ended'.length = stages.length ∧
        LastStage start count (part :: parts) status (stage.2 == child) last s)
      (LeftBy start count (part :: parts)) := by
  have hzip : (stages ++ [stage]).zipIdx = stages.zipIdx ++ [(stage, stages.length)] := by
    rw [List.zipIdx_append, Nat.zero_add]
    rfl
  rw [executePass, hzip]
  refine (Triple.mapM_last
    (Q := LastStage start count (part :: parts) status (stage.2 == child))
    (fun numbered hmem => ?_) ?_).consequence (fun _ h => h) (fun ended s h => ?_) fun _ _ h => h
  · rcases numbered with ⟨⟨command, childStage⟩, position⟩
    have hposition : position < stages.length := by
      have := List.mem_zipIdx hmem
      omega
    dsimp only
    split
    · refine (triple_executeStage follows tested child position command).consequence
        (fun _ h => h) (fun ended s h => ?_) fun _ _ h => h
      rw [hlast, beq_eq_false_iff_ne.mpr (Nat.ne_of_lt hposition)] at h
      exact h
    · exact Triple.pure_intro fun _ h => h
  · rcases stage with ⟨command, childStage⟩
    dsimp only
    split
    · rename_i hchild
      refine (triple_executeStage follows tested child _ command).consequence
        (fun _ h => h) (fun ended s h => ?_) fun _ _ h => h
      rw [hlast, beq_self_eq_true] at h
      rw [LastStage, hchild, beq_self_eq_true]
      exact h
    · rename_i hchild
      refine Triple.pure_intro fun s h => ?_
      rw [LastStage, beq_eq_false_iff_ne.mpr hchild]
      exact ⟨rfl, h⟩
  · obtain ⟨ended', last, rfl, hlength, hstage⟩ := h
    exact ⟨ended', last, rfl, hlength.trans List.length_zipIdx, hstage⟩

omit follows in
theorem triple_waitForStages {part : OpenPart τ} {stages : List StageEnd} {stage : StageEnd}
    (hlast : ∀ position, part.node.hasLastStage position = (position == stages.length)) :
    Triple (AtStatus start count (part :: parts) status)
      (waitForStages outcomes (stages ++ [stage]))
      (fun waited s => ∃ waited' last, waited = waited' ++ [last] ∧
        AtStatus start count (part :: parts) (if stage.2 then last else status) s ∧
        (stage.2 = false → last = stage.1))
      (LeftBy start count (part :: parts)) := by
  have hzip : (stages ++ [stage]).zipIdx = stages.zipIdx ++ [(stage, stages.length)] := by
    rw [List.zipIdx_append, Nat.zero_add]
    rfl
  have hwaited (position : Nat) (told : Int) : Triple (AtStatus start count (part :: parts) status)
      (log (.waited position told)) (fun _ => AtStatus start count (part :: parts)
        (if part.node.hasLastStage position then told else status))
      (LeftBy start count (part :: parts)) := by
    refine Triple.modify_intro fun s h => h.log fun reading hreading _ => ?_
    obtain ⟨continued, rfl⟩ := hreading
    refine ⟨trivial, continued, ?_⟩
    cases hlastStage : part.node.hasLastStage position <;> simp [StatusReading.step, hlastStage]
  rw [waitForStages, hzip]
  refine (Triple.mapM_last
    (Q := fun last s => AtStatus start count (part :: parts) (if stage.2 then last else status) s ∧
      (stage.2 = false → last = stage.1))
    (fun numbered hmem => ?_) ?_).consequence (fun _ h => h) (fun waited s h => ?_) fun _ _ h => h
  · rcases numbered with ⟨⟨told, started⟩, position⟩
    have hposition : position < stages.length := by
      have := List.mem_zipIdx hmem
      omega
    dsimp only
    split
    · refine Triple.bind_intro (steady_atStatus.consult _) fun waited => ?_
      cases waited with
      | none => exact triple_throw_stopped
      | some told =>
          refine Triple.bind_intro (hwaited position told) fun _ => Triple.pure_intro fun s h => ?_
          rw [hlast, beq_eq_false_iff_ne.mpr (Nat.ne_of_lt hposition)] at h
          exact h
    · exact Triple.pure_intro fun _ h => h
  · rcases stage with ⟨told, started⟩
    dsimp only
    split
    · rename_i hstarted
      refine Triple.bind_intro (steady_atStatus.consult _) fun waited => ?_
      cases waited with
      | none => exact triple_throw_stopped
      | some told =>
          refine Triple.bind_intro (hwaited stages.length told) fun _ =>
            Triple.pure_intro fun s h => ?_
          rw [hlast, beq_self_eq_true] at h
          exact ⟨h, fun hnot => by rw [hstarted] at hnot; cases hnot⟩
    · exact Triple.pure_intro fun _ h => ⟨h, fun _ => rfl⟩
  · obtain ⟨waited', last, rfl, -, hstage⟩ := h
    exact ⟨waited', last, rfl, hstage⟩

omit follows in
theorem Pipeline.exists_last (pipeline : Pipeline HereDocument τ) :
    ∃ commands command, pipeline.commands = commands ++ [command] := by
  rcases pipeline with ⟨negated, first, rest, line⟩
  rcases List.eq_nil_or_concat (first :: rest) with hnil | ⟨commands, command, hconcat⟩
  · cases hnil
  · exact ⟨commands, command, hconcat.trans List.concat_eq_append⟩

omit follows in
theorem hasLastStage_eq {part : OpenPart τ} {pipeline : Pipeline HereDocument τ}
    (hnode : part.node = .pipeline pipeline) {commands : List (Command HereDocument τ)}
    {command : Command HereDocument τ} (hcommands : pipeline.commands = commands ++ [command])
    (position : Nat) : part.node.hasLastStage position = (position == commands.length) := by
  rw [hnode, Node.hasLastStage, hcommands, List.length_append, List.length_singleton]
  rcases Nat.decEq position commands.length with hne | heq
  · simp [hne]
  · simp [heq]

theorem triple_executeStages {part : OpenPart τ} {pipeline : Pipeline HereDocument τ}
    (hnode : part.node = .pipeline pipeline) {stages : List (Command HereDocument τ)}
    (hstages : pipeline.commands = stages) :
    Triple (AtStatus start count (part :: parts) status)
      (executeStages outcomes inner tested stages)
      (AtStatus start count (part :: parts)) (LeftBy start count (part :: parts)) := by
  obtain ⟨commands, command, hcommands⟩ := pipeline.exists_last
  have hlast := hasLastStage_eq hnode hcommands
  obtain rfl : stages = commands ++ [command] := hstages.symm.trans hcommands
  refine Triple.bind_intro (Q := fun _ => AtStatus start count (part :: parts) status)
    (Triple.get_intro fun _ hs => hs) fun seen => ?_
  refine Triple.bind_intro (steady_atStatus.consult _) fun made => ?_
  rw [List.map_append, List.map_singleton]
  generalize hchild : isChildStage (fun name => (seen.functions name).isSome) command = child
  generalize hstages : (commands.map fun command =>
    (command, isChildStage (fun name => (seen.functions name).isSome) command)) = stages
  have hlength : stages.length = commands.length := by rw [← hstages, List.length_map]
  rw [← hlength] at hlast
  split
  · refine Triple.bind_intro (triple_executePass follows tested true hlast) fun children =>
      Triple.of_pre fun s hs => ?_
    obtain ⟨children', childEnd, rfl, hchildren, hpass⟩ := hs
    rw [← hchildren] at hlast
    cases child with
    | true =>
        have hstatus : AtStatus start count (part :: parts) childEnd.1 s := hpass
        rw [hchildren] at hlast
        refine Triple.bind_intro ((triple_executePass follows tested false hlast).at_state hstatus)
          fun inShell => Triple.of_pre fun s₂ hs₂ => ?_
        obtain ⟨inShell', shellEnd, rfl, -, -, hstatus₂⟩ := hs₂
        rw [← hchildren] at hlast
        refine Triple.bind_intro ((triple_waitForStages outcomes hlast).at_state hstatus₂)
          fun waited => Triple.pure_intro fun s₃ hs₃ => ?_
        obtain ⟨waited', last, rfl, hstatus₃, hunstarted⟩ := hs₃
        rw [List.getLast?_concat, Option.map_some, Option.getD_some, if_pos rfl,
          List.getLast?_concat, Option.getD_some]
        cases hstarted : childEnd.2 with
        | true =>
            rw [hstarted, if_pos rfl] at hstatus₃
            exact hstatus₃
        | false =>
            rw [hstarted, if_neg (by decide)] at hstatus₃
            rw [hunstarted hstarted]
            exact hstatus₃
    | false =>
        obtain ⟨rfl, hstatus⟩ := hpass
        rw [hchildren] at hlast
        refine Triple.bind_intro ((triple_executePass follows tested false hlast).at_state hstatus)
          fun inShell => Triple.of_pre fun s₂ hs₂ => ?_
        obtain ⟨inShell', shellEnd, rfl, -, hstatus₂⟩ := hs₂
        have hstatus₂ : AtStatus start count (part :: parts) shellEnd.1 s₂ := hstatus₂
        rw [← hchildren] at hlast
        refine Triple.bind_intro ((triple_waitForStages outcomes hlast).at_state hstatus₂)
          fun waited => Triple.pure_intro fun s₃ hs₃ => ?_
        obtain ⟨waited', last, rfl, hstatus₃, -⟩ := hs₃
        rw [List.getLast?_concat, Option.map_some, Option.getD_some,
          if_neg Bool.false_ne_true, List.map_append, List.map_singleton, List.getLast?_concat,
          Option.getD_some]
        exact hstatus₃
  · exact triple_tell 2

theorem triple_executeJoined {part : OpenPart τ} {negated : Bool} {first : Command HereDocument τ}
    {rest : List (Command HereDocument τ)} {line : Nat}
    (hnode : part.node = .pipeline (.mk negated first rest line)) :
    Triple (AtStatus start count (part :: parts) status)
      (executeJoined outcomes inner tested first rest) (AtStatus start count (part :: parts))
      (LeftBy start count (part :: parts)) := by
  cases rest with
  | nil =>
      refine Triple.of_pre fun s hs => ?_
      refine (triple_commandPart follows tested .sole first hs).consequence (fun _ h => h)
        (fun told s h => h.atStatus fun last => rfl) fun failure s h =>
          h.leftBy fun leaving last _ => ?_
      exact OpenPart.left_eq rfl (by simp [partAt]) rfl leaving last
  | cons second rest =>
      have hstages : Triple (AtStatus start count (part :: parts) status)
          (executeStages outcomes inner tested (first :: second :: rest))
          (AtStatus start count (part :: parts)) (LeftBy start count (part :: parts)) :=
        triple_executeStages follows outcomes tested hnode rfl
      exact triple_logged tested .stages hstages

omit follows in
/-- The shell has stored a pipeline's status, of which the trace does not tell yet. -/
def Stored (start : Int) (count : Nat) (part : OpenPart τ) (parts : List (OpenPart τ)) (told : Int)
    (s : ExecState τ) : Prop :=
  s.lastExitStatus = told ∧ Reads start count (fun reading => ∃ last status continued,
    told = negate part.node.isNegated status ∧
      reading = { last, status, parts := part :: parts, continued }) s

theorem triple_executePipeline {part : OpenPart τ} {pipeline : Pipeline HereDocument τ}
    (hnode : part.node = .pipeline pipeline) :
    Triple (AtStatus start count (part :: parts) status)
      (executePipeline outcomes inner tested pipeline) (Stored start count part parts)
      (LeftBy start count (part :: parts)) := by
  rcases pipeline with ⟨negated, first, rest, line⟩
  refine Triple.bind_intro (triple_executeJoined follows outcomes tested hnode) fun told => ?_
  refine Triple.bind_intro (Q := fun _ => Stored start count part parts (negate negated told))
    (Triple.modify_intro fun s h => ⟨rfl, h.mono rfl le_rfl fun reading hreading => ?_⟩)
    fun _ => Triple.pure_intro fun _ h => h
  obtain ⟨continued, rfl⟩ := hreading
  exact ⟨_, told, continued, by rw [hnode]; rfl, rfl⟩

theorem triple_pipelinePart {place : Place}
    (hplace : place = .operand ∨ place = .last ∨ place = .negated) {part : OpenPart τ}
    (hforeground : part.place ≠ .background) (pipeline : Pipeline HereDocument τ) :
    Triple (AtStatus start count (part :: parts) status)
      (inPart place (.pipeline pipeline) (executePipeline outcomes inner tested pipeline))
      (AtStatus start count (part :: parts)) (LeftBy start count (part :: parts)) := by
  refine Triple.of_pre fun s hs => ?_
  set opened := partAt s place (.pipeline pipeline) status with hopened
  refine (triple_inPart (Q := Stored start count opened (part :: parts))
    (F := LeftBy start count (opened :: part :: parts))
    (G := LeftAs start count opened (part :: parts)) ?_ (fun told s' h => ?_)
    fun _ _ h => h.quits).consequence (fun _ h => h) (fun _ _ h => h)
    fun failure s' h => h.leftBy fun leaving last _ => ?_
  · exact (triple_executePipeline follows outcomes tested rfl).at_state
      (hs.opens place (.pipeline pipeline))
  · refine h.2.log fun reading hreading hsettles => ⟨trivial, false, ?_⟩
    obtain ⟨last, status', continued, hnegate, rfl⟩ := hreading
    have hended : opened.ended (part :: parts) status' last =
        { last := negate opened.node.isNegated status'
          status := negate opened.node.isNegated status'
          parts := part :: parts } := by
      have hbackground : (part.place = .background) = False := eq_false hforeground
      rcases hplace with rfl | rfl | rfl <;>
        simp [OpenPart.ended, hopened, partAt, hbackground, negate]
    rw [← hnegate] at hended
    rw [h.1]
    exact hended
  · refine OpenPart.left_eq ?_ ?_ ?_ leaving last
    · rcases hplace with rfl | rfl | rfl <;> rfl
    · rcases hplace with rfl | rfl | rfl <;> simp [hopened, partAt]
    · rcases hplace with rfl | rfl | rfl <;> rfl

/-! ### Lists -/

omit follows in
theorem triple_unlessSkipped {m : Exec τ Int}
    (hm : Triple (AtStatus start count parts status) m (AtStatus start count parts)
      (LeftBy start count parts)) (run : Bool) :
    Triple (AtStatus start count parts status) (unlessSkipped run m)
      (fun ended => AtStatus start count parts (ended.getD status)) (LeftBy start count parts) := by
  unfold unlessSkipped
  split
  · refine Triple.bind_intro triple_checkNoExec fun skips => ?_
    split
    · exact Triple.pure_intro fun _ h => h
    · exact Triple.bind_intro hm fun _ => Triple.pure_intro fun _ h => h
  · exact Triple.pure_intro fun _ h => h

theorem triple_executeChain {part : OpenPart τ} (hforeground : part.place ≠ .background) :
    ∀ andOr run status, Triple (AtStatus start count (part :: parts) status)
      (executeChain outcomes inner tested run status andOr)
      (fun ended => AtStatus start count (part :: parts) ended.1)
      (LeftBy start count (part :: parts))
  | .last pipeline, run, status => by
      have hplace : lastPlace pipeline = .operand ∨ lastPlace pipeline = .last ∨
          lastPlace pipeline = .negated := by
        rw [lastPlace]
        split <;> simp
      exact Triple.bind_intro (triple_unlessSkipped (triple_pipelinePart follows outcomes _ hplace
        hforeground pipeline) run) fun _ => Triple.pure_intro fun _ h => h
  | .chain pipeline operator rest, run, status =>
      Triple.bind_intro (triple_unlessSkipped (triple_pipelinePart follows outcomes _ (.inl rfl)
        hforeground pipeline) run) fun ended =>
          triple_executeChain hforeground rest (continues operator (ended.getD status)) _

theorem triple_executeAndOr {part : OpenPart τ} (hforeground : part.place ≠ .background)
    (andOr : AndOrList HereDocument τ) :
    Triple (fun s => AtStatus start count (part :: parts) s.lastExitStatus s)
      (executeAndOr outcomes inner tested andOr) (AtStatus start count (part :: parts))
      (LeftBy start count (part :: parts)) := by
  refine Triple.of_pre fun s hs => Triple.at_bind (exec_get s) ?_
  refine Triple.at_bind (m := log _) rfl ?_
  have hentered : AtStatus start count (part :: parts) s.lastExitStatus
      { s with trace := .enters andOr tested :: s.trace } :=
    AtStatus.note hs (fun _ => trivial) fun _ => rfl
  refine Triple.bind_intro ((triple_executeChain follows outcomes tested hforeground andOr true
    _).at_state hentered) fun ended => ?_
  refine Triple.bind_intro (Q := fun _ => AtStatus start count (part :: parts) ended.1)
    (Triple.get_intro fun _ h => h) fun after => ?_
  split
  · refine Triple.bind_intro (Q := fun _ => LeftBy start count (part :: parts) (.exit ended.1))
      (Triple.modify_intro fun s h => h.log fun reading hreading _ => ⟨trivial, ?_⟩)
      fun _ => Triple.throw_intro fun _ h => h
    obtain ⟨continued, rfl⟩ := hreading
    rintro leaving ⟨⟩
    exact ⟨rfl, rfl, rfl⟩
  · exact Triple.pure_intro fun _ h => h

omit follows in
theorem triple_startBackgroundShell :
    Triple (AtStatus start count parts status) (startBackgroundShell outcomes)
      (AtStatus start count parts) (LeftBy start count parts) := by
  refine Triple.bind_intro (steady_atStatus.consult _) fun started => ?_
  refine Triple.bind_intro (Q := fun _ => AtStatus start count parts (if started then 0 else 2))
    (Triple.modify_intro fun s h => h.log fun reading hreading _ => ?_)
    fun _ => Triple.pure_intro fun _ h => h
  obtain ⟨continued, rfl⟩ := hreading
  exact ⟨trivial, continued, rfl⟩

theorem triple_backgroundStages {part : OpenPart τ} {pipeline : Pipeline HereDocument τ}
    (hnode : part.node = .pipeline pipeline) :
    Triple (AtStatus start count (part :: parts) status) (do
        if ← consult outcomes.pipesMade then
          let stages ← executePass inner tested true
            (pipeline.commands.map fun command => (command, true))
          log (.job (stages.any (·.2)))
          pure (if stages.any (·.2) then 0 else (stages.getLast?.map (·.1)).getD 0)
        else tell 2)
      (AtStatus start count (part :: parts)) (LeftBy start count (part :: parts)) := by
  obtain ⟨commands, command, hcommands⟩ := pipeline.exists_last
  have hlast := hasLastStage_eq hnode hcommands
  refine Triple.bind_intro (steady_atStatus.consult _) fun made => ?_
  rw [hcommands, List.map_append, List.map_singleton]
  have hlength : (commands.map fun command => (command, true)).length = commands.length :=
    List.length_map _
  rw [← hlength] at hlast
  split
  · refine Triple.bind_intro (triple_executePass follows tested true hlast) fun stages =>
      Triple.of_pre fun s hs => ?_
    obtain ⟨stages', last, rfl, -, hpass⟩ := hs
    have hstatus : AtStatus start count (part :: parts) last.1 s := hpass
    rw [List.getLast?_concat, Option.map_some, Option.getD_some]
    generalize (stages' ++ [last]).any (·.2) = started
    have hjob : AtStatus start count (part :: parts) (if started then 0 else last.1)
        { s with trace := .job started :: s.trace } := by
      refine hstatus.log fun reading hreading _ => ⟨trivial, ?_⟩
      obtain ⟨continued, rfl⟩ := hreading
      refine ⟨continued, ?_⟩
      cases started <;> rfl
    exact Triple.at_bind (m := log _) rfl (Triple.at_pure hjob)
  · exact triple_tell 2

theorem triple_startBackground {part : OpenPart τ} (hbackground : part.place = .background) :
    ∀ andOr, Triple (AtStatus start count (part :: parts) status)
      (startBackground outcomes inner tested andOr) (AtStatus start count (part :: parts))
      (LeftBy start count (part :: parts))
  | .chain _ _ _ => Triple.bind_intro (Q := fun _ => AtStatus start count (part :: parts) status)
      (Triple.get_intro fun _ h => h) fun _ => triple_startBackgroundShell outcomes
  | .last pipeline => by
      refine Triple.bind_intro (Q := fun _ => AtStatus start count (part :: parts) status)
        (Triple.get_intro fun _ h => h) fun seen => ?_
      dsimp only
      split
      · refine Triple.bind_intro (Q := fun _ => AtStatus start count (part :: parts) status)
          (Triple.modify_intro fun s h => h.note (fun _ => trivial) fun _ => rfl) fun _ =>
            Triple.of_pre fun s hs => ?_
        refine (triple_part (triple_logged tested .stages
          ((triple_backgroundStages follows outcomes tested rfl).at_state
            (hs.opens (lastPlace pipeline) (.pipeline pipeline))))).consequence (fun _ h => h)
          (fun told s' h => h.atStatus fun last => ?_) fun failure s' h =>
            h.leftBy fun leaving last _ => ?_
        · rw [lastPlace]
          split <;> simp [OpenPart.ended, partAt, hbackground]
        · rw [lastPlace]
          split <;> exact OpenPart.left_eq rfl (by simp [partAt]) rfl leaving last
      · exact triple_startBackgroundShell outcomes

theorem triple_executeItem (item : ListItem HereDocument τ) :
    Triple (AtStatus start count parts status) (executeItem outcomes inner tested item)
      (AtStatus start count parts) (LeftBy start count parts) := by
  refine Triple.of_pre fun s hs => ?_
  cases hitem : item.background with
  | true =>
      have hplace : itemPlace item = .background := by rw [itemPlace, if_pos hitem]
      rw [executeItem, hplace, if_pos hitem]
      refine (triple_part ((triple_startBackground follows outcomes tested rfl item.andOr).at_state
        (hs.opens .background (.andOr item.andOr)))).consequence (fun _ h => h)
        (fun told s' h => h.mono rfl le_rfl fun reading hreading => ⟨false, ?_⟩) fun failure s' h =>
          h.leftBy fun leaving last _ => ?_
      · rw [hreading.1, hreading.2 rfl]
        rfl
      · exact OpenPart.left_eq rfl (by simp [partAt]) rfl leaving last
  | false =>
      have hplace : itemPlace item = .item := by
        rw [itemPlace, if_neg (by simp [hitem])]
      rw [executeItem, hplace, if_neg (by simp [hitem])]
      have hforeground : (partAt s .item (.andOr item.andOr) status).place ≠ .background := by
        simp [partAt]
      refine (triple_part ((triple_executeAndOr follows outcomes tested hforeground
        item.andOr).at_state (hs.opens .item (.andOr item.andOr)))).consequence (fun _ h => h)
        (fun told s' h => h.atStatus fun last => rfl) fun failure s' h =>
          h.leftBy fun leaving last _ => ?_
      exact OpenPart.left_eq rfl (by simp [partAt]) rfl leaving last

theorem triple_executeItems : ∀ items status,
    Triple (AtStatus start count parts status) (executeItems outcomes inner tested status items)
      (AtStatus start count parts) (LeftBy start count parts)
  | [], _ => Triple.pure_intro fun _ h => h
  | item :: rest, status => by
      refine Triple.bind_intro triple_checkNoExec fun skips => ?_
      split
      · exact triple_executeItems rest status
      · exact Triple.bind_intro (triple_executeItem follows outcomes tested item) fun told =>
          triple_executeItems rest told

theorem triple_executeList (items : CommandList HereDocument τ) :
    Triple (fun s => AtStatus start count parts s.lastExitStatus s)
      (executeList outcomes inner tested items) (AtStatus start count parts)
      (LeftBy start count parts) :=
  Triple.of_pre fun s hs => Triple.at_bind (exec_get s)
    ((triple_executeItems follows outcomes tested items _).at_state hs)

theorem Executor.Follows.step :
    Executor.Follows start
      { list := executeList outcomes inner
        command := executeCommand outcomes inner
        round := executeRound inner } where
  list tested items _ _ := triple_executeList follows outcomes tested items
  command tested _ _ _ _ hnode := triple_executeCommand follows outcomes tested hnode
  round tested kind condition body _ _ _ _ hloop :=
    triple_executeRound follows tested hloop kind condition body

end

end Haisos.Hsh
