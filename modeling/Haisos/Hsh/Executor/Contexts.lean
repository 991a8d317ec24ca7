import Haisos.Hsh.Executor.Errexit

/-!
# Tested contexts

What is tested is read off the program: a part is tested if it, or a part around it,
stands where a failure is looked at.  The counter agrees, so `-e` ends the shell only
for what failed outside every such part.
-/

namespace Haisos.Hsh

open StateExcept

variable {τ : Type}

/-! ## The program in the trace -/

def openParts : List (Event τ) → List (Place × Node τ)
  | [] => []
  | .opens place node :: before => (place, node) :: openParts before
  | .closes :: before | .quits :: before => (openParts before).tail
  | _ :: before => openParts before

def openNode (trace : List (Event τ)) : Option (Node τ) := (openParts trace).head?.map Prod.snd

/-- Each part is run where it stands in the program. -/
def Placed : List (Event τ) → Prop
  | [] => True
  | .opens place node :: before => StandsIn (openNode before) place node ∧ Placed before
  | _ :: before => Placed before

def untested (trace : List (Event τ)) : Bool :=
  (openParts trace).all fun part => !part.1.isTested

/-- After `since` events a command failed outside every tested context. -/
def failedUntested (since : Nat) : List (Event τ) → Bool
  | [] => false
  | .ran _ status _ :: before =>
      since ≤ before.length && status != 0 && untested before || failedUntested since before
  | _ :: before => failedUntested since before

/-- Each time `-e` ended the shell, something failed outside every tested context in the list. -/
def ErrexitJustified : List (Event τ) → Prop
  | [] => True
  | .errexit _ since :: before => failedUntested since before = true ∧ ErrexitJustified before
  | _ :: before => ErrexitJustified before

instance decidableErrexitJustified : (trace : List (Event τ)) → Decidable (ErrexitJustified trace)
  | [] => inferInstanceAs (Decidable True)
  | event :: before =>
      have := decidableErrexitJustified before
      match event with
      | .errexit _ _ => inferInstanceAs (Decidable (_ ∧ ErrexitJustified before))
      | .opens _ _ | .closes | .quits | .enters _ _ | .starts _ _ | .ran _ _ _ | .skipped
        | .background _ | .expands _ | .told _ | .waited _ _ | .job _ | .rejected | .jumps _ => this

/--
What a step has to be like for `-e` to decide right: outside every tested context, an
and-or list owns the status of its last pipeline and no `!` pipeline is started in the
background; `-n` skips nothing, and a child hsh can be started.
-/
def Event.RegularAfter (before : List (Event τ)) : Event τ → Prop
  | .enters andOr _ => untested before = true → lastOwnsStatus andOr = true
  | .starts pipeline _ => untested before = true → pipeline.negated = false
  | .skipped => False
  | .background started => started = true
  | _ => True

def Regular : List (Event τ) → Prop
  | [] => True
  | event :: before => event.RegularAfter before ∧ Regular before

instance (before : List (Event τ)) : (event : Event τ) → Decidable (event.RegularAfter before)
  | .enters _ _ | .starts _ _ => inferInstanceAs (Decidable (_ → _))
  | .skipped => inferInstanceAs (Decidable False)
  | .background _ => inferInstanceAs (Decidable (_ = true))
  | .opens _ _ | .closes | .quits | .ran _ _ _ | .errexit _ _ | .expands _ | .told _ | .waited _ _
    | .job _ | .rejected | .jumps _ => inferInstanceAs (Decidable True)

instance decidableRegular : (trace : List (Event τ)) → Decidable (Regular trace)
  | [] => inferInstanceAs (Decidable True)
  | event :: before =>
      have := decidableRegular before
      inferInstanceAs (Decidable (event.RegularAfter before ∧ Regular before))

/-! ## The counter -/

def Event.CountedAfter (before : List (Event τ)) : Event τ → Prop
  | .enters _ tested | .starts _ tested | .ran _ _ tested =>
      Regular before → tested = 0 → untested before = true
  | _ => True

def Counted : List (Event τ) → Prop
  | [] => True
  | event :: before => event.CountedAfter before ∧ Counted before

/-- A computation starts in the part `node`, so many tested contexts deep. -/
structure InContext (node : Option (Node τ)) (tested : Nat) (s : ExecState τ) : Prop where
  node : openNode s.trace = node
  counted : Regular s.trace → tested = 0 → untested s.trace = true

structure KeepsContext (s s' : ExecState τ) : Prop where
  parts : openParts s'.trace = openParts s.trace
  regular : Regular s'.trace → Regular s.trace
  placed : Placed s.trace → Placed s'.trace
  counted : Counted s.trace → Counted s'.trace

namespace KeepsContext

theorem trans {s₁ s₂ s₃ : ExecState τ} (h : KeepsContext s₁ s₂) (h' : KeepsContext s₂ s₃) :
    KeepsContext s₁ s₃ :=
  ⟨h'.parts.trans h.parts, h.regular ∘ h'.regular, h'.placed ∘ h.placed, h'.counted ∘ h.counted⟩

theorem of_trace_eq {s s' : ExecState τ} (h : s'.trace = s.trace) : KeepsContext s s' := by
  constructor <;> rw [h] <;> exact id

theorem context {node : Option (Node τ)} {tested : Nat} {s s' : ExecState τ}
    (h : KeepsContext s s') (hs : InContext node tested s) : InContext node tested s' where
  node := by
    rw [openNode, h.parts]
    exact hs.node
  counted hregular hzero := by
    rw [untested, h.parts]
    exact hs.counted (h.regular hregular) hzero

end KeepsContext

/-- In the part `node`, `m` leaves no part open and keeps to the program. -/
def KeptIn {α : Type} (node : Option (Node τ)) (tested : Nat) (m : Exec τ α) : Prop :=
  ∀ s, InContext node tested s → KeepsContext s (exec m s).2

namespace KeptIn

variable {α β : Type} {node : Option (Node τ)} {tested : Nat}

theorem bind {m : Exec τ α} {f : α → Exec τ β} (hm : KeptIn node tested m)
    (hf : ∀ a, KeptIn node tested (f a)) : KeptIn node tested (m >>= f) := by
  intro s hs
  have hfirst := hm s hs
  rw [exec_bind]
  rcases hrun : exec m s with ⟨failure | a, s'⟩
  · rw [hrun] at hfirst
    exact hfirst
  · rw [hrun] at hfirst
    exact hfirst.trans (hf a s' (hfirst.context hs))

theorem tryCatch {m : Exec τ α} {handler : Failure → Exec τ α} (hm : KeptIn node tested m)
    (hhandler : ∀ failure, KeptIn node tested (handler failure)) :
    KeptIn node tested (tryCatchThe Failure m handler) := by
  intro s hs
  have hfirst := hm s hs
  have hcaught : exec (tryCatchThe Failure m handler) s = _ := exec_tryCatch m handler s
  rw [hcaught]
  rcases hrun : exec m s with ⟨failure | a, s'⟩
  · rw [hrun] at hfirst
    exact hfirst.trans (hhandler failure s' (hfirst.context hs))
  · rw [hrun] at hfirst
    exact hfirst

theorem of_trace_eq {m : Exec τ α} (h : ∀ s, (exec m s).2.trace = s.trace) :
    KeptIn node tested m := fun s _ => .of_trace_eq (h s)

theorem log {event : Event τ} (hparts : ∀ before, openParts (event :: before) = openParts before)
    (hplaced : ∀ before, Placed before → Placed (event :: before))
    (hcounted : ∀ before, (Regular before → tested = 0 → untested before = true) →
      event.CountedAfter before) : KeptIn node tested (Hsh.log event) := fun s hs =>
  ⟨hparts s.trace, And.right, hplaced s.trace, fun h => ⟨hcounted s.trace hs.counted, h⟩⟩

theorem inPart_at {place : Place} {part : Node τ} {inside : Nat} {m : Exec τ α} {s : ExecState τ}
    (hplaced : StandsIn (openNode s.trace) place part)
    (hcounted : Regular s.trace → inside = 0 → untested s.trace = true ∧ place.isTested = false)
    (hm : KeptIn (some part) inside m) : KeepsContext s (exec (inPart place part m) s).2 := by
  set opened : ExecState τ := { s with trace := .opens place part :: s.trace } with hopened
  have hcontext : InContext (some part) inside opened :=
    { node := rfl
      counted := fun hregular hzero => by
        obtain ⟨huntested, hplace⟩ := hcounted hregular.2 hzero
        rw [untested, hopened, openParts, List.all_cons, hplace]
        exact huntested }
  have hkept := hm opened hcontext
  have hlog (event : Event τ) (s : ExecState τ) :
      exec (Hsh.log event) s = (.ok (), { s with trace := event :: s.trace }) := rfl
  have hleft {left : Event τ} (hleft : left = .closes ∨ left = .quits) :
      KeepsContext s { (exec m opened).2 with trace := left :: (exec m opened).2.trace } := by
    rcases hleft with rfl | rfl <;>
      exact ⟨congrArg List.tail hkept.parts, fun h => (hkept.regular h.2).2,
        fun h => hkept.placed ⟨hplaced, h⟩, fun h => ⟨trivial, hkept.counted ⟨trivial, h⟩⟩⟩
  rw [inPart, exec_bind_ok (hlog _ s), exec_tryCatch, exec_bind]
  rcases hrun : exec m opened with ⟨failure | a, s'⟩
  · rw [hrun] at hleft
    exact hleft (.inr rfl)
  · rw [hrun] at hleft
    exact hleft (.inl rfl)

end KeptIn

theorem KeptIn.note {node : Option (Node τ)} {tested : Nat} {event : Event τ}
    (h : event.isNote = true) : KeptIn node tested (Hsh.log event) := by
  cases event with
  | opens | closes | quits | enters | starts | ran | errexit => cases h
  | _ => exact .log (fun _ => rfl) (fun _ => id) fun _ _ => trivial

theorem contextDiscipline {inner : Executor τ}
    (list : ∀ tested items, KeptIn (some (.list items)) tested (inner.list tested items))
    (command : ∀ tested command, KeptIn (some (.command command)) tested
      (inner.command tested command))
    (round : ∀ {node} tested kind condition body status, Stands node .condition (.list condition) →
      Stands node .body (.list body) →
      KeptIn (some node) tested (inner.round tested kind condition body status)) :
    PartDiscipline (fun {_} => KeptIn) inner where
  pure _ := .of_trace_eq fun _ => rfl
  throw _ := .of_trace_eq fun _ => rfl
  bind := .bind
  tryCatch := .tryCatch
  get := .of_trace_eq fun _ => rfl
  consult _ := .of_trace_eq fun _ => rfl
  modifies h := .of_trace_eq h
  notes := .note
  ran _ _ := .log (fun _ => rfl) (fun _ => id) fun _ => id
  inPart hstands hinside hm s hs :=
    KeptIn.inPart_at (hs.node ▸ hstands) (fun hregular hzero =>
      ⟨hs.counted hregular (hinside hzero).1, (hinside hzero).2⟩) hm
  starts {pipeline tested m} hm s hs := by
    set started : ExecState τ := { s with trace := .starts pipeline tested :: s.trace }
    have hstarted : KeepsContext s started := ⟨rfl, And.right, id, fun h => ⟨hs.counted, h⟩⟩
    have hnode : openNode started.trace = some (.andOr (.last pipeline)) := hs.node
    have hstands : StandsIn (openNode started.trace) (lastPlace pipeline) (.pipeline pipeline) := by
      rw [hnode]
      exact stands_lastPlace (.last pipeline)
    refine hstarted.trans (KeptIn.inPart_at hstands (fun hregular hzero => ?_) hm)
    have huntested := hs.counted hregular.2 hzero
    -- A `!` pipeline is not counted here, but such a step is not regular.
    refine ⟨huntested, ?_⟩
    rw [lastPlace, if_neg (by simp [hregular.1 huntested])]
    rfl
  list := list
  command := command
  round := round

section

variable (outcomes : Outcomes τ) {inner : Executor τ}
  (discipline : PartDiscipline (fun {_} => KeptIn) inner)

include discipline

theorem keptIn_executeAndOr (tested : Nat) (andOr : AndOrList HereDocument τ) :
    KeptIn (some (.andOr andOr)) tested (executeAndOr outcomes inner tested andOr) := by
  refine discipline.bind discipline.get fun before => ?_
  refine discipline.bind (.log (fun _ => rfl) (fun _ => id) fun _ => id) fun _ => ?_
  refine discipline.bind
    (discipline.executeChain outcomes tested true _ andOr (fun _ => id) rfl) fun ended => ?_
  refine discipline.bind discipline.get fun after => ?_
  split
  · exact discipline.bind (.log (fun _ => rfl) (fun _ => id) fun _ _ => trivial) fun _ =>
      discipline.throw _
  · exact discipline.pure _

theorem keptIn_step : PartDiscipline (fun {_} => KeptIn)
    { list := executeList outcomes inner
      command := executeCommand outcomes inner
      round := executeRound inner } :=
  contextDiscipline
    (fun tested items => discipline.executeList outcomes tested
      (keptIn_executeAndOr outcomes discipline tested) items)
    (discipline.executeCommand outcomes)
    fun tested kind _ _ status hcondition hbody =>
      discipline.executeRound tested hcondition hbody kind status

end

theorem executor_keptIn (outcomes : Outcomes τ) :
    ∀ fuel, PartDiscipline (fun {_} => KeptIn) (executor outcomes fuel)
  | 0 => contextDiscipline (fun _ _ => .of_trace_eq fun _ => rfl)
      (fun _ _ => .of_trace_eq fun _ => rfl) fun _ _ _ _ _ _ _ => .of_trace_eq fun _ => rfl
  | fuel + 1 => keptIn_step outcomes (executor_keptIn outcomes fuel)

theorem keepsContext_runScript (outcomes : Outcomes τ) (fuel : Nat)
    (script : List (CommandList HereDocument τ)) {s : ExecState τ} (hs : s.trace = []) :
    KeepsContext s (exec (runScript outcomes fuel script) s).2 := by
  have hkept := executor_keptIn outcomes fuel
  have hstands (items : CommandList HereDocument τ) : StandsIn none .evaluated (.list items) := rfl
  have hrun : KeptIn none 0 (runScript outcomes fuel script) :=
    hkept.bind hkept.get fun _ => hkept.executeCommands 0 hstands rfl none _ script
  refine hrun s ⟨?_, fun _ _ => ?_⟩
  · rw [hs]
    rfl
  · rw [hs]
    rfl

/-! ## What the counter justifies -/

theorem regularByCount_of_regular {trace : List (Event τ)} (hcounted : Counted trace)
    (hregular : Regular trace) : ∀ event ∈ trace, event.RegularByCount := by
  induction trace with
  | nil => simp
  | cons event before ih =>
      intro event' hmem
      rcases List.mem_cons.mp hmem with rfl | hmem
      · cases event' with
        | enters andOr tested =>
            exact fun hzero => hregular.1 (hcounted.1 hregular.2 hzero)
        | skipped => exact hregular.1
        | background started => exact hregular.1
        | _ => exact trivial
      · exact ih hcounted.2 hregular.2 event' hmem

theorem failedUntested_of_count {since : Nat} {trace : List (Event τ)} (hcounted : Counted trace)
    (hregular : Regular trace) (h : ∃ event ∈ eventsSince since trace, event.failedByCount) :
    failedUntested since trace = true := by
  induction trace with
  | nil =>
      obtain ⟨event, hmem, -⟩ := h
      simp [eventsSince] at hmem
  | cons event before ih =>
      have hlater : (∃ event ∈ eventsSince since before, event.failedByCount) →
          failedUntested since (event :: before) = true := by
        intro h
        have hbefore := ih hcounted.2 hregular.2 h
        cases event <;> simp [failedUntested, hbefore]
      obtain ⟨failing, hmem, hfailed⟩ := h
      rw [eventsSince, List.length_cons] at hmem
      by_cases hsince : since ≤ before.length
      · rw [Nat.succ_sub hsince, List.take_succ_cons, List.mem_cons] at hmem
        rcases hmem with rfl | hmem
        · cases failing with
          | ran what status tested =>
              simp only [Event.failedByCount, Bool.and_eq_true, decide_eq_true_eq] at hfailed
              have huntested := hcounted.1 hregular.2 hfailed.2
              simp [failedUntested, hsince, hfailed.1, huntested]
          | _ => cases hfailed
        · exact hlater ⟨failing, hmem, hfailed⟩
      · rw [Nat.sub_eq_zero_of_le (Nat.succ_le_of_lt (Nat.lt_of_not_le hsince))] at hmem
        cases hmem

theorem errexitJustified_of_count {trace : List (Event τ)} (hcounted : Counted trace)
    (hregular : Regular trace) (h : JustifiedByCount trace) : ErrexitJustified trace := by
  induction trace with
  | nil => exact trivial
  | cons event before ih =>
      cases event with
      | errexit status since =>
          exact ⟨failedUntested_of_count hcounted.2 hregular.2 h.1, ih hcounted.2 hregular.2 h.2⟩
      | _ => exact ih hcounted.2 hregular.2 h

/--
In every run each part is run where it stands in the program; if its steps are all
regular, `-e` ends the shell only for what failed outside every tested context: every run,
however its commands turn out, up to any depth.
-/
theorem runScript_errexitJustified (outcomes : Outcomes τ) (fuel : Nat)
    (script : List (CommandList HereDocument τ)) (s : ExecState τ) (hs : s.trace = []) :
    Placed (exec (runScript outcomes fuel script) s).2.trace ∧
      (Regular (exec (runScript outcomes fuel script) s).2.trace →
        ErrexitJustified (exec (runScript outcomes fuel script) s).2.trace) := by
  have hkept := keepsContext_runScript outcomes fuel script hs
  have hcounted := hkept.counted (hs ▸ trivial)
  refine ⟨hkept.placed (hs ▸ trivial), fun hregular => ?_⟩
  refine errexitJustified_of_count hcounted hregular ?_
  exact runScript_justifiedByCount outcomes fuel script s hs
    (regularByCount_of_regular hcounted hregular)

/-- Every word is its literal text, and every command succeeds but `false`. -/
def literalOutcomes : Outcomes Unit where
  stopRequested _ := false
  words _ words := { value := .ok (words.filterMap Word.literalText) }
  subject _ word := { value := .ok (word.literalText.getD []) }
  patternMatches _ pattern subject := { value := .ok (pattern.literalText = some subject) }
  redirections _ _ := { value := .ok none }
  assignmentValues _ _ := { value := .ok () }
  assign _ _ := none
  builtin _ fields := .status (if fields = [text "false"] then 1 else 0)
  program _ _ := .started
  waitForChild _ := some 0
  positional _ := []
  pipesMade _ := true
  shellStarted _ := true

def namedCommand (name : String) : Command HereDocument Unit :=
  .simple { words := [{ parts := [.literal (text name)] }] }

def piped (command : Command HereDocument Unit) (negated : Bool) : Pipeline HereDocument Unit :=
  .mk negated command [] 1

def itemOf (command : Command HereDocument Unit) : ListItem HereDocument Unit :=
  .mk (.last (piped command false)) false ()

def compoundOf (body : Compound HereDocument Unit) : Command HereDocument Unit :=
  .compound body [] 1

def errexitState : ExecState Unit where
  options := { errexit := true }

/-- The trace of a script under `-e`. -/
def errexitTrace (script : CommandList HereDocument Unit) : List (Event Unit) :=
  (exec (runScript literalOutcomes 9 [script]) errexitState).2.trace

/-- `if false; then true; fi; false || ! true; while false; do true; done; true && ( false )` -/
def testedScript : CommandList HereDocument Unit :=
  [itemOf (compoundOf (.ifCommand [.mk [itemOf (namedCommand "false")]
      [itemOf (namedCommand "true")]] none)),
    .mk (.chain (piped (namedCommand "false") false) .or
      (.last (piped (namedCommand "true") true))) false (),
    itemOf (compoundOf (.loop .whileLoop [itemOf (namedCommand "false")]
      [itemOf (namedCommand "true")])),
    .mk (.chain (piped (namedCommand "true") false) .and
      (.last (piped (compoundOf (.subshell [itemOf (namedCommand "false")])) false))) false ()]

theorem runScript_errexitJustified_tested :
    (errexitTrace testedScript).any (· matches .errexit _ _) = true ∧
      ErrexitJustified (errexitTrace testedScript) := by
  have hjustified (script : CommandList HereDocument Unit) (h : Regular (errexitTrace script)) :
      ErrexitJustified (errexitTrace script) :=
    (runScript_errexitJustified literalOutcomes 9 [script] errexitState rfl).2 h
  refine ⟨by decide +kernel, ?_⟩
  generalize hscript : testedScript = script
  refine hjustified script ?_
  rw [← hscript]
  decide +kernel

/-- `{ false && true; }`: nothing failed outside a tested context. -/
theorem not_errexitJustified_braced :
    ¬ErrexitJustified (errexitTrace [itemOf (compoundOf (.braceGroup
      [.mk (.chain (piped (namedCommand "false") false) .and
        (.last (piped (namedCommand "true") false))) false ()]))]) := by
  decide +kernel

end Haisos.Hsh
