import Haisos.Hsh.Expansion.Fields
import Haisos.Hsh.Shell.Subshells

/-!
# Starting a stage

A stage that looks like a program is started before the stages that run in the
shell.  It is looked up again once its words are expanded: what it then runs is
followed through its expansions, its redirections and its lookup.
-/

namespace Haisos.Hsh.Shell

open StateExcept

variable {ω D P α β : Type}

/-! ## Preparing a command -/

/-- What a command does besides the files and the variables, and what it goes by. -/
structure Doings (P : Type) where
  options : ShellOptions
  functions : List (Text × FunctionDefinition)
  substitutionCount : Nat
  startInsteadOfWait : Option Nat
  stageChildren : List (Option P)
  events : List ControlEvent
  childEvents : List (ChildEvent P)

def doings (world : World (Members ω D P)) : Doings P where
  options := world.state.options
  functions := world.outside.functions
  substitutionCount := world.outside.substitutionCount
  startInsteadOfWait := world.outside.startInsteadOfWait
  stageChildren := world.outside.stageChildren
  events := world.outside.events
  childEvents := world.outside.childEvents

def IsPlain : Failure → Prop
  | .exit status => status = exitCodeBrokenPipe
  | .shellError _ | .stopped | .outOfFuel => True
  | .functionReturn _ | .loopControl _ _ => False

def Prepares (m : Sh ω D P α) : Prop :=
  ∀ world, doings (exec m world).2 = doings world ∧
    ∀ failure, (exec m world).1 = .error failure → IsPlain failure

namespace Prepares

theorem pure (a : α) : Prepares (Pure.pure a : Sh ω D P α) := fun _ => ⟨rfl, nofun⟩

theorem throw {failure : Failure} (h : IsPlain failure) :
    Prepares (MonadExcept.throw failure : Sh ω D P α) :=
  fun _ => ⟨rfl, fun _ hthrown => by cases hthrown; exact h⟩

theorem bind {m : Sh ω D P α} {f : α → Sh ω D P β} (hm : Prepares m) (hf : ∀ a, Prepares (f a)) :
    Prepares (m >>= f) := by
  intro world
  obtain ⟨hsame, hfails⟩ := hm world
  rw [exec_bind]
  rcases hrun : exec m world with ⟨failure | a, world'⟩
  · rw [hrun] at hsame hfails
    exact ⟨hsame, fun _ hthrown => hfails _ (by cases hthrown; rfl)⟩
  · rw [hrun] at hsame
    exact ⟨(hf a world').1.trans hsame, (hf a world').2⟩

theorem compositional : Compositional fun {_} (m : Sh ω D P _) => Prepares m where
  pure := pure
  bind := bind

theorem ite {c : Prop} [Decidable c] {m m' : Sh ω D P α} (hm : Prepares m) (hm' : Prepares m') :
    Prepares (if c then m else m') := by
  split
  · exact hm
  · exact hm'

theorem of_modifyGet {f : World (Members ω D P) → α × World (Members ω D P)}
    (h : ∀ world, doings (f world).2 = doings world) : Prepares (modifyGet f : Sh ω D P α) :=
  fun world => ⟨h world, nofun⟩

theorem get : Prepares (MonadState.get : Sh ω D P _) := fun _ => ⟨rfl, nofun⟩

theorem getState : Prepares (Hsh.getState : Sh ω D P ShellState) := bind get fun _ => pure _

theorem getMembers : Prepares (Shell.getMembers : Sh ω D P (Members ω D P)) :=
  bind get fun _ => pure _

theorem look (f : Members ω D P → α) : Prepares (Hsh.look f) := bind get fun _ => pure _

theorem onOutside (f : ω → α × ω) : Prepares (Hsh.perform (Members.onOutside f) : Sh ω D P α) :=
  of_modifyGet fun _ => rfl

theorem fail (message : Text) : Prepares (Shell.fail message : Sh ω D P α) :=
  bind getMembers fun _ => throw trivial

/-! ### Expansions and redirections -/

theorem arithmeticValue (expression : Text) :
    Prepares (Hsh.arithmeticValue expression : Sh ω D P Text) := by
  intro world
  have hstore : ((Arithmetic.evaluateArithmetic shellArithmeticVariables expression
      world.state).2).options = world.state.options := by
    refine Arithmetic.evaluateArithmetic_store (R := fun s s' : ShellState =>
      s'.options = s.options) (fun store name value store' hset => ?_) expression world.state
    simp only [shellArithmeticVariables, Option.map_eq_some_iff] at hset
    obtain ⟨vars, -, rfl⟩ := hset
    rfl
  rw [Hsh.arithmeticValue, exec_bind_ok (exec_getState world)]
  split <;> rename_i hrun <;> rw [hrun] at hstore
  · exact ⟨by rw [doings, doings, ← hstore]; rfl, fun _ hthrown => by cases hthrown⟩
  · exact ⟨by rw [doings, doings, ← hstore]; rfl,
      fun _ hthrown => by cases hthrown; exact trivial⟩
  · exact throw (show IsPlain .outOfFuel from trivial) world

theorem assignDefault (name value : Text) :
    Prepares (Hsh.assignDefault name value : Sh ω D P Unit) := by
  intro world
  rw [Hsh.assignDefault, exec_bind_ok (exec_getState world)]
  split
  · rename_i state hset
    simp only [shellArithmeticVariables, Option.map_eq_some_iff] at hset
    obtain ⟨vars, -, rfl⟩ := hset
    exact ⟨rfl, fun _ hthrown => by cases hthrown⟩
  · exact throw (show IsPlain (.shellError _) from trivial) world

theorem assignVariable (name value : Text) :
    Prepares (Shell.assignVariable name value : Sh ω D P Unit) := by
  intro world
  rw [Shell.assignVariable, exec_bind_ok (exec_getState world)]
  split
  · exact fail _ world
  · exact ⟨rfl, fun _ hthrown => by cases hthrown⟩

theorem assignAll (assignments : List (Text × Text)) :
    Prepares (Shell.assignAll assignments : Sh ω D P Unit) :=
  compositional.forM fun _ _ => assignVariable _ _

section

variable (machine : Machine ω D P)

theorem redirectionFrame :
    RedirectionFrame (shellFiles machine) fun {_} (m : Sh ω D P _) => Prepares m where
  toCompositional := compositional
  get := get
  raise _ := throw trivial
  arithmetic := arithmeticValue
  assign := assignDefault
  outOfFuel := throw trivial
  openFile _ _ := of_modifyGet fun _ => rfl
  addDescriptor _ := of_modifyGet fun _ => rfl
  dup2 _ _ := of_modifyGet fun _ => rfl
  closeDescriptor _ := of_modifyGet fun _ => rfl
  createPipe _ := of_modifyGet fun _ => rfl
  write _ _ := of_modifyGet fun _ => rfl
  undoneOnFailure saved hm hrestore := by
    intro world
    obtain ⟨hsame, hfails⟩ := hm world
    rw [exec_tryCatch]
    rcases hrun : exec _ world with ⟨failure | a, world'⟩
    · rw [hrun] at hsame hfails
      obtain ⟨hsame', hfails'⟩ := hrestore.bind (fun _ => throw (hfails failure rfl)) world'
      exact ⟨hsame'.trans hsame, hfails'⟩
    · rw [hrun] at hsame
      exact ⟨hsame, fun _ hthrown => by cases hthrown⟩

/-! ### Writing -/

theorem writeLoop (descriptor : D) :
    ∀ fuel output, Prepares (Shell.writeLoop machine descriptor fuel output)
  | 0, output => by
      rw [Shell.writeLoop]
      exact ite (pure _) (throw trivial)
  | fuel + 1, output => by
      rw [Shell.writeLoop]
      refine ite (pure _) (bind (of_modifyGet fun _ => rfl) fun result => ?_)
      cases result with
      | brokenPipe =>
          refine bind getMembers fun members => ?_
          have hstop : Prepares (do
              Hsh.perform (Members.onOutside fun outside => ((), machine.stopForBrokenPipe outside))
              Shell.modifyMembers fun members => { members with brokenPipe := true }
              MonadExcept.throw .stopped : Sh ω D P Unit) := by
            refine bind (onOutside _) fun _ => ?_
            exact bind (of_modifyGet fun _ => rfl) fun _ => throw trivial
          dsimp only
          split
          · exact bind (throw (show IsPlain (.exit exitCodeBrokenPipe) from rfl)) fun _ => hstop
          · exact hstop
      | interrupted => exact throw trivial
      | failed => exact pure _
      | written count => exact writeLoop descriptor fuel _

theorem writeTo (descriptor : Option D) (output : Text) :
    Prepares (Shell.writeTo machine descriptor output) := by
  refine bind getMembers fun members => ite ?_ (pure _)
  cases descriptor with
  | none => exact pure _
  | some descriptor => exact writeLoop machine descriptor _ _

theorem writeErr (output : Text) : Prepares (Shell.writeErr machine output) :=
  bind (look _) fun _ => writeTo machine _ _

theorem report (message : Text) : Prepares (Shell.report machine message) :=
  bind getState fun _ => bind getMembers fun _ => writeErr machine _

theorem traceCommand (traceErr : Option D) (assignments : List (Text × Text))
    (fields : List Text) : Prepares (Shell.traceCommand machine traceErr assignments fields) := by
  refine bind getState fun state => ?_
  exact ite (writeTo machine _ _) (pure _)

end

end Prepares

/-! ## What is done after -/

/-- What a run leads to, by what has been done when it starts and when it ends. -/
def Leads (base : Doings P) (m : Sh ω D P α) (post : α → Doings P → Prop)
    (failed : Failure → Doings P → Prop) : Prop :=
  Triple (fun world => doings world = base) m (fun a world => post a (doings world))
    fun failure world => failed failure (doings world)

section

variable {base : Doings P} {failed : Failure → Doings P → Prop}

theorem Prepares.leads {m : Sh ω D P α} (hm : Prepares m) :
    Leads base m (fun _ done => done = base) fun failure done => IsPlain failure ∧ done = base := by
  rintro world rfl
  obtain ⟨hsame, hfails⟩ := hm world
  rcases hrun : exec m world with ⟨failure | a, world'⟩
  · rw [hrun] at hsame hfails
    exact ⟨hfails failure rfl, hsame⟩
  · rw [hrun] at hsame
    exact hsame

theorem Leads.prepared {m : Sh ω D P α} {f : α → Sh ω D P β} {post : β → Doings P → Prop}
    (hm : Prepares m) (hplain : ∀ failure, IsPlain failure → failed failure base)
    (hf : ∀ a, Leads base (f a) post failed) : Leads base (m >>= f) post failed :=
  have hleads : Leads base m (fun _ done => done = base) failed :=
    hm.leads.consequence (fun _ h => h) (fun _ _ h => h) fun failure _ h => h.2 ▸ hplain failure h.1
  Triple.bind_intro hleads hf

theorem Leads.pure {a : α} {post : α → Doings P → Prop} (h : post a base) :
    Leads base (Pure.pure a : Sh ω D P α) post failed :=
  Triple.pure_intro fun _ hbase => hbase ▸ h

theorem Leads.getMembers {f : Members ω D P → Sh ω D P β} {post : β → Doings P → Prop}
    (hf : ∀ world : World (Members ω D P), doings world = base →
      Leads base (f world.outside) post failed) :
    Leads base (Shell.getMembers >>= f) post failed :=
  Triple.of_pre fun world hbase =>
    Triple.at_bind rfl ((hf world hbase).at_state hbase)

variable (machine : Machine ω D P)

theorem triple_restoreSlots (R : Doings P → Prop) (saved : SavedSlots D) :
    Triple (fun world => R (doings world)) (restoreSlots (shellFiles machine) saved : Sh ω D P Unit)
      (fun _ world => R (doings world)) fun failure world => failed failure (doings world) := by
  intro world hworld
  obtain ⟨outside, hrun⟩ := restoreSlots_returns (shellFiles machine) saved world
  have hsame := ((Prepares.redirectionFrame machine).restoreSlots saved world).1
  rw [hrun] at hsame ⊢
  have hdone : doings { world with outside } = doings world := hsame
  change R (doings { world with outside })
  rwa [hdone]

theorem leads_redirected {host : Host (Members ω D P)}
    {redirections : List (Redirection HereDocument)} {failedRedirection : Text → Sh ω D P Int}
    {body : Sh ω D P (Int × Bool)} {post : Int → Doings P → Prop}
    (hnone : redirections.any redirectionHoldsCommandSubstitution = false)
    (hplain : ∀ failure, IsPlain failure → failed failure base)
    (hfails : ∀ error, Leads base (failedRedirection error) post failed)
    (hbody : Leads base body (fun ended => post ended.1) failed) :
    Leads base (redirected machine host redirections failedRedirection body) post failed := by
  have happly : Prepares (applyRedirections (shellFiles machine) host redirections []) :=
    (Prepares.redirectionFrame machine).applyRedirections redirections
      (fun h => by simp [hnone] at h) []
  refine Leads.prepared (Prepares.of_modifyGet fun _ => rfl) hplain fun _ => ?_
  refine Leads.prepared happly hplain fun applied => ?_
  obtain ⟨_ | error, saved⟩ := applied
  · refine Triple.bind_intro (Triple.attempt_intro hbody) fun ended => ?_
    rcases ended with failure | ⟨status, _ | _⟩
    · exact Triple.bind_intro (triple_restoreSlots machine (failed failure) saved) fun _ =>
        Triple.throw_intro fun _ => id
    · exact Triple.bind_intro (triple_restoreSlots machine (post status) saved) fun _ =>
        Triple.pure_intro fun _ => id
    · exact Triple.pure_intro fun _ => id
  · exact hfails error

end

/-! ## A simple command -/

/-- The directories that pathnames are looked up in. -/
def directories (machine : Machine ω D P) (members : Members ω D P) : PathnameSource where
  readDirectory path := machine.readDirectory (members.files.resolvePath path) members.files.outside
  pathExists path := (machine.stat (members.files.resolvePath path) members.files.outside).isSome

section

variable [DecidableEq D] [DecidableEq P] (machine : Machine ω D P) (knowledge : Knowledge ω D)
  (parse : ParseText) (inner : Inner ω D P)

structure HoldsNoSubstitution (command : SimpleCommand HereDocument) : Prop where
  words : command.words.any (partsHoldCommandSubstitution ·.parts) = false
  assignments : command.assignments.any (partsHoldCommandSubstitution ·.value.parts) = false
  redirections : command.redirections.any redirectionHoldsCommandSubstitution = false

theorem prepares_expandAssignments {assignments : List Assignment}
    (h : assignments.any (partsHoldCommandSubstitution ·.value.parts) = false) :
    Prepares (expandAssignments machine parse inner assignments) := by
  refine Prepares.compositional.mapM fun assignment hmem => ?_
  have hvalue : partsHoldCommandSubstitution assignment.value.parts = false := by
    simpa using List.any_eq_false.mp h assignment hmem
  exact Prepares.bind ((Prepares.redirectionFrame machine).expandToKind .assignment
    fun hparts => by simp [hvalue] at hparts) fun _ => Prepares.pure _

omit [DecidableEq D] [DecidableEq P] in
theorem leads_failedRedirection {base : Doings P} {post : Int → Doings P → Prop}
    {failed : Failure → Doings P → Prop} (fields : List Text) (error : Text)
    (hplain : ∀ failure, IsPlain failure → failed failure base) (hfails : post 2 base) :
    Leads base (failedRedirection machine fields error) post failed := by
  have hreport : Leads base (do
      report machine error
      pure 2 : Sh ω D P Int) post failed :=
    Leads.prepared (Prepares.report machine error) hplain fun _ => Leads.pure hfails
  rw [failedRedirection]
  split
  · exact Leads.prepared (Prepares.fail error) hplain fun _ => hreport
  · exact hreport

theorem triple_executeSimpleCommand {Q : Option Text → Prop} (post : Int → Doings P → Prop)
    (failed : Failure → Doings P → Prop) {command : SimpleCommand HereDocument} {first : Word}
    {rest : List Word} (hwords : command.words = first :: rest)
    (hliteral : first.literalText.isSome) (hnone : HoldsNoSubstitution command)
    {world : World (Members ω D P)}
    (hfirst : FirstField Q (directories machine world.outside) command.words world)
    (hplain : ∀ failure, IsPlain failure → failed failure (doings world))
    (hskipped : noExec world.state = true → ∀ status, post status (doings world))
    (hfails : post 2 (doings world))
    (hempty : Q none → ∀ status, post status (doings world))
    (hfields : ∀ traceErr assignments name arguments, Q (some name) →
      Leads (doings world)
        (runFields machine knowledge parse inner traceErr assignments name arguments)
        (fun ended => post ended.1) failed) :
    Triple (· = world) (executeSimpleCommand machine knowledge parse inner command)
      (fun status ended => post status (doings ended))
      fun failure ended => failed failure (doings ended) := by
  set started : World (Members ω D P) :=
    { world with outside := { world.outside with currentLine := command.line } } with hstarted
  have hframe := Prepares.redirectionFrame machine
  have hexpand : Prepares (expandWords (shellHost machine parse inner) command.words) :=
    hframe.expandWords fun h => by simp [hnone.words] at h
  have hrest : rest.any (partsHoldCommandSubstitution ·.parts) = false := by
    have hall := hnone.words
    rw [hwords, List.any_cons, Bool.or_eq_false_iff] at hall
    exact hall.2
  -- The fields, of which the first is what `Q` says.
  have hknown : Triple (· = started) (expandWords (shellHost machine parse inner) command.words)
      (fun fields ended => doings ended = doings world ∧ Q fields.head?)
      fun failure ended => failed failure (doings ended) := by
    rintro _ rfl
    obtain ⟨hsame, hfailure⟩ := hexpand started
    rcases hrun : exec (expandWords (shellHost machine parse inner) command.words) started with
      ⟨failure | fields, ended⟩
    · rw [hrun] at hsame hfailure
      have hbase : doings ended = doings world := hsame
      change failed failure (doings ended)
      rw [hbase]
      exact hplain failure (hfailure failure rfl)
    · rw [hrun] at hsame
      have hstate : FirstField Q (directories machine started.outside) command.words started :=
        FirstField.of_state hnone.words (show started.state = world.state from rfl) hfirst
      rw [hwords] at hrun hstate
      exact ⟨hsame, FirstField.of_exec hliteral hrest hstate hrun⟩
  rw [executeSimpleCommand]
  refine Triple.at_bind rfl (Triple.at_bind rfl ?_)
  refine Triple.bind_intro hknown fun fields => Triple.of_pre fun expanded hexpanded => ?_
  obtain ⟨hbase, hQ⟩ := hexpanded
  refine Triple.at_bind (exec_getState expanded) ?_
  have hoption : noExec expanded.state = noExec world.state := by
    have hoptions := congrArg Doings.options hbase
    rw [noExec, noExec, show expanded.state.options = world.state.options from hoptions]
  split
  · rename_i hskip
    refine Triple.at_pure ?_
    rw [hbase]
    exact hskipped (hoption ▸ hskip) _
  have hrun : Leads (doings world) (do
      let traceErr ← look ((system machine).getDescriptor standardError)
      redirected machine (shellHost machine parse inner) command.redirections
        (failedRedirection machine fields)
        (runSimpleCommand machine knowledge parse inner command
          started.outside.substitutionCount traceErr fields)) post failed := by
    refine Leads.prepared (Prepares.look _) hplain fun traceErr => ?_
    refine leads_redirected machine hnone.redirections hplain (fun error => ?_) ?_
    · exact leads_failedRedirection machine fields error hplain hfails
    · refine Leads.prepared (prepares_expandAssignments machine parse inner hnone.assignments) hplain
        fun assignments => ?_
      cases fields with
      | nil =>
          refine Leads.prepared (Prepares.assignAll assignments) hplain fun _ => ?_
          refine Leads.prepared (Prepares.traceCommand machine _ _ _) hplain fun _ => ?_
          refine Leads.prepared Prepares.getMembers hplain fun members => ?_
          exact Leads.prepared Prepares.getState hplain fun state => Leads.pure (hempty hQ _)
      | cons name arguments => exact hfields traceErr assignments name arguments hQ
  exact hrun.at_state hbase

/-! ## A stage -/

def Doings.leaving (done base : Doings P) : Doings P :=
  { done with
    options := base.options
    functions := base.functions
    events := .subshellLeft :: done.events }

omit [DecidableEq D] in
theorem doings_leftMembers (before now : World (Members ω D P)) (files : ProcessFiles ω D) :
    doings ⟨before.state, (leftMembers before.outside now.outside).putFiles files⟩ =
      { doings now with
        options := before.state.options, functions := before.outside.functions } := by
  obtain ⟨liveChildren, hleft⟩ := leftMembers_eq before.outside now.outside
  rw [hleft]
  rfl

omit [DecidableEq D] [DecidableEq P] in
theorem ended_of_leads {base : Doings P} {m : Sh ω D P α}
    {post : Except Failure α → Doings P → Prop}
    (h : Leads base m (fun a => post (.ok a)) fun failure => post (.error failure))
    {world : World (Members ω D P)} (hbase : doings world = base) :
    post (exec m world).1 (doings (exec m world).2) := by
  have hended := h world hbase
  rcases hrun : exec m world with ⟨failure | a, now⟩ <;> rw [hrun] at hended <;> exact hended

theorem ended_runSubshell (ended post : Except Failure Int → Doings P → Prop)
    {body : Sh ω D P Int} {world : World (Members ω D P)}
    (hbody : ended (exec body (subshellWorld world)).1
      (doings (exec body (subshellWorld world)).2))
    (hstatus : ∀ how done, ended how done →
      Leads (done.leaving (doings world)) (subshellStatus machine how)
        (fun status => post (.ok status)) fun failure => post (.error failure)) :
    post (exec (runSubshell machine body) world).1
      (doings (exec (runSubshell machine body) world).2) := by
  obtain ⟨files, hleave, -⟩ :=
    exec_leaveSubshell machine world (exec body (subshellWorld world)).2
  set left : World (Members ω D P) := ⟨world.state,
    (leftMembers world.outside (exec body (subshellWorld world)).2.outside).putFiles files⟩
  have hrun : exec (runSubshell machine body) world =
      exec (subshellStatus machine (exec body (subshellWorld world)).1)
        (withEvent .subshellLeft left) := by
    rw [runSubshell, exec_bind_ok (exec_get world), exec_bind_ok (exec_happens _ _),
      exec_bind_ok (exec_modifyDepths _ _), exec_bind_ok (exec_attempt body _)]
    exact (exec_bind_ok hleave).trans (exec_bind_ok (exec_happens _ _))
  have hleft := doings_leftMembers world (exec body (subshellWorld world)).2 files
  have hdone : doings (withEvent .subshellLeft left) =
      (doings (exec body (subshellWorld world)).2).leaving (doings world) :=
    congrArg (fun done : Doings P => { done with events := .subshellLeft :: done.events }) hleft
  rw [hrun]
  exact ended_of_leads (hstatus _ _ hbody) hdone

omit [DecidableEq D] [DecidableEq P] in
theorem exec_stageBody (command : Command HereDocument Text) (input output : Option D)
    (started : Option Nat) (world : World (Members ω D P)) :
    ∃ descriptors,
      exec ((SubshellBody.stage command input output started).run machine inner) world =
        exec (withStartInsteadOfWait started (inner.command command))
          ⟨world.state, world.outside.putFiles { world.outside.files with descriptors }⟩ := by
  obtain ⟨_, between, hfirst⟩ :=
    placeDescriptor_returns (shellFiles machine) standardInput input world
  have hbetween := sameButTable_placeDescriptor machine standardInput input world
  rw [hfirst] at hbetween
  obtain ⟨_, outside, hsecond⟩ := placeDescriptor_returns (shellFiles machine) standardOutput output
    { world with outside := between }
  have houtside := sameButTable_placeDescriptor machine standardOutput output
    { world with outside := between }
  rw [hsecond] at houtside
  obtain ⟨descriptors, hplaced⟩ : SameButTable world { world with outside } :=
    IsTrans.trans _ _ _ hbetween houtside
  refine ⟨descriptors, ?_⟩
  rw [SubshellBody.run, exec_bind_ok hfirst, exec_bind_ok hsecond]
  exact congrArg (exec _) hplaced

def stageDoings (world : World (Members ω D P)) : Doings P :=
  { doings world with
    startInsteadOfWait := some world.outside.stageChildren.length
    stageChildren := world.outside.stageChildren ++ [none]
    events := .subshellEntered :: world.outside.events }

def stageWorld (world : World (Members ω D P)) : World (Members ω D P) :=
  { world with
    outside := { world.outside with stageChildren := world.outside.stageChildren ++ [none] } }

omit [DecidableEq D] [DecidableEq P] in
theorem exec_stage (command : Command HereDocument Text) (input output : Option D)
    (world : World (Members ω D P)) :
    ∃ started : World (Members ω D P),
      started.state = world.state ∧ doings started = stageDoings world ∧
      started.outside.files.outside = world.outside.files.outside ∧
      directories machine started.outside = directories machine world.outside ∧
      (exec ((SubshellBody.stage command input output
          (some world.outside.stageChildren.length)).run machine inner)
        (subshellWorld (stageWorld world))).1 = (exec (inner.command command) started).1 ∧
      doings (exec ((SubshellBody.stage command input output
          (some world.outside.stageChildren.length)).run machine inner)
        (subshellWorld (stageWorld world))).2 =
          { doings (exec (inner.command command) started).2 with
            startInsteadOfWait := world.outside.startInsteadOfWait } := by
  set entered : World (Members ω D P) := subshellWorld (stageWorld world) with hentered
  set stage : Option Nat := some world.outside.stageChildren.length with hstage
  obtain ⟨descriptors, hbody⟩ := exec_stageBody machine inner command input output stage entered
  refine ⟨⟨entered.state, { entered.outside.putFiles { entered.outside.files with descriptors } with
    startInsteadOfWait := stage }⟩, rfl, rfl, rfl, rfl, ?_⟩
  rw [hbody, exec_withStartInsteadOfWait]
  exact ⟨rfl, rfl⟩

def commandDoings (world : World (Members ω D P)) : Doings P :=
  { stageDoings world with
    events := .commandStarted :: .subshellEntered :: world.outside.events }

theorem holdsNoSubstitution_of_isChildStage {hasFunction : Text → Bool}
    {command : SimpleCommand HereDocument}
    (hchild : isChildStage hasFunction (.simple command : Command HereDocument Text) = true)
    (hbodies : command.redirections.any bodyHoldsCommandSubstitution = false) :
    HoldsNoSubstitution command := by
  obtain ⟨-, hwords, hassignments, htargets⟩ := isChildStage_simple hchild
  refine ⟨hwords, hassignments, List.any_eq_false.mpr fun redirection hmem => ?_⟩
  rw [redirectionHoldsCommandSubstitution, Bool.or_eq_true, not_or]
  exact ⟨List.any_eq_false.mp htargets redirection hmem,
    List.any_eq_false.mp hbodies redirection hmem⟩

theorem ended_stage {Q : Option Text → Prop} (ended : Except Failure Int → Doings P → Prop)
    {command : SimpleCommand HereDocument} {hasFunction : Text → Bool}
    (hchild : isChildStage hasFunction (.simple command : Command HereDocument Text) = true)
    (hbodies : command.redirections.any bodyHoldsCommandSubstitution = false)
    {world : World (Members ω D P)}
    (hfirst : FirstField Q (directories machine world.outside) command.words world)
    (hstop : machine.stopRequested world.outside.files.outside = true →
      ended (.error .stopped) (stageDoings world))
    (hplain : ∀ failure, IsPlain failure → ended (.error failure) (commandDoings world))
    (hskipped : noExec world.state = true → ∀ status, ended (.ok status) (commandDoings world))
    (hfails : ended (.ok 2) (commandDoings world))
    (hempty : Q none → ∀ status, ended (.ok status) (commandDoings world))
    (hfields : ∀ traceErr assignments name arguments, Q (some name) →
      Leads (commandDoings world)
        (runFields machine knowledge parse inner traceErr assignments name arguments)
        (fun how => ended (.ok how.1)) fun failure => ended (.error failure))
    (input output : Option D) {stepped : Inner ω D P}
    (hstepped : stepped.command = executeCommand machine knowledge parse inner) :
    ∃ done, ended (exec ((SubshellBody.stage (.simple command) input output
          (some world.outside.stageChildren.length)).run machine stepped)
        (subshellWorld (stageWorld world))).1 done ∧
      doings (exec ((SubshellBody.stage (.simple command) input output
          (some world.outside.stageChildren.length)).run machine stepped)
        (subshellWorld (stageWorld world))).2 =
          { done with startInsteadOfWait := world.outside.startInsteadOfWait } := by
  obtain ⟨started, hstate, hdoings, houtside, hdirectories, hresult, hdone⟩ :=
    exec_stage machine stepped (.simple command) input output world
  rw [hresult, hdone, hstepped]
  refine ⟨_, ?_, rfl⟩
  have hlook : exec (look (system machine).stopRequested) started =
      (.ok (machine.stopRequested world.outside.files.outside), started) := by
    rw [← houtside]
    rfl
  rw [executeCommand]
  cases hrequested : machine.stopRequested world.outside.files.outside with
  | true =>
      have hthrows : exec (throwIfStopRequested machine : Sh ω D P Unit) started =
          (.error .stopped, started) := by
        rw [throwIfStopRequested, exec_bind_ok hlook, hrequested]
        rfl
      rw [exec_bind_error hthrows, hdoings]
      exact hstop hrequested
  | false =>
      have hgoes : exec (throwIfStopRequested machine : Sh ω D P Unit) started = (.ok (), started) := by
        rw [throwIfStopRequested, exec_bind_ok hlook, hrequested]
        rfl
      rw [exec_bind_ok hgoes, exec_bind_ok (exec_happens _ _), executeKind]
      set entered : World (Members ω D P) := withEvent .commandStarted started
      have hentered : doings entered = commandDoings world := by
        have hevents := congrArg (fun done : Doings P =>
          { done with events := .commandStarted :: done.events }) hdoings
        exact hevents
      obtain ⟨⟨first, rest, hwords, hliteral⟩, -⟩ := isChildStage_simple hchild
      have hnone := holdsNoSubstitution_of_isChildStage hchild hbodies
      have hfirst' : FirstField Q (directories machine entered.outside) command.words entered := by
        have hsame : directories machine entered.outside = directories machine world.outside :=
          hdirectories
        rw [hsame]
        exact hfirst.of_state hnone.words hstate
      have htriple := triple_executeSimpleCommand machine knowledge parse inner
        (fun status => ended (.ok status)) (fun failure => ended (.error failure))
        hwords hliteral hnone hfirst' (hentered ▸ hplain)
        (fun hskip => hentered ▸ hskipped (by rw [← hstate]; exact hskip)) (hentered ▸ hfails)
        (hentered ▸ hempty) (hentered ▸ hfields)
      have hended := htriple entered rfl
      rcases hrun : exec (executeSimpleCommand machine knowledge parse inner command) entered with
        ⟨failure | status, now⟩ <;> rw [hrun] at hended <;> exact hended

omit [DecidableEq D] [DecidableEq P] in
theorem prepares_subshellStatus (how : Except Failure Int) :
    Prepares (subshellStatus machine how : Sh ω D P Int) := by
  have hreport (error : ShellError) : Prepares (do
      reportError machine error
      pure 2 : Sh ω D P Int) :=
    Prepares.bind (Prepares.bind Prepares.getMembers fun _ =>
      Prepares.bind Prepares.getState fun _ => Prepares.writeErr machine _) fun _ => Prepares.pure _
  rcases how with failure | status
  · cases failure with
    | exit | functionReturn | loopControl => exact Prepares.pure _
    | shellError error => exact hreport error
    | stopped | outOfFuel => exact Prepares.throw trivial
  · exact Prepares.pure _

theorem exec_runStage (command : Command HereDocument Text) (input output : Option D)
    (world : World (Members ω D P)) :
    let ended := exec (runSubshell machine ((SubshellBody.stage command input output
      (some world.outside.stageChildren.length)).run machine inner)) (stageWorld world)
    exec (runStage machine inner true command input output) world =
      (ended.1.map fun status =>
          { status
            child := (ended.2.outside.stageChildren[world.outside.stageChildren.length]?).join },
        ended.2) := by
  have hmembers : exec (getMembers : Sh ω D P (Members ω D P)) world = (.ok world.outside, world) :=
    rfl
  have hset : exec (modifyMembers fun members =>
      { members with stageChildren := members.stageChildren ++ [none] } : Sh ω D P Unit) world =
      (.ok (), stageWorld world) := rfl
  rw [runStage, exec_bind_ok hmembers, exec_bind_ok hset, if_pos rfl, exec_bind]
  dsimp only
  generalize exec (runSubshell machine ((SubshellBody.stage command input output
    (some world.outside.stageChildren.length)).run machine inner)) (stageWorld world) = ended
  rcases ended with ⟨failure | status, now⟩
  · rfl
  · rfl

/-! ## No command substitution is run -/

/-- The names that run commands: functions, unless a special builtin goes before, `eval` and `.`. -/
def RunsCommands (functions : List (Text × FunctionDefinition)) (name : Text) : Prop :=
  (isSpecialBuiltin name = false ∧ (functions.lookup name).isSome) ∨ name = text "eval" ∨
    name = text "."

instance (functions : List (Text × FunctionDefinition)) (name : Text) :
    Decidable (RunsCommands functions name) :=
  inferInstanceAs (Decidable (_ ∨ _))

abbrev KeepsCount (m : Sh ω D P α) : Prop :=
  Keeps (fun world : World (Members ω D P) => world.outside.substitutionCount) m

omit [DecidableEq D] [DecidableEq P] in
theorem keepsCount_of_quiet {m : Sh ω D P α} (hm : Quiet m) : KeepsCount m :=
  fun world => congrArg Frame.substitutionCount (hm world).step.frame

omit [DecidableEq D] in
theorem keepsCount_callBuiltin {name : Text} (heval : name ≠ text "eval") (hdot : name ≠ text ".")
    (arguments : List Text) :
    KeepsCount (callBuiltin machine knowledge parse inner name arguments) := by
  refine Respects.bind_intro (Respects.modifyGet_intro fun _ => rfl) fun _ => ?_
  rw [runBuiltin, if_neg hdot]
  have hjump (isBreak : Bool) :
      KeepsCount (builtinBreakContinue isBreak arguments : Sh ω D P Int) :=
    respects_builtinBreakContinue keepsCount_of_quiet isBreak arguments
  have hquiet {m : Sh ω D P Int} (hm : Quiet m) : KeepsCount m := keepsCount_of_quiet hm
  refine Discipline.ite (hjump true) ?_
  refine Discipline.ite (hquiet (.builtinCd machine arguments)) ?_
  refine Discipline.ite (hjump false) ?_
  rw [if_neg heval]
  refine Discipline.ite ?_ ?_
  · rcases builtinExec_cases machine arguments with hasks | hexec
    · rw [hasks]
      exact Respects.bind_intro (Respects.modifyGet_intro fun _ => rfl) fun _ => Respects.pure_intro _
    · exact hquiet hexec
  refine Discipline.ite (hquiet (.builtinExit arguments)) ?_
  refine Discipline.ite (hquiet (.builtinExportReadonly machine knowledge false arguments)) ?_
  refine Discipline.ite (Respects.pure_intro _) ?_
  refine Discipline.ite (hquiet (.builtinRead machine arguments)) ?_
  refine Discipline.ite (hquiet (.builtinExportReadonly machine knowledge true arguments)) ?_
  refine Discipline.ite (respects_builtinReturn keepsCount_of_quiet arguments) ?_
  refine Discipline.ite (hquiet (.builtinSet machine knowledge arguments)) ?_
  refine Discipline.ite (hquiet (.builtinShift arguments)) ?_
  refine Discipline.ite (hquiet (.builtinTest machine knowledge _)) ?_
  refine Discipline.ite (hquiet (.builtinUnset arguments)) ?_
  exact Discipline.ite (hquiet (.builtinWait machine arguments)) (Respects.pure_intro _)

omit [DecidableEq D] [DecidableEq P] in
theorem keepsCount_takeKeepRedirections : KeepsCount (takeKeepRedirections : Sh ω D P Bool) :=
  Respects.bind_intro (keepsCount_of_quiet .getMembers) fun _ =>
    Respects.bind_intro (Respects.modifyGet_intro fun _ => rfl) fun _ => Respects.pure_intro _

omit [DecidableEq D] in
/-- What a name that runs no commands is looked up as runs no command substitution. -/
theorem leads_runFields_count {base : Doings P} {name : Text}
    (hname : ¬RunsCommands base.functions name) (traceErr : Option D)
    (assignments : List (Text × Text)) (arguments : List Text) :
    Leads base (runFields machine knowledge parse inner traceErr assignments name arguments)
      (fun _ done => done.substitutionCount = base.substitutionCount)
      fun _ done => done.substitutionCount = base.substitutionCount := by
  simp only [RunsCommands, not_or] at hname
  obtain ⟨hfunction, heval, hdot⟩ := hname
  have hkeeps {α : Type} {m : Sh ω D P α} (hm : KeepsCount m) : Leads base m
      (fun _ done => done.substitutionCount = base.substitutionCount)
      fun _ done => done.substitutionCount = base.substitutionCount :=
    hm.triple (fun _ _ _ hbase hsame => hbase ▸ hsame) fun _ _ _ hbase hsame => hbase ▸ hsame
  have hbuiltin := keepsCount_callBuiltin machine knowledge parse inner heval hdot arguments
  have htrace := keepsCount_of_quiet (Quiet.traceCommand machine traceErr assignments
    (name :: arguments))
  have htake : KeepsCount (takeKeepRedirections : Sh ω D P Bool) := keepsCount_takeKeepRedirections
  rw [runFields]
  split
  · refine hkeeps (Respects.bind_intro (keepsCount_of_quiet (.assignAll _)) fun _ => ?_)
    refine Respects.bind_intro htrace fun _ => Respects.bind_intro hbuiltin fun status => ?_
    exact Respects.bind_intro htake fun _ => Respects.pure_intro _
  · rename_i hspecial
    refine Leads.getMembers fun world hbase => ?_
    have hnone : world.outside.functions.lookup name = none := by
      rw [show world.outside.functions = base.functions from congrArg Doings.functions hbase]
      by_contra hsome
      exact hfunction ⟨Bool.eq_false_iff.mpr hspecial, Option.isSome_iff_ne_none.mpr hsome⟩
    rw [hnone]
    dsimp only
    split
    · refine hkeeps (Respects.bind_intro (keepsCount_of_quiet (.assignSaving _ _)) fun restore => ?_)
      refine Respects.bind_intro htrace fun _ => Respects.bind_intro hbuiltin fun status => ?_
      refine Respects.bind_intro htake fun keep => ?_
      exact Respects.bind_intro (keepsCount_of_quiet (.restoreAssignments restore)) fun _ =>
        Respects.pure_intro _
    · exact hkeeps (Respects.bind_intro (keepsCount_of_quiet (.runProgram machine _ _ _ _)) fun _ =>
        Respects.pure_intro _)

/--
A stage that is started runs no command substitution, if no body of a here-document that is
expanded holds one, and if the first field of its words is no name that runs commands.
-/
theorem runStage_runs_no_substitution (fuel : Nat) {command : SimpleCommand HereDocument}
    {world : World (Members ω D P)}
    (hchild : isChildStage (fun name => (world.outside.functions.lookup name).isSome)
      (.simple command : Command HereDocument Text) = true)
    (hbodies : command.redirections.any bodyHoldsCommandSubstitution = false)
    (hnames : FirstField
      (fun first => ∀ name, first = some name → ¬RunsCommands world.outside.functions name)
      (directories machine world.outside) command.words world)
    (input output : Option D) :
    (exec (runStage machine (executor machine knowledge parse fuel) true (.simple command) input
      output) world).2.outside.substitutionCount = world.outside.substitutionCount := by
  rw [exec_runStage]
  have hbody : (doings (exec ((SubshellBody.stage (.simple command) input output
      (some world.outside.stageChildren.length)).run machine (executor machine knowledge parse fuel))
        (subshellWorld (stageWorld world))).2).substitutionCount =
          world.outside.substitutionCount := by
    cases fuel with
    | zero =>
        obtain ⟨started, -, hdoings, -, -, -, hdone⟩ := exec_stage machine
          (executor machine knowledge parse 0) (.simple command) input output world
        rw [hdone]
        exact congrArg Doings.substitutionCount hdoings
    | succ fuel =>
        obtain ⟨done, hcount, hdone⟩ := ended_stage machine knowledge parse
          (executor machine knowledge parse fuel)
          (fun _ done => done.substitutionCount = world.outside.substitutionCount)
          hchild hbodies hnames (fun _ => rfl) (fun _ _ => rfl) (fun _ _ => rfl) rfl
          (fun _ _ => rfl) (fun traceErr assignments name arguments hname =>
            leads_runFields_count machine knowledge parse _ (hname name rfl) traceErr assignments
              arguments) input output
          (show (executor machine knowledge parse (fuel + 1)).command =
            executeCommand machine knowledge parse (executor machine knowledge parse fuel) from rfl)
        rw [hdone]
        exact hcount
  have hended := ended_runSubshell machine
    (fun _ done => done.substitutionCount = world.outside.substitutionCount)
    (fun _ done => done.substitutionCount = world.outside.substitutionCount) hbody
    fun how done hcount => ((prepares_subshellStatus machine how).leads).consequence
      (fun _ h => h) (fun _ _ h => by rw [h]; exact hcount) fun _ _ h => by rw [h.2]; exact hcount
  generalize exec (runSubshell machine _) (stageWorld world) = ended at hended ⊢
  exact hended

/-! ## Nothing but a program is run -/

end

/-! ## Names that match -/

/-- A machine of one directory, which holds one file, and whose every program starts. -/
def listing (name : String) : Machine Unit Nat Unit :=
  { idleMachine with
    stat := fun _ _ => some .file
    readDirectory := fun _ _ => [⟨text name, false⟩]
    startProcess := fun _ outside => (some (), outside) }

def wordOf (part : WordPart) : Word where
  parts := [part]

/-- `name "$1" <<E`, the body being `$(cat)`. -/
def withBody (name : String) (quoted : Bool) : SimpleCommand HereDocument where
  words := [wordOf (.literal (text name)), wordOf (.doubleQuoted [.parameter ['1'] .none []])]
  redirections :=
    [{ kind := .hereDoc, fd := 0, target := wordOf (.literal ['E']),
       hereDoc := some
        { delimiter := ['E'], quoted, rawBody := text "$(cat)\n",
          body := { parts := [.commandSubstitution (text "cat") false 2, .literal ['\n']] } } }]

/-- `name 'echo $(cat)'` -/
def withText (name : String) : SimpleCommand HereDocument where
  words := [wordOf (.literal (text name)), wordOf (.quoted (text "echo $(cat)"))]

/-- Every text is parsed as `: $(cat)`. -/
def parsesSubstitution : ParseText := fun _ _ _ =>
  { commands := [[.mk (.last (.mk false (.simple
      { words := [wordOf (.literal [':']), wordOf (.commandSubstitution (text "cat") false 1)] })
      [] 1)) false []]] }

/-- A shell of one function, `f`. -/
def oneFunction : World (Members Unit Nat Unit) where
  state := { positional := [text "a  b"] }
  outside := { files := { outside := () }, functions := [(['f'], ⟨.simple {}, []⟩)] }

/-- The run of a stage that is started. -/
def startedStage (machine : Machine Unit Nat Unit) (command : SimpleCommand HereDocument) :
    Except Failure (StageEnd Unit) × World (Members Unit Nat Unit) :=
  exec (runStage machine (executor machine idleKnowledge parsesSubstitution 4) true
    (.simple command) none none) oneFunction

abbrev IsChild (command : SimpleCommand HereDocument) : Prop :=
  isChildStage (fun name => (oneFunction.outside.functions.lookup name).isSome)
    (.simple command : Command HereDocument Text) = true

theorem firstField_matched {Q : Option Text → Prop} (hQ : Q (some (text "cat"))) :
    FirstField Q (directories (listing "cat") oneFunction.outside) (withBody "ca?" true).words
      oneFunction := by
  have hfields : textFields oneFunction.state (directories (listing "cat") oneFunction.outside)
      (wordOf (.literal (text "ca?"))) = [text "cat"] := by decide +kernel
  unfold FirstField
  rw [withBody]
  dsimp only
  rw [hfields]
  exact hQ

theorem runStage_runs_no_substitution_matched :
    IsChild (withBody "ca?" true) ∧
      (startedStage (listing "cat") (withBody "ca?" true)).2.outside.substitutionCount = 0 := by
  have hchild : IsChild (withBody "ca?" true) := rfl
  have hnone := runStage_runs_no_substitution (listing "cat") idleKnowledge parsesSubstitution 4
    hchild rfl (firstField_matched fun name hname => ?_) none none
  · rw [startedStage]
    exact ⟨hchild, hnone⟩
  · cases hname
    decide

/-- An expanded body is run while the stage is being started, and so is the text of an `eval`. -/
theorem substitutions_run :
    (IsChild (withBody "/bin/cat" false) ∧
      (startedStage (listing "cat") (withBody "/bin/cat" false)).2.outside.substitutionCount ≠ 0) ∧
    (IsChild (withText "eva?") ∧
      (startedStage (listing "eval") (withText "eva?")).2.outside.substitutionCount ≠ 0) := by
  refine ⟨⟨rfl, ?_⟩, rfl, ?_⟩
  · decide +kernel
  · decide +kernel

end Haisos.Hsh.Shell
