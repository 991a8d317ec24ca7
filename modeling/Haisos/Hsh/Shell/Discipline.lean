import Haisos.Hsh.Shell.QuietBuiltins

/-!
# What holds of every execution

Execution is put together of quiet parts, of jumps and of the scopes around them.
What holds of these holds of execution to any depth.
-/

namespace Haisos.Hsh.Shell

open StateExcept

variable {ω D P : Type} [DecidableEq D] [DecidableEq P]

/--
`H` holds of execution, `Body` of what a subshell runs, `Marks` of what may ask to keep
the redirections, and `Round` of the rest of a loop: in a round, or after the `break`
(`some true`) or `continue` (`some false`) that ended one.
-/
structure Discipline (machine : Machine ω D P) (H Body : {α : Type} → Sh ω D P α → Prop)
    (Marks : Sh ω D P Int → Prop) (Round : Option Bool → Sh ω D P Int → Prop) : Prop extends
    Compositional H where
  quiet : ∀ {α : Type} {m : Sh ω D P α}, Quiet m → H m
  commandStarted : H (happens .commandStarted)
  counted : H (modifyMembers fun members =>
    { members with substitutionCount := members.substitutionCount + 1 })
  builtinStarted : ∀ name arguments, name ≠ text "break" → name ≠ text "continue" →
    H (happens (.builtinStarted name arguments))
  breaks : ∀ name isBreak arguments,
    name = (if isBreak then text "break" else text "continue") →
    H (do
      happens (.builtinStarted name arguments)
      builtinBreakContinue isBreak arguments)
  returns : ∀ arguments, H (builtinReturn arguments)
  marks : ∀ {m}, H m → Marks m
  exec : ∀ arguments,
    Marks (do
      happens (.builtinStarted (text "exec") arguments)
      builtinExec machine arguments)
  taken : ∀ {α : Type} {m} {f : Int → Bool → Sh ω D P α}, Marks m →
    (∀ status keep, H (f status keep)) →
    H (do
      let status ← m
      let keep ← takeKeepRedirections
      f status keep)
  tested : ∀ {m : Sh ω D P Int}, H m → H (inTestedContext m)
  startsInsteadOfWait : ∀ {m : Sh ω D P Int} stage, H m → H (withStartInsteadOfWait stage m)
  function : ∀ {m} positional, H m → H (inFunction positional m)
  dotScript : ∀ {m}, H m → H (inDotScript m)
  substitution : ∀ {parse inner},
    (∀ source line, H (runCommandSubstitution machine parse inner source line)) →
    ∀ source line, H (commandSubstitution (shellHost machine parse inner) source line)
  redirected : ∀ {host : Host (Members ω D P)} {failed body} redirections,
    (∀ source line, H (commandSubstitution host source line)) → (∀ error, H (failed error)) →
    H body → H (redirected machine host redirections failed body)
  body : ∀ {α : Type} {m : Sh ω D P α}, H m → Body m
  bodyBind : ∀ {α β : Type} {m : Sh ω D P α} {f : α → Sh ω D P β}, Body m → (∀ a, Body (f a)) →
    Body (m >>= f)
  placed : ∀ fd descriptor, fd = standardInput ∨ fd = standardOutput →
    Body (placeDescriptor (shellFiles machine) fd descriptor)
  subshell : ∀ {m}, Body m → H (runSubshell machine m)
  backgroundShell : ∀ sourceText, H (startBackgroundShell machine sourceText)
  loop : ∀ {m}, Round none m → H (inLoop m)
  roundStarted : ∀ {ended m}, ended ≠ some true → Round none m →
    Round ended (do
      happens .roundStarted
      m)
  roundOver : ∀ {ended} status, ended ≠ some false → Round ended (Pure.pure status)
  roundFailed : Round none (throw .outOfFuel)
  roundBind : ∀ {α : Type} {m : Sh ω D P α} {f}, Quiet m → (∀ a, Round none (f a)) →
    Round none (m >>= f)
  caught : ∀ {m f}, H m → (∀ status, Round none (f (.status status))) →
    (∀ isBreak, Round (some isBreak) (f (.control isBreak))) →
    Round none (catchLoopControl m >>= f)

structure Disciplined (H : {α : Type} → Sh ω D P α → Prop)
    (Round : Option Bool → Sh ω D P Int → Prop) (inner : Inner ω D P) : Prop where
  list : ∀ items, H (inner.list items)
  command : ∀ command, H (inner.command command)
  round : ∀ {ended} kind condition body status, ended ≠ some true →
    Round ended (inner.round kind condition body status)

namespace Discipline

variable {machine : Machine ω D P} {H Body : {α : Type} → Sh ω D P α → Prop}
  {Marks : Sh ω D P Int → Prop} {Round : Option Bool → Sh ω D P Int → Prop}
  (discipline : Discipline machine H Body Marks Round)

include discipline

theorem expansionFrame : ExpansionFrame fun {_} (m : Sh ω D P _) => H m where
  toCompositional := discipline.toCompositional
  get := discipline.quiet Quiet.get
  raise message := discipline.quiet (Quiet.raise message)
  arithmetic expression := discipline.quiet (Quiet.arithmeticValue expression)
  assign name value := discipline.quiet (Quiet.assignDefault name value)

omit discipline [DecidableEq D] [DecidableEq P] in
theorem ite {α : Type} {Q : Sh ω D P α → Prop} {c : Prop} [Decidable c] {m m' : Sh ω D P α}
    (hm : Q m) (hm' : Q m') : Q (if c then m else m') := by
  split
  · exact hm
  · exact hm'

variable {knowledge : Knowledge ω D} {parse : ParseText} {inner : Inner ω D P}
  (hinner : Disciplined H Round inner)

include hinner

/-! ## Subshells and substitutions -/

theorem subshellBody (body : SubshellBody D) : Body (body.run machine inner) := by
  cases body with
  | list items => exact discipline.body (hinner.list items)
  | substitution items writeEnd =>
      exact discipline.bodyBind (discipline.placed _ _ (.inr rfl)) fun _ =>
        discipline.body (hinner.list items)
  | stage command input output started =>
      refine discipline.bodyBind (discipline.placed _ _ (.inl rfl)) fun _ => ?_
      refine discipline.bodyBind (discipline.placed _ _ (.inr rfl)) fun _ => ?_
      exact discipline.body (discipline.startsInsteadOfWait _ (hinner.command command))

theorem runCommandSubstitution (source : Text) (line : Nat) :
    H (Shell.runCommandSubstitution machine parse inner source line) := by
  refine discipline.bind discipline.counted fun _ => ?_
  dsimp only
  split
  · refine discipline.bind (discipline.quiet .getState) fun state => ?_
    exact discipline.bind (discipline.quiet (.writeErr machine _)) fun _ => discipline.pure _
  · refine discipline.bind (discipline.quiet (.onOutside _)) fun ends => ?_
    refine discipline.bind (discipline.startsInsteadOfWait none (discipline.subshell
      (discipline.subshellBody hinner _))) fun status => ?_
    exact discipline.bind (discipline.quiet (.readOutput machine _)) fun _ => discipline.pure _

theorem commandSubstitution (source : Text) (line : Nat) :
    H (Hsh.commandSubstitution (shellHost machine parse inner) source line) :=
  discipline.substitution (discipline.runCommandSubstitution hinner) source line

/-! ## Builtins -/

theorem runCommands {failed : ShellError → Sh ω D P Int} (hfailed : ∀ error, H (failed error))
    (error : Option ShellError) :
    ∀ status commands, H (Shell.runCommands inner failed error status commands)
  | status, [] => by
      rw [Shell.runCommands.eq_def]
      dsimp only
      split
      · exact hfailed _
      · exact discipline.pure _
  | status, items :: rest => by
      rw [Shell.runCommands]
      exact discipline.bind (hinner.list items) fun status =>
        runCommands hfailed error status rest

theorem builtinEval (arguments : List Text) : H (Shell.builtinEval parse inner arguments) := by
  rw [Shell.builtinEval]
  dsimp only
  refine ite (discipline.pure _) (discipline.bind (discipline.quiet .getMembers)
    fun members => ?_)
  exact discipline.runCommands hinner (fun error => discipline.quiet (.fail _)) _ _ _

theorem builtinDot (arguments : List Text) :
    H (Shell.builtinDot machine parse inner arguments) := by
  rw [Shell.builtinDot.eq_def]
  split
  · exact discipline.pure _
  · refine discipline.bind (discipline.quiet (.dotText machine _)) fun source => ?_
    exact discipline.dotScript (discipline.runCommands hinner
      (fun error => discipline.quiet (.throw (show IsOrdinary (.shellError _) from trivial))) _ _ _)

theorem runBuiltin {name : Text} (hbreak : name ≠ text "break") (hcontinue : name ≠ text "continue")
    (hexec : name ≠ text "exec") (arguments : List Text) :
    H (Shell.runBuiltin machine knowledge parse inner name arguments) := by
  have hquiet {m : Sh ω D P Int} (h : Quiet m) : H m := discipline.quiet h
  rw [Shell.runBuiltin, if_neg hbreak, if_neg hcontinue, if_neg hexec]
  refine ite (discipline.builtinDot hinner arguments) ?_
  refine ite (hquiet (.builtinCd machine arguments)) ?_
  refine ite (discipline.builtinEval hinner arguments) ?_
  refine ite (hquiet (.builtinExit arguments)) ?_
  refine ite (hquiet (.builtinExportReadonly machine knowledge false arguments)) ?_
  refine ite (hquiet (.pure _)) ?_
  refine ite (hquiet (.builtinRead machine arguments)) ?_
  refine ite (hquiet (.builtinExportReadonly machine knowledge true arguments)) ?_
  refine ite (discipline.returns arguments) ?_
  refine ite (hquiet (.builtinSet machine knowledge arguments)) ?_
  refine ite (hquiet (.builtinShift arguments)) ?_
  refine ite (hquiet (.builtinTest machine knowledge _)) ?_
  refine ite (hquiet (.builtinUnset arguments)) ?_
  exact ite (hquiet (.builtinWait machine arguments)) (hquiet (.pure _))

theorem callBuiltin (name : Text) (arguments : List Text) :
    Marks (Shell.callBuiltin machine knowledge parse inner name arguments) := by
  rw [Shell.callBuiltin]
  by_cases hbreak : name = text "break"
  · subst hbreak
    exact discipline.marks (discipline.breaks _ true arguments rfl)
  by_cases hcontinue : name = text "continue"
  · subst hcontinue
    exact discipline.marks (discipline.breaks _ false arguments rfl)
  by_cases hexec : name = text "exec"
  · subst hexec
    exact discipline.exec arguments
  · exact discipline.marks (discipline.bind (discipline.builtinStarted name arguments hbreak hcontinue)
      fun _ => discipline.runBuiltin hinner hbreak hcontinue hexec arguments)

/-! ## Simple commands -/

omit hinner in
theorem runWithAssignments (traceErr : Option D) (assignments : List (Text × Text)) (name : Text)
    (arguments : List Text) {run : Sh ω D P Int} (hrun : Marks run) :
    H (Shell.runWithAssignments machine traceErr assignments name arguments run) := by
  refine discipline.bind (discipline.quiet (.assignSaving _ _)) fun restore => ?_
  refine discipline.bind (discipline.quiet (.traceCommand machine _ _ _)) fun _ => ?_
  refine discipline.taken hrun fun status keep => ?_
  exact discipline.bind (discipline.quiet (.restoreAssignments restore)) fun _ => discipline.pure _

theorem runFields (traceErr : Option D) (assignments : List (Text × Text)) (name : Text)
    (arguments : List Text) :
    H (Shell.runFields machine knowledge parse inner traceErr assignments name arguments) := by
  rw [Shell.runFields]
  split
  · refine discipline.bind (discipline.quiet (.assignAll _)) fun _ => ?_
    refine discipline.bind (discipline.quiet (.traceCommand machine _ _ _)) fun _ => ?_
    exact discipline.taken (discipline.callBuiltin hinner name arguments) fun _ _ =>
      discipline.pure _
  · refine discipline.bind (discipline.quiet .getMembers) fun members => ?_
    split
    · exact discipline.runWithAssignments _ _ _ _
        (discipline.marks (discipline.function _ (hinner.command _)))
    · split
      · exact discipline.runWithAssignments _ _ _ _ (discipline.callBuiltin hinner name arguments)
      · exact discipline.bind (discipline.quiet (.runProgram machine _ _ _ _)) fun _ =>
          discipline.pure _

theorem runSimpleCommand (command : SimpleCommand HereDocument) (substitutions : Nat)
    (traceErr : Option D) (fields : List Text) :
    H (Shell.runSimpleCommand machine knowledge parse inner command substitutions traceErr
      fields) := by
  refine discipline.bind (discipline.mapM fun assignment _ => ?_) fun assignments => ?_
  · refine discipline.bind (discipline.expansionFrame.expandToKind .assignment fun _ =>
      discipline.commandSubstitution hinner) fun _ => discipline.pure _
  · split
    · refine discipline.bind (discipline.quiet (.assignAll _)) fun _ => ?_
      refine discipline.bind (discipline.quiet (.traceCommand machine _ _ _)) fun _ => ?_
      refine discipline.bind (discipline.quiet .getMembers) fun _ => ?_
      exact discipline.bind (discipline.quiet .getState) fun _ => discipline.pure _
    · exact discipline.runFields hinner _ _ _ _

theorem executeSimpleCommand (command : SimpleCommand HereDocument) :
    H (Shell.executeSimpleCommand machine knowledge parse inner command) := by
  refine discipline.bind (discipline.quiet (.modifyMembers fun _ => ⟨rfl, rfl⟩)) fun _ => ?_
  refine discipline.bind (discipline.quiet .getMembers) fun members => ?_
  refine discipline.bind (discipline.expansionFrame.expandWords fun _ =>
    discipline.commandSubstitution hinner) fun fields => ?_
  refine discipline.bind (discipline.quiet .getState) fun state => ?_
  refine ite (discipline.pure _) ?_
  refine discipline.bind (discipline.quiet (.look _)) fun traceErr => ?_
  exact discipline.redirected _ (discipline.commandSubstitution hinner)
    (fun error => discipline.quiet (.failedRedirection machine fields error))
    (discipline.runSimpleCommand hinner _ _ _ _)

/-! ## Compound commands -/

theorem executeIf (elseBody : Option (CommandList HereDocument Text)) :
    ∀ branches, H (Shell.executeIf inner elseBody branches)
  | .mk condition body :: rest => by
      rw [Shell.executeIf]
      refine discipline.bind (discipline.tested (hinner.list condition)) fun status => ?_
      exact ite (hinner.list body) (executeIf elseBody rest)
  | [] => by
      rw [Shell.executeIf.eq_def]
      dsimp only
      split
      · exact hinner.list _
      · exact discipline.pure _

theorem executeRound {ended : Option Bool} (hended : ended ≠ some true) (kind : LoopKind)
    (condition body : CommandList HereDocument Text) (status : Int) :
    Round ended (Shell.executeRound inner kind condition body status) := by
  refine discipline.roundStarted hended (discipline.caught (discipline.tested
    (hinner.list condition)) (fun tests => ?_) fun isBreak => ?_)
  · dsimp only
    split
    · refine discipline.caught (hinner.list body) (fun status => ?_) fun isBreak => ?_
      · exact hinner.round kind condition body status nofun
      · cases isBreak with
        | true => exact discipline.roundOver 0 nofun
        | false => exact hinner.round kind condition body 0 nofun
    · exact discipline.roundOver status nofun
  · cases isBreak with
    | true => exact discipline.roundOver status nofun
    | false => exact hinner.round kind condition body status nofun

theorem executeFor (var : Text) (body : CommandList HereDocument Text) :
    ∀ (values : List Text) {ended : Option Bool} (status : Int), ended ≠ some true →
      Round ended (Shell.executeFor inner var body status values)
  | [], _, status, hended => discipline.roundStarted hended (discipline.roundOver status nofun)
  | value :: values, _, status, hended => by
      rw [Shell.executeFor]
      refine discipline.roundStarted hended (discipline.roundBind
        (.assignVariable var value) fun _ => ?_)
      refine discipline.caught (hinner.list body) (fun status => ?_) fun isBreak => ?_
      · exact executeFor var body values status nofun
      · cases isBreak with
        | true => exact discipline.roundOver 0 nofun
        | false => exact executeFor var body values 0 nofun

theorem matchesAny (subject : Text) :
    ∀ patterns, H (Shell.matchesAny machine parse inner subject patterns)
  | [] => discipline.pure _
  | pattern :: rest => by
      rw [Shell.matchesAny]
      refine discipline.bind (discipline.expansionFrame.expandPattern fun _ =>
        discipline.commandSubstitution hinner) fun expanded => ?_
      exact ite (discipline.pure _) (matchesAny subject rest)

theorem executeCase (subject : Text) :
    ∀ items, H (Shell.executeCase machine parse inner subject items)
  | [] => discipline.pure _
  | .mk patterns body :: rest => by
      rw [Shell.executeCase]
      refine discipline.bind (discipline.matchesAny hinner subject patterns) fun found => ?_
      exact ite (ite (discipline.pure _) (hinner.list body))
        (executeCase subject rest)

theorem executeCompound (compound : Compound HereDocument Text) :
    H (Shell.executeCompound machine parse inner compound) := by
  cases compound with
  | braceGroup items => exact hinner.list items
  | subshell items => exact discipline.subshell (discipline.subshellBody hinner _)
  | ifCommand branches elseBody => exact discipline.executeIf hinner elseBody branches
  | loop kind condition body =>
      exact discipline.loop (hinner.round kind condition body 0 nofun)
  | forCommand var words body =>
      have hloop (values : List Text) : H (inLoop (Shell.executeFor inner var body 0 values)) :=
        discipline.loop (discipline.executeFor hinner var body values 0 nofun)
      rw [Shell.executeCompound.eq_def]
      cases words with
      | some words =>
          exact discipline.bind (discipline.expansionFrame.expandWords fun _ =>
            discipline.commandSubstitution hinner) hloop
      | none =>
          exact discipline.bind (discipline.quiet .getState) fun state => hloop state.positional
  | caseCommand subject items =>
      refine discipline.bind (discipline.expansionFrame.expandToKind .string fun _ =>
        discipline.commandSubstitution hinner) fun subject => ?_
      exact discipline.executeCase hinner subject items

theorem executeKind (command : Command HereDocument Text) :
    H (Shell.executeKind machine knowledge parse inner command) := by
  cases command with
  | simple simple => exact discipline.executeSimpleCommand hinner simple
  | functionDefinition name body sourceText line =>
      exact discipline.bind (discipline.quiet (.modifyMembers fun _ => ⟨rfl, rfl⟩)) fun _ =>
        discipline.pure _
  | compound body redirections line =>
      refine discipline.bind (discipline.quiet (.modifyMembers fun _ => ⟨rfl, rfl⟩)) fun _ => ?_
      refine discipline.redirected _ (discipline.commandSubstitution hinner)
        (fun error => discipline.quiet (.reportThen machine error 2)) ?_
      exact discipline.bind (discipline.executeCompound hinner body) fun _ => discipline.pure _

theorem executeCommand (command : Command HereDocument Text) :
    H (Shell.executeCommand machine knowledge parse inner command) := by
  refine discipline.bind (discipline.quiet (.throwIfStopRequested machine)) fun _ => ?_
  exact discipline.bind discipline.commandStarted fun _ => discipline.executeKind hinner command

/-! ## Pipelines -/

theorem runStage (started : Bool) (command : Command HereDocument Text) (input output : Option D) :
    H (Shell.runStage machine inner started command input output) := by
  refine discipline.bind (discipline.quiet .getMembers) fun members => ?_
  refine discipline.bind (discipline.quiet (.modifyMembers fun _ => ⟨rfl, rfl⟩)) fun _ => ?_
  refine discipline.bind (discipline.subshell (discipline.subshellBody hinner _)) fun status => ?_
  exact discipline.bind (discipline.quiet .getMembers) fun _ => discipline.pure _

theorem runPass (child : Bool) :
    ∀ stages left pipes, H (Shell.runPass machine inner child stages left pipes)
  | [], _, _ => discipline.pure _
  | (command, childStage) :: rest, left, pipes => by
      rw [Shell.runPass]
      split
      · refine discipline.bind (discipline.quiet (.stageEnd machine _ _ _)) fun input => ?_
        refine discipline.bind (discipline.quiet (.stageEnd machine _ _ _)) fun output => ?_
        refine discipline.bind (discipline.runStage hinner _ _ _ _) fun ended => ?_
        refine discipline.bind (discipline.quiet (.release machine _)) fun _ => ?_
        refine discipline.bind (discipline.quiet (.release machine _)) fun _ => ?_
        exact discipline.bind (runPass child rest _ _) fun _ => discipline.pure _
      · exact discipline.bind (runPass child rest _ _) fun _ => discipline.pure _

theorem executePipelinedStages (commands : List (Command HereDocument Text)) :
    H (Shell.executePipelinedStages machine inner commands) := by
  refine discipline.bind (discipline.quiet (.classify _)) fun stages => ?_
  refine discipline.bind (discipline.quiet (.createStagePipes machine _ _)) fun pipes => ?_
  split
  · exact discipline.quiet (.reportThen machine _ _)
  · refine discipline.bind (discipline.runPass hinner true _ _ _) fun children => ?_
    refine discipline.bind (discipline.runPass hinner false _ _ _) fun inShell => ?_
    exact discipline.bind (discipline.quiet (.waitForStages machine _)) fun _ => discipline.pure _

theorem executePipeline (pipeline : Pipeline HereDocument Text) :
    H (Shell.executePipeline machine inner pipeline) := by
  obtain ⟨negated, first, rest, line⟩ := pipeline
  have hended (status : Int) : H (do
      modifyState fun state => { state with lastExitStatus := negate negated status }
      pure (negate negated status)) :=
    discipline.bind (discipline.quiet (.modifyState fun _ => rfl)) fun _ => discipline.pure _
  rw [Shell.executePipeline.eq_def]
  cases rest with
  | nil => exact discipline.bind (hinner.command first) hended
  | cons second rest =>
      refine discipline.bind (discipline.quiet (.modifyMembers fun _ => ⟨rfl, rfl⟩)) fun _ => ?_
      exact discipline.bind (discipline.executePipelinedStages hinner _) hended

/-! ## Background lists -/

theorem startBackgroundStages :
    ∀ commands input pipes, H (Shell.startBackgroundStages machine inner commands input pipes)
  | [], _, _ => discipline.pure _
  | command :: rest, input, pipes => by
      rw [Shell.startBackgroundStages]
      refine discipline.bind (discipline.quiet (.stageEnd machine _ _ _)) fun output => ?_
      refine discipline.bind (discipline.runStage hinner _ _ _ _) fun ended => ?_
      refine discipline.bind (discipline.quiet (.release machine _)) fun _ => ?_
      refine discipline.bind (discipline.quiet (.release machine _)) fun _ => ?_
      exact discipline.bind (startBackgroundStages rest _ _) fun _ => discipline.pure _

theorem startBackgroundPipeline (commands : List (Command HereDocument Text)) :
    H (Shell.startBackgroundPipeline machine inner commands) := by
  refine discipline.bind (discipline.quiet (.createStagePipes machine _ _)) fun pipes => ?_
  split
  · exact discipline.quiet (.reportThen machine _ _)
  · refine discipline.bind (discipline.quiet (.onOutside _)) fun input => ?_
    refine discipline.bind (discipline.startBackgroundStages hinner _ _ _) fun ended => ?_
    split
    · exact discipline.pure _
    · exact discipline.bind (discipline.quiet (.recordJob machine _)) fun _ => discipline.pure _

theorem startBackground (andOr : AndOrList HereDocument Text) (sourceText : Text) :
    H (Shell.startBackground machine inner andOr sourceText) := by
  rw [Shell.startBackground.eq_def]
  cases andOr with
  | last pipeline =>
      refine discipline.bind (discipline.quiet (.classify _)) fun stages => ?_
      exact ite (discipline.startBackgroundPipeline hinner _)
        (discipline.backgroundShell sourceText)
  | chain pipeline operator rest => exact discipline.backgroundShell sourceText

/-! ## Lists -/

theorem runPipeline (last : Bool) (pipeline : Pipeline HereDocument Text) :
    H (Shell.runPipeline machine inner last pipeline) :=
  ite (discipline.tested (discipline.executePipeline hinner pipeline))
    (discipline.executePipeline hinner pipeline)

theorem unlessSkipped (run last : Bool) (pipeline : Pipeline HereDocument Text) :
    H (Shell.unlessSkipped machine inner run last pipeline) := by
  refine ite (discipline.bind (discipline.quiet .getState) fun state => ?_)
    (discipline.pure _)
  exact ite (discipline.pure _)
    (discipline.bind (discipline.runPipeline hinner last pipeline) fun _ => discipline.pure _)

theorem executeChain :
    ∀ run status andOr, H (Shell.executeChain machine inner run status andOr)
  | run, _, .last pipeline =>
      discipline.bind (discipline.unlessSkipped hinner run true pipeline) fun _ =>
        discipline.pure _
  | run, _, .chain pipeline _ rest =>
      discipline.bind (discipline.unlessSkipped hinner run false pipeline) fun _ =>
        executeChain _ _ rest

theorem executeAndOr (andOr : AndOrList HereDocument Text) :
    H (Shell.executeAndOr machine inner andOr) := by
  refine discipline.bind (discipline.quiet .getState) fun state => ?_
  refine discipline.bind (discipline.executeChain hinner true _ andOr) fun ended => ?_
  refine discipline.bind (discipline.quiet .getState) fun state => ?_
  refine discipline.bind (discipline.quiet .getMembers) fun members => ?_
  exact ite (discipline.quiet (.throw trivial)) (discipline.pure _)

theorem executeItem (item : ListItem HereDocument Text) :
    H (Shell.executeItem machine inner item) := by
  refine ite (discipline.bind (discipline.quiet
    (.modifyMembers fun _ => ⟨rfl, rfl⟩)) fun _ => ?_) (discipline.executeAndOr hinner item.andOr)
  exact discipline.startBackground hinner _ _

theorem executeItems :
    ∀ status items, H (Shell.executeItems machine inner status items)
  | status, [] => discipline.pure _
  | status, item :: rest => by
      rw [Shell.executeItems]
      refine discipline.bind (discipline.quiet .getState) fun state => ?_
      exact ite (executeItems status rest)
        (discipline.bind (discipline.executeItem hinner item) fun status =>
          executeItems status rest)

theorem executeList (items : CommandList HereDocument Text) :
    H (Shell.executeList machine inner items) :=
  discipline.bind (discipline.quiet .getState) fun _ => discipline.executeItems hinner _ items

/-! ## Depth -/

omit hinner in
theorem executor (knowledge : Knowledge ω D) (parse : ParseText) :
    ∀ fuel, Disciplined H Round (Shell.executor machine knowledge parse fuel)
  | 0 =>
      { list := fun _ => discipline.quiet (.throw trivial)
        command := fun _ => discipline.quiet (.throw trivial)
        round := fun _ _ _ _ hended => discipline.roundStarted hended discipline.roundFailed }
  | fuel + 1 =>
      { list := discipline.executeList (executor knowledge parse fuel)
        command := discipline.executeCommand (executor knowledge parse fuel)
        round := fun kind condition body status hended =>
          discipline.executeRound (executor knowledge parse fuel) hended kind condition body status }

end Discipline

end Haisos.Hsh.Shell
