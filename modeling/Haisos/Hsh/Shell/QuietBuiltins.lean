import Haisos.Hsh.Shell.Quiet

/-!
# What is quiet

The builtins but `break`, `continue`, `return`, `exec` and those that run commands,
and the parts of execution that run no command.
-/

namespace Haisos.Hsh.Shell

open StateExcept

variable {ω D P α : Type}

namespace Quiet

section

variable (machine : Machine ω D P)

/-! ## Output -/

theorem throwIfStopRequested : Quiet (Shell.throwIfStopRequested machine) := by
  refine bind (look _) fun stop => ?_
  split
  · exact throw trivial
  · exact pure _

theorem systemWrite (descriptor : D) (output : Text) :
    Quiet (Hsh.perform ((system machine).write descriptor output)) :=
  perform fun _ => ⟨rfl, rfl⟩

theorem writeLoop (descriptor : D) :
    ∀ fuel output, Quiet (Shell.writeLoop machine descriptor fuel output)
  | 0, output => by
      rw [Shell.writeLoop]
      split
      · exact pure _
      · exact throw trivial
  | fuel + 1, output => by
      rw [Shell.writeLoop]
      split
      · exact pure _
      · refine bind (systemWrite machine _ _) fun result => ?_
        split
        · refine bind getMembers fun members => ?_
          have hstop : Quiet (do
              Hsh.perform (Members.onOutside fun outside => ((), machine.stopForBrokenPipe outside))
              Shell.modifyMembers fun members => { members with brokenPipe := true }
              MonadExcept.throw .stopped : Sh ω D P Unit) := by
            refine bind (onOutside _) fun _ => ?_
            exact bind (modifyMembers fun _ => ⟨rfl, rfl⟩) fun _ => throw trivial
          dsimp only
          split
          · exact bind (throw trivial) fun _ => hstop
          · exact hstop
        · exact throw trivial
        · exact pure _
        · exact writeLoop descriptor fuel _

theorem writeTo (descriptor : Option D) (output : Text) :
    Quiet (Shell.writeTo machine descriptor output) := by
  refine bind getMembers fun members => ?_
  split
  · split
    · exact pure _
    · exact writeLoop machine _ _ _
  · exact pure _

theorem writeSlot (fd : Nat) (output : Text) : Quiet (Shell.writeSlot machine fd output) :=
  bind (look _) fun _ => writeTo machine _ _

theorem writeOut (output : Text) : Quiet (Shell.writeOut machine output) := writeSlot machine _ _

theorem writeErr (output : Text) : Quiet (Shell.writeErr machine output) := writeSlot machine _ _

theorem report (message : Text) : Quiet (Shell.report machine message) :=
  bind getState fun _ => bind getMembers fun _ => writeErr machine _

theorem reportError (error : ShellError) : Quiet (Shell.reportError machine error) :=
  bind getMembers fun _ => bind getState fun _ => writeErr machine _

theorem reportThen (message : Text) (a : α) :
    Quiet (do
      Shell.report machine message
      Pure.pure a) :=
  bind (report machine message) fun _ => pure a

/-! ## Children -/

theorem startChild (path : Text) (arguments : List Text) (assignments : List (Text × Text)) :
    Quiet (Shell.startChild machine path arguments assignments) := by
  refine bind getState fun state => ?_
  refine bind (perform fun _ => ⟨rfl, rfl⟩) fun child => ?_
  split
  · exact pure _
  · exact bind (modifyMembers fun _ => ⟨rfl, rfl⟩) fun _ => pure _

variable [DecidableEq P]

theorem waitForChild (child : P) : Quiet (Shell.waitForChild machine child) := by
  refine bind getMembers fun members => bind (onOutside _) fun status => ?_
  refine bind (modifyMembers fun _ => ⟨rfl, rfl⟩) fun _ => ?_
  exact bind (throwIfStopRequested machine) fun _ => pure _

omit machine in
theorem forgetLiveChildren_frame (children : List P) (members : Members ω D P) :
    (children.foldl (fun members child => forgetLiveChild child members) members).frame =
        members.frame ∧
      (children.foldl (fun members child => forgetLiveChild child members) members).ownPositional =
        members.ownPositional := by
  induction children generalizing members with
  | nil => exact ⟨rfl, rfl⟩
  | cons child children ih => exact ih (forgetLiveChild child members)

theorem recordJob (job : Job P) : Quiet (Shell.recordJob machine job) := by
  refine bind (modifyState fun _ => rfl) fun _ => modifyMembers fun members => ?_
  dsimp only
  generalize dropFinished _ _ _ = kept
  exact forgetLiveChildren_frame _ { members with jobs := kept.1 }

end

section

variable (machine : Machine ω D P) (knowledge : Knowledge ω D)

/-! ## `set` and `shift` -/

theorem writeEach (lines : List Text) : Quiet (Shell.writeEach machine lines) :=
  forM fun _ _ => writeOut machine _

theorem printOptions (on : Bool) : Quiet (Shell.printOptions machine on) := by
  refine bind getState fun state => ?_
  dsimp only
  split
  · exact bind (writeOut machine _) fun _ => writeEach machine _
  · exact writeEach machine _

theorem setOption (on : Bool) (spelling : Text) (info : Option ShellOptionInfo) :
    Quiet (Shell.setOption machine knowledge on spelling info) := by
  rw [Shell.setOption.eq_def]
  split
  · exact fail _
  · split
    · exact modifyState fun _ => rfl
    · exact writeErr machine _

theorem setLetters (on : Bool) :
    ∀ letters rest, Quiet (Shell.setLetters machine knowledge on letters rest)
  | [], rest => pure rest
  | letter :: letters, rest => by
      rw [Shell.setLetters.eq_def]
      split
      · exact pure _
      · rename_i letters' name rest' hletters
        cases hletters
        have hrest := setLetters on letters rest'
        split
        · exact bind (fail (α := PUnit) _) fun _ => hrest
        · exact bind (setOption machine knowledge _ _ _) fun _ => hrest
      · rename_i letters' hletters
        cases hletters
        exact bind (printOptions machine on) fun _ => setLetters on letters _
      · rename_i hletters _ _
        cases hletters
        exact bind (setOption machine knowledge _ _ _) fun _ => setLetters on letters _

theorem setOptions :
    ∀ fuel arguments, Quiet (Shell.setOptions machine knowledge fuel arguments)
  | 0, _ => throw trivial
  | fuel + 1, [] => pure _
  | fuel + 1, argument :: rest => by
      rw [Shell.setOptions.eq_def]
      dsimp only
      split
      · exact bind (modifyState fun _ => rfl) fun _ => pure _
      · split
        · exact pure _
        · split
          · exact bind (setLetters machine knowledge _ _ _) fun _ => setOptions fuel _
          · exact bind (setLetters machine knowledge _ _ _) fun _ => setOptions fuel _
          · exact pure _

theorem builtinSet (arguments : List Text) :
    Quiet (Shell.builtinSet machine knowledge arguments) := by
  rw [Shell.builtinSet]
  split
  · exact bind getState fun _ => bind (writeEach machine _) fun _ => pure _
  · refine bind (setOptions machine knowledge _ _) fun operands => ?_
    split
    · exact pure _
    · exact bind (setPositional _) fun _ => pure _

theorem builtinShift (arguments : List Text) :
    Quiet (Shell.builtinShift arguments : Sh ω D P Int) := by
  have hshift (count : Nat) : Quiet (do
      let positional := (← Hsh.getState).positional
      if count > positional.length then Shell.fail (text "shift: can't shift that many")
      Shell.setPositional (positional.drop count)
      Pure.pure 0 : Sh ω D P Int) := by
    refine bind getState fun state => ?_
    have hset (positional : List Text) : Quiet (do
        Shell.setPositional positional
        Pure.pure 0 : Sh ω D P Int) := bind (setPositional _) fun _ => pure _
    dsimp only
    split
    · exact bind (fail (α := PUnit) _) fun _ => hset _
    · exact hset _
  rw [Shell.builtinShift.eq_def]
  dsimp only
  split
  · exact hshift 1
  · split
    · exact bind (fail _) fun count => hshift count
    · exact hshift _

/-! ## `export`, `readonly` and `unset` -/

omit machine knowledge in
theorem markVariable (setReadonly : Bool) (name : Text) :
    Quiet (Shell.markVariable setReadonly name : Sh ω D P Unit) := modifyState fun _ => rfl

theorem listingOptions (command : Text) :
    ∀ list arguments,
      Quiet (Shell.listingOptions command list arguments : Sh ω D P (Bool × List Text))
  | list, [] => pure _
  | list, argument :: rest => by
      rw [Shell.listingOptions.eq_def]
      dsimp only
      split
      · exact pure _
      · split
        · split
          · exact fail _
          · exact listingOptions command true rest
        · exact pure _

theorem exportOperand (command : Text) (setReadonly : Bool) (operand : Text) :
    Quiet (Shell.exportOperand command setReadonly operand : Sh ω D P Unit) := by
  have hassign (value : Text) : Quiet (do
      Shell.assignVariable (operand.takeWhile (· ≠ '=')) value
      Shell.markVariable setReadonly (operand.takeWhile (· ≠ '=')) : Sh ω D P Unit) :=
    bind (assignVariable _ _) fun _ => markVariable _ _
  rw [Shell.exportOperand.eq_def]
  dsimp only
  refine when_intro (fail _) ?_
  split
  · exact markVariable _ _
  · refine bind getState fun state => ?_
    exact when_intro (fail _) (hassign _)

theorem builtinExportReadonly (setReadonly : Bool) (arguments : List Text) :
    Quiet (Shell.builtinExportReadonly machine knowledge setReadonly arguments) := by
  refine bind (listingOptions _ _ _) fun listing => ?_
  dsimp only
  split
  · exact bind getState fun _ => bind (writeEach machine _) fun _ => pure _
  · exact bind (forM fun _ _ => exportOperand _ _ _) fun _ => pure _

theorem unsetOptions :
    ∀ functions arguments,
      Quiet (Shell.unsetOptions functions arguments : Sh ω D P (Bool × List Text))
  | functions, [] => pure _
  | functions, argument :: rest => by
      rw [Shell.unsetOptions.eq_def]
      dsimp only
      split
      · exact pure _
      · split
        · split
          · exact fail _
          · exact unsetOptions _ rest
        · exact pure _

theorem unsetOperand (functions : Bool) (name : Text) :
    Quiet (Shell.unsetOperand functions name : Sh ω D P Unit) := by
  rw [Shell.unsetOperand.eq_def]
  refine when_intro (fail _) ?_
  split
  · exact modifyMembers fun _ => ⟨rfl, rfl⟩
  · refine atState fun world => ?_
    split
    · exact fail _ world
    · exact QuietAt.setState rfl

theorem builtinUnset (arguments : List Text) :
    Quiet (Shell.builtinUnset arguments : Sh ω D P Int) := by
  refine bind (unsetOptions _ _) fun listing => ?_
  exact bind (forM fun _ _ => unsetOperand _ _) fun _ => pure _

/-! ## `cd`, `read` and `test` -/

theorem setDirectoryVariable (name value : Text) :
    Quiet (Shell.setDirectoryVariable machine name value) := by
  refine bind getState fun state => ?_
  split
  · exact reportThen machine _ _
  · exact bind (assignVariable _ _) fun _ => bind (markVariable _ _) fun _ => pure _

theorem builtinCd (arguments : List Text) : Quiet (Shell.builtinCd machine arguments) := by
  rw [Shell.builtinCd]
  split
  · exact reportThen machine _ _
  · refine bind getState fun state => bind getMembers fun members => ?_
    dsimp only
    split
    · exact reportThen machine _ _
    · refine bind (modifyMembers fun _ => ⟨rfl, rfl⟩) fun _ => ?_
      refine bind (setDirectoryVariable machine _ _) fun old => ?_
      refine bind (setDirectoryVariable machine _ _) fun new => ?_
      exact ite (bind (writeOut machine _) fun _ => pure _) (pure _)

theorem assignLine (names : List Text) (line : List (Char × Bool)) (newline : Bool) :
    Quiet (builtinRead.assignLine names line newline : Sh ω D P Int) :=
  bind getState fun _ => bind (assignAll _) fun _ => pure _

theorem builtinRead (arguments : List Text) : Quiet (Shell.builtinRead machine arguments) := by
  rw [Shell.builtinRead]
  split
  · exact reportThen machine _ _
  · rename_i read _
    refine bind (look _) fun input => bind getMembers fun members => ?_
    dsimp only
    split
    -- with a prompt written, with one that is not, and without one
    on_goal 1 => refine ite (bind (writeErr machine _) fun _ => ?_) ?_
    all_goals
      split
      on_goal 1 => refine bind (pure _) fun ended => ?_
      on_goal 2 => refine bind (onOutside _) fun ended => ?_
      all_goals
        split
        · exact throw trivial
        · exact assignLine _ _ _
        · exact assignLine _ _ _

theorem builtinTest (fields : List Text) : Quiet (Shell.builtinTest machine knowledge fields) := by
  refine bind getMembers fun members => ?_
  rcases knowledge.test fields members.files with ⟨_ | message, status⟩
  · exact pure _
  · exact reportThen machine _ _

/-! ## `wait` and `exit` -/

variable [DecidableEq P]

theorem waitForAll : ∀ status processes, Quiet (Shell.waitForAll machine status processes)
  | status, [] => pure status
  | _, process :: rest => bind (waitForChild machine process) fun status => waitForAll status rest

theorem waitForOperand (status : Int) (operand : Text) :
    Quiet (Shell.waitForOperand machine status operand) := by
  rw [Shell.waitForOperand]
  split
  · exact reportThen machine _ _
  · split
    · exact reportThen machine _ _
    · refine bind getMembers fun members => ?_
      dsimp only
      split
      · exact pure _
      · refine bind (waitForAll machine _ _) fun status => ?_
        exact bind (modifyMembers fun _ => ⟨rfl, rfl⟩) fun _ => pure _

theorem waitForOperands :
    ∀ status operands, Quiet (Shell.waitForOperands machine status operands)
  | status, [] => pure status
  | status, operand :: rest =>
      bind (waitForOperand machine status operand) fun status => waitForOperands status rest

theorem builtinWait (arguments : List Text) : Quiet (Shell.builtinWait machine arguments) := by
  rw [Shell.builtinWait]
  split
  · refine bind getMembers fun members => bind (waitForAll machine _ _) fun _ => ?_
    exact bind (modifyMembers fun _ => ⟨rfl, rfl⟩) fun _ => pure _
  · exact waitForOperands machine _ _

omit [DecidableEq P] in
theorem statusArgument (command : Text) (arguments : List Text) :
    Quiet (Shell.statusArgument command arguments : Sh ω D P Int) := by
  rw [Shell.statusArgument.eq_def]
  split
  · exact bind getState fun _ => pure _
  · split
    · exact fail _
    · exact pure _

omit [DecidableEq P] in
theorem builtinExit (arguments : List Text) : Quiet (Shell.builtinExit arguments : Sh ω D P Int) :=
  bind (statusArgument _ _) fun _ => throw trivial

end

/-! ## Simple commands -/

section

variable (machine : Machine ω D P)

theorem readOutput (readEnd : D) : Quiet (Shell.readOutput machine readEnd) := by
  refine bind (onOutside _) fun ended => ?_
  split
  · exact pure _
  · exact throw trivial
  · exact pure _

theorem dotPath (file : Text) : Quiet (Shell.dotPath machine file) := by
  rw [Shell.dotPath]
  split
  · refine bind (look _) fun status => ?_
    dsimp only
    exact ite (bind (fail (α := PUnit) _) fun _ => pure file) (pure file)
  · refine bind getState fun state => bind (look _) fun found => ?_
    split
    · exact pure _
    · exact fail _

theorem dotText (file : Text) : Quiet (Shell.dotText machine file) := by
  refine bind (dotPath machine file) fun path => ?_
  have hfailed : Quiet (do
      let reason ← Hsh.look (openFailureReason (shellFiles machine) path false)
      Shell.fail (text ".: cannot open " ++ file ++ text ": " ++ reason) : Sh ω D P Text) :=
    bind (look _) fun _ => fail _
  refine bind (perform fun _ => ⟨rfl, rfl⟩) fun opened => ?_
  split
  · exact hfailed
  · refine bind (onOutside _) fun ended => ?_
    split
    · exact pure _
    · exact hfailed

theorem traceCommand (traceErr : Option D) (assignments : List (Text × Text))
    (fields : List Text) : Quiet (Shell.traceCommand machine traceErr assignments fields) :=
  bind getState fun _ => ite (writeTo machine _ _) (pure _)

omit machine in
theorem assignSaving :
    ∀ restore assignments,
      Quiet (Shell.assignSaving restore assignments : Sh ω D P (List AssignmentRestore))
  | _, [] => pure _
  | _, (name, value) :: rest =>
      bind getState fun _ => bind (assignVariable name value) fun _ => assignSaving _ rest

omit machine in
theorem restoreAssignments (restore : List AssignmentRestore) :
    Quiet (Shell.restoreAssignments restore : Sh ω D P Unit) := modifyState fun _ => rfl

theorem failedRedirection (fields : List Text) (error : Text) :
    Quiet (Shell.failedRedirection machine fields error) := by
  rw [Shell.failedRedirection]
  exact ite (bind (fail (α := PUnit) _) fun _ => reportThen machine _ _) (reportThen machine _ _)

theorem runProgram [DecidableEq P] (traceErr : Option D) (name : Text) (arguments : List Text)
    (assignments : List (Text × Text)) :
    Quiet (Shell.runProgram machine traceErr name arguments assignments) := by
  refine bind getState fun state => ?_
  split
  · exact fail _
  · refine bind (traceCommand machine _ _ _) fun _ => bind (look _) fun found => ?_
    split
    · exact reportThen machine _ _
    · exact reportThen machine _ _
    · refine bind (startChild machine _ _ _) fun child => ?_
      split
      · exact reportThen machine _ _
      · refine bind getMembers fun members => ?_
        split
        · exact bind (modifyMembers fun _ => ⟨rfl, rfl⟩) fun _ => pure _
        · exact waitForChild machine _

/-! ## Pipelines -/

theorem release (descriptor : Option D) :
    Quiet (Shell.modifyMembers ((system machine).release descriptor)) :=
  modifyMembers fun _ => ⟨rfl, rfl⟩

theorem stageEnd (fd : Nat) (pipe : Option (StagePipe D)) (pipeEnd : StagePipe D → Option D) :
    Quiet (Shell.stageEnd machine fd pipe pipeEnd) := by
  rw [Shell.stageEnd.eq_def]
  split
  · exact look _
  · exact pure _

theorem createStagePipe (unbounded : Bool) :
    Quiet (Hsh.createStagePipe (system machine) unbounded) := by
  rw [Hsh.createStagePipe]
  split
  · exact bind (onOutside _) fun _ => pure _
  intro world
  have hsame {files : ProcessFiles ω D}
      (h : slotsOf (tableOf (ω := ω) (P := P)) ⟨world.state, world.outside.putFiles files⟩ =
        slotsOf tableOf world) : QuietStep world ⟨world.state, world.outside.putFiles files⟩ :=
    ⟨congrArg (fun slots => { world.outside.frame with slots }) h, fun _ hown => hown, fun _ => rfl⟩
  rcases slotsOf_createPipe (system_usesTable machine) 0 world with
    ⟨hnone, hslots⟩ | ⟨readSlot, writeSlot, readEnd, writeEnd, piped, hpipe, hread, hwrite, hslots⟩
  · refine .of_ok (a := none) _ ?_ (hsame hslots)
    rw [exec_bind, exec_perform, hnone]
    rfl
  · have hfiles : piped = world.outside.putFiles piped.files := by
      have hpiped : ((system machine).createPipe 0 world.outside).2 = piped := by rw [hpipe]
      rw [← hpiped]
      rfl
    have hread : (system machine).getDescriptor readSlot piped = some readEnd := hread
    have hwrite : (system machine).getDescriptor writeSlot piped = some writeEnd := hwrite
    rw [hfiles] at hpipe hread hwrite hslots
    refine .of_ok (a := some ⟨some readEnd, some writeEnd⟩) _ ?_ (hsame hslots)
    rw [exec_bind, exec_perform, hpipe]
    simp only [exec_bind, exec_look, exec_perform, exec_pure, hread, hwrite]
    rfl

theorem createStagePipes :
    ∀ inShellBefore stages,
      Quiet (Hsh.createStagePipes (system machine) inShellBefore stages)
  | _, [] => pure _
  | _, [_] => pure _
  | inShellBefore, childStage :: next :: rest => by
      rw [Hsh.createStagePipes]
      refine bind (createStagePipe machine _) fun pipe => ?_
      split
      · exact pure _
      · refine bind (createStagePipes _ (next :: rest)) fun pipes => ?_
        split
        · exact pure _
        · exact pure _

theorem waitForStages [DecidableEq P] :
    ∀ stages : List (StageEnd P), Quiet (Shell.waitForStages machine stages)
  | [] => pure _
  | ended :: rest => by
      rw [Shell.waitForStages]
      have hrest (status : Int) : Quiet (do
          Pure.pure (status :: (← Shell.waitForStages machine rest))) :=
        bind (waitForStages rest) fun _ => pure _
      dsimp only
      split
      · exact bind (waitForChild machine _) hrest
      · exact bind (pure _) hrest

omit machine in
theorem classify (commands : List (Command HereDocument Text)) :
    Quiet (Shell.classify commands : Sh ω D P _) := bind getMembers fun _ => pure _

end

end Quiet

end Haisos.Hsh.Shell
