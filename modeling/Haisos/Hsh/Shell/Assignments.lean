import Haisos.Hsh.Redirection.PutBack
import Haisos.Hsh.Shell.Execute

/-!
# Assignments before a command

What the assignments of a regular builtin or a function leave behind, once they are
put back or the command has failed.
-/

namespace Haisos.Hsh.Shell

open StateExcept

variable {ω D P : Type}

/-! ## Assignments to the variables alone -/

/-- What `AssignVariable` makes of an entry. -/
def assignEntry (allexport : Bool) (value : Text) (entry : ShellVariables.Entry) :
    ShellVariables.Entry :=
  { entry with value := some value, exported := entry.exported || allexport }

def assigned (allexport : Bool) (vars : ShellVariables) (assignments : List (Text × Text)) :
    ShellVariables :=
  assignments.foldl
    (fun vars assignment => vars.update assignment.1
      (assignEntry allexport assignment.2 (vars.entry assignment.1))) vars

/-- What a name is given by the last of the assignments to it. -/
def lastAssigned (name : Text) : List (Text × Text) → Option Text
  | [] => none
  | (other, value) :: rest =>
      (lastAssigned name rest).or (if other = name then some value else none)

def namesOf (assignments : List (Text × Text)) : List Text := assignments.map Prod.fst

/-- What `assignSaving` keeps of the assignments, the latest first. -/
def saves (allexport : Bool) (vars : ShellVariables) :
    List (Text × Text) → List AssignmentRestore
  | [] => []
  | (name, value) :: rest =>
      saves allexport (vars.update name (assignEntry allexport value (vars.entry name))) rest ++
        [{ name, value := (vars.entry name).value, exported := (vars.entry name).exported }]

/-- The assignments before the first that is refused. -/
def accepted (vars : ShellVariables) (assignments : List (Text × Text)) : List (Text × Text) :=
  assignments.takeWhile fun assignment => !(vars.entry assignment.1).readonly

@[simp] theorem update_entry_same (vars : ShellVariables) (name : Text)
    (entry : ShellVariables.Entry) : (vars.update name entry).entry name = entry :=
  if_pos rfl

theorem update_entry_of_ne (vars : ShellVariables) {name other : Text}
    (entry : ShellVariables.Entry) (h : other ≠ name) :
    (vars.update name entry).entry other = vars.entry other :=
  if_neg h

theorem assigned_readonly (allexport : Bool) (name : Text) :
    ∀ (assignments : List (Text × Text)) (vars : ShellVariables),
      ((assigned allexport vars assignments).entry name).readonly = (vars.entry name).readonly
  | [], _ => rfl
  | (other, value) :: rest, vars => by
      refine (assigned_readonly allexport name rest _).trans ?_
      by_cases h : name = other
      · subst h
        rw [update_entry_same]
        rfl
      · rw [update_entry_of_ne _ _ h]

theorem assigned_entry (allexport : Bool) (name : Text) :
    ∀ (assignments : List (Text × Text)) (vars : ShellVariables),
      (assigned allexport vars assignments).entry name =
        match lastAssigned name assignments with
        | some value => assignEntry allexport value (vars.entry name)
        | none => vars.entry name
  | [], _ => rfl
  | (other, value) :: rest, vars => by
      refine (assigned_entry allexport name rest _).trans ?_
      rw [lastAssigned]
      by_cases h : other = name
      · subst h
        rw [update_entry_same, if_pos rfl]
        cases lastAssigned other rest with
        | none => rfl
        | some last => simp [assignEntry]
      · rw [update_entry_of_ne _ _ (Ne.symm h), if_neg h, Option.or_none]

theorem lastAssigned_isSome {name : Text} :
    ∀ {assignments : List (Text × Text)},
      (lastAssigned name assignments).isSome ↔ name ∈ namesOf assignments
  | [] => by simp [lastAssigned, namesOf]
  | (other, value) :: rest => by
      have hrest : (lastAssigned name rest).isSome ↔ name ∈ namesOf rest := lastAssigned_isSome
      rw [lastAssigned, namesOf, List.map_cons, List.mem_cons, ← namesOf, ← hrest]
      by_cases h : other = name
      · simp [h]
      · simp [h, Ne.symm h]

/-! ## Putting back -/

/-- What is left of an entry when the assignments to it are put back. -/
def putBackEntry (allexport : Bool) (entry : ShellVariables.Entry) : ShellVariables.Entry :=
  { entry with exported := entry.exported || (allexport && entry.value.isSome) }

def restoreAll (restore : List AssignmentRestore) (vars : ShellVariables) : ShellVariables :=
  restore.foldl (fun vars saved => restoreAssignment saved vars) vars

theorem putBackEntry_assignEntry (allexport : Bool) (value : Text) (entry : ShellVariables.Entry) :
    putBackEntry allexport (assignEntry allexport value entry) =
      assignEntry allexport value entry := by
  simp [putBackEntry, assignEntry]

theorem restoreAssignment_entry_same {allexport : Bool} {name value : Text}
    {entry : ShellVariables.Entry} {vars : ShellVariables} (hreadonly : entry.readonly = false)
    (h : vars.entry name = assignEntry allexport value entry) :
    (restoreAssignment { name, value := entry.value, exported := entry.exported } vars).entry name =
      putBackEntry allexport entry := by
  obtain ⟨kept | kept, exported, readonly⟩ := entry <;> cases hreadonly <;> cases exported <;>
    simp [restoreAssignment, ShellVariables.unset, ShellVariables.set, ShellVariables.markExported,
      putBackEntry, h, assignEntry]

theorem restoreAssignment_entry_of_ne {saved : AssignmentRestore} {name : Text}
    (vars : ShellVariables) (h : name ≠ saved.name) :
    (restoreAssignment saved vars).entry name = vars.entry name := by
  have hput : (match saved.value with
      | some value => (vars.set saved.name value).getD vars
      | none => (vars.unset saved.name).getD vars).entry name = vars.entry name := by
    split
    · rw [ShellVariables.set]
      split_ifs
      · rfl
      · exact update_entry_of_ne _ _ h
    · rw [ShellVariables.unset]
      split_ifs
      · rfl
      · exact update_entry_of_ne _ _ h
  rw [restoreAssignment]
  split_ifs
  · exact (update_entry_of_ne _ _ h).trans hput
  · exact hput

/-- Of the names that were assigned, what is put back; the others stay as they are. -/
theorem restoreAll_entry (allexport : Bool) (name : Text) :
    ∀ (assignments : List (Text × Text)) (vars vars' : ShellVariables),
      (∀ other ∈ namesOf assignments, (vars.entry other).readonly = false) →
      (∀ other ∈ namesOf assignments,
        vars'.entry other = (assigned allexport vars assignments).entry other) →
      (restoreAll (saves allexport vars assignments) vars').entry name =
        if name ∈ namesOf assignments then putBackEntry allexport (vars.entry name)
        else vars'.entry name
  | [], _, _, _, _ => by simp [restoreAll, saves, namesOf]
  | (other, value) :: rest, vars, vars', hreadonly, hassigned => by
      set next := vars.update other (assignEntry allexport value (vars.entry other)) with hnext
      have hrest (name : Text) := restoreAll_entry allexport name rest next vars'
        (fun name hname => by
          have hname' := hreadonly name (List.mem_cons_of_mem _ hname)
          by_cases h : name = other
          · subst h
            rwa [hnext, update_entry_same]
          · rwa [hnext, update_entry_of_ne _ _ h])
        fun name hname => hassigned name (List.mem_cons_of_mem _ hname)
      have hother : (restoreAll (saves allexport next rest) vars').entry other =
          assignEntry allexport value (vars.entry other) := by
        rw [hrest]
        split_ifs with hmem
        · rw [hnext, update_entry_same, putBackEntry_assignEntry]
        · refine (hassigned other List.mem_cons_self).trans ?_
          rw [show assigned allexport vars ((other, value) :: rest) =
            assigned allexport next rest from rfl, assigned_entry]
          rw [← lastAssigned_isSome, Option.not_isSome_iff_eq_none] at hmem
          rw [hmem]
          exact update_entry_same vars other _
      rw [saves, restoreAll, List.foldl_append]
      change (restoreAssignment _ (restoreAll (saves allexport next rest) vars')).entry name = _
      rw [namesOf, List.map_cons, ← namesOf]
      by_cases h : name = other
      · subst h
        rw [if_pos List.mem_cons_self]
        exact restoreAssignment_entry_same (hreadonly _ List.mem_cons_self) hother
      · rw [restoreAssignment_entry_of_ne _ h, hrest]
        simp only [List.mem_cons, h, false_or]
        rw [hnext, update_entry_of_ne _ _ h]

/-! ## The assignments of a command -/

def putVars (vars : ShellVariables) (world : World (Members ω D P)) : World (Members ω D P) :=
  { world with state := { world.state with vars } }

def assignedIn (world : World (Members ω D P)) (assignments : List (Text × Text)) : ShellVariables :=
  assigned world.state.options.allexport world.state.vars assignments

theorem update_update (vars : ShellVariables) (name : Text) (entry entry' : ShellVariables.Entry) :
    (vars.update name entry).update name entry' = vars.update name entry' := by
  rw [ShellVariables.update, ShellVariables.update, ShellVariables.update]
  congr 1
  funext other
  split_ifs with h
  · rfl
  · exact if_neg h

theorem exec_assignVariable {name : Text} (value : Text) {world : World (Members ω D P)}
    (h : (world.state.vars.entry name).readonly = false) :
    exec (assignVariable name value) world =
      (.ok (), putVars (assignedIn world [(name, value)]) world) := by
  have hset : world.state.vars.set name value =
      some (world.state.vars.update name
        { world.state.vars.entry name with value := some value }) := by
    rw [ShellVariables.set, h]
    rfl
  rw [assignVariable, exec_bind_ok (exec_getState world), hset]
  cases hexport : world.state.options.allexport with
  | false => simp [putVars, assignedIn, assigned, assignEntry, hexport, setState]
  | true =>
      simp [putVars, assignedIn, assigned, assignEntry, hexport, setState,
        ShellVariables.markExported, update_update]

theorem exec_assignVariable_readonly {name : Text} (value : Text) {world : World (Members ω D P)}
    (h : (world.state.vars.entry name).readonly = true) :
    ∃ error, exec (assignVariable name value) world = (.error (.shellError error), world) := by
  have hset : world.state.vars.set name value = none := if_pos h
  rw [assignVariable, exec_bind_ok (exec_getState world), hset]
  exact ⟨_, rfl⟩

theorem accepted_assignedIn (world : World (Members ω D P)) (made assignments : List (Text × Text)) :
    accepted (assignedIn world made) assignments = accepted world.state.vars assignments := by
  rw [accepted, accepted]
  congr 1
  funext assignment
  rw [assignedIn, assigned_readonly]

theorem exec_assignSaving :
    ∀ (assignments : List (Text × Text)) (restore : List AssignmentRestore)
      (world : World (Members ω D P)),
      (∀ name ∈ namesOf assignments, (world.state.vars.entry name).readonly = false) →
      exec (assignSaving restore assignments) world =
        (.ok (saves world.state.options.allexport world.state.vars assignments ++ restore),
          putVars (assignedIn world assignments) world)
  | [], _, _, _ => rfl
  | (name, value) :: rest, restore, world, hreadonly => by
      have hrest := exec_assignSaving rest
        ({ name, value := (world.state.vars.entry name).value
           exported := (world.state.vars.entry name).exported } :: restore)
        (putVars (assignedIn world [(name, value)]) world) fun other hother =>
          (assigned_readonly _ other [(name, value)] _).trans
            (hreadonly other (List.mem_cons_of_mem _ hother))
      rw [assignSaving, exec_bind_ok (exec_getState world),
        exec_bind_ok (exec_assignVariable value (hreadonly name List.mem_cons_self)), hrest, saves,
        List.append_assoc]
      rfl

theorem exec_assignSaving_refused :
    ∀ (assignments : List (Text × Text)) (restore : List AssignmentRestore)
      (world : World (Members ω D P)),
      (∃ name ∈ namesOf assignments, (world.state.vars.entry name).readonly = true) →
      ∃ error, exec (assignSaving restore assignments) world =
        (.error (.shellError error),
          putVars (assignedIn world (accepted world.state.vars assignments)) world)
  | [], _, _, h => by simp [namesOf] at h
  | (name, value) :: rest, restore, world, h => by
      rw [assignSaving, exec_bind_ok (exec_getState world)]
      cases hname : (world.state.vars.entry name).readonly with
      | true =>
          obtain ⟨error, hrun⟩ := exec_assignVariable_readonly value hname
          refine ⟨error, (exec_bind_error hrun).trans ?_⟩
          rw [accepted, List.takeWhile_cons_of_neg (by simp [hname])]
          rfl
      | false =>
          obtain ⟨error, hrest⟩ := exec_assignSaving_refused rest
            ({ name, value := (world.state.vars.entry name).value
               exported := (world.state.vars.entry name).exported } :: restore)
            (putVars (assignedIn world [(name, value)]) world) (by
              obtain ⟨other, hother, hreadonly⟩ := h
              rcases List.mem_cons.mp hother with rfl | hother
              · rw [hname] at hreadonly
                cases hreadonly
              · exact ⟨other, hother, (assigned_readonly _ other [(name, value)] _).trans hreadonly⟩)
          refine ⟨error, (exec_bind_ok (exec_assignVariable value hname)).trans (hrest.trans ?_)⟩
          have hcons : accepted world.state.vars ((name, value) :: rest) =
              (name, value) :: accepted world.state.vars rest :=
            List.takeWhile_cons_of_pos (by simp [hname])
          rw [hcons, show (putVars (assignedIn world [(name, value)]) world).state.vars =
            assignedIn world [(name, value)] from rfl, accepted_assignedIn]
          rfl

/-! ## The trace leaves the state alone -/

section

variable (machine : Machine ω D P)

theorem keepsState_onOutside {α : Type} (f : Members ω D P → α × Members ω D P) :
    Keeps World.state (perform f : Sh ω D P α) := Respects.modifyGet_intro fun _ => rfl

theorem keepsState_writeLoop (descriptor : D) :
    ∀ fuel output, Keeps World.state (writeLoop machine descriptor fuel output)
  | 0, output => by
      rw [writeLoop]
      split
      · exact Respects.pure_intro _
      · exact Respects.throw_intro _
  | fuel + 1, output => by
      rw [writeLoop]
      split
      · exact Respects.pure_intro _
      refine Respects.bind_intro (keepsState_onOutside _) fun result => ?_
      cases result with
      | written count => exact keepsState_writeLoop descriptor fuel _
      | interrupted => exact Respects.throw_intro _
      | failed => exact Respects.pure_intro _
      | brokenPipe =>
          have hstop : Keeps World.state (do
              perform (Members.onOutside fun outside => ((), machine.stopForBrokenPipe outside))
              modifyMembers fun members => { members with brokenPipe := true }
              throw .stopped : Sh ω D P Unit) :=
            Respects.bind_intro (keepsState_onOutside _) fun _ =>
              Respects.bind_intro (keepsState_onOutside _) fun _ => Respects.throw_intro _
          refine Respects.bind_intro (Respects.bind_intro Respects.get_intro fun _ =>
            Respects.pure_intro _) fun members => ?_
          dsimp only
          split
          · exact Respects.bind_intro (Respects.throw_intro _) fun _ => hstop
          · exact hstop

theorem keepsState_writeTo (descriptor : Option D) (output : Text) :
    Keeps World.state (writeTo (P := P) machine descriptor output) := by
  refine Respects.bind_intro (Respects.bind_intro Respects.get_intro fun _ =>
    Respects.pure_intro _) fun members => ?_
  split
  · cases descriptor with
    | none => exact Respects.pure_intro _
    | some descriptor => exact keepsState_writeLoop machine descriptor _ _
  · exact Respects.pure_intro _

theorem keepsState_writeErr (output : Text) :
    Keeps World.state (writeErr (P := P) machine output) :=
  Respects.bind_intro (Respects.bind_intro Respects.get_intro fun _ => Respects.pure_intro _)
    fun _ => keepsState_writeTo machine _ output

theorem keepsState_traceCommand (traceErr : Option D) (assignments : List (Text × Text))
    (fields : List Text) : Keeps World.state (traceCommand machine traceErr assignments fields) := by
  refine Respects.bind_intro (Respects.bind_intro Respects.get_intro fun _ =>
    Respects.pure_intro _) fun state => ?_
  split
  · exact keepsState_writeTo machine traceErr _
  · exact Respects.pure_intro _

/-! ## A function or a regular builtin with assignments -/

/-- The world that the function or builtin starts in. -/
def bodyStart (traceErr : Option D) (assignments : List (Text × Text)) (fields : List Text)
    (world : World (Members ω D P)) : World (Members ω D P) :=
  (exec (traceCommand machine traceErr assignments fields)
    (putVars (assignedIn world assignments) world)).2

theorem bodyStart_state (traceErr : Option D) (assignments : List (Text × Text))
    (fields : List Text) (world : World (Members ω D P)) :
    (bodyStart machine traceErr assignments fields world).state =
      { world.state with vars := assignedIn world assignments } :=
  keepsState_traceCommand machine traceErr assignments fields _

/-- The names keep their entries from one world to another. -/
def SameEntries (names : List Text) (world world' : World (Members ω D P)) : Prop :=
  ∀ name ∈ names, world'.state.vars.entry name = world.state.vars.entry name

theorem runWithAssignments_entries {traceErr : Option D} {assignments : List (Text × Text)}
    {name : Text} {arguments : List Text} {run : Sh ω D P Int} {world : World (Members ω D P)}
    (hrun : SameEntries (namesOf assignments)
      (bodyStart machine traceErr assignments (name :: arguments) world)
      (exec run (bodyStart machine traceErr assignments (name :: arguments) world)).2) :
    Triple (· = world) (runWithAssignments machine traceErr assignments name arguments run)
      (fun _ world' => ∀ name ∈ namesOf assignments, world'.state.vars.entry name =
        putBackEntry world.state.options.allexport (world.state.vars.entry name))
      fun _ world' => ∀ name ∈ namesOf assignments, world'.state.vars.entry name =
        (assignedIn world (accepted world.state.vars assignments)).entry name := by
  rw [runWithAssignments]
  by_cases hreadonly : ∃ name ∈ namesOf assignments, (world.state.vars.entry name).readonly = true
  · obtain ⟨error, hrefused⟩ := exec_assignSaving_refused assignments [] world hreadonly
    rintro _ rfl
    rw [exec_bind_error hrefused]
    exact fun _ _ => rfl
  have hwritable : ∀ name ∈ namesOf assignments,
      (world.state.vars.entry name).readonly = false := fun name hname => by
    simpa using fun h => hreadonly ⟨name, hname, h⟩
  have hall : accepted world.state.vars assignments = assignments := by
    refine List.takeWhile_eq_self_iff.mpr fun assignment hassignment => ?_
    rw [hwritable _ (List.mem_map_of_mem hassignment)]
    rfl
  rw [hall]
  set started := bodyStart machine traceErr assignments (name :: arguments) world with hstarted
  have hentry : ∀ name, started.state.vars.entry name = (assignedIn world assignments).entry name :=
    fun _ => by rw [hstarted, bodyStart_state]
  refine Triple.at_bind (exec_assignSaving assignments [] world hwritable) ?_
  rw [List.append_nil]
  refine Triple.bind_intro (Q := fun _ world' => world' = started) ?_ fun _ => ?_
  · rintro _ rfl
    rcases htrace : exec (traceCommand machine traceErr assignments (name :: arguments))
      (putVars (assignedIn world assignments) world) with ⟨failure | _, world'⟩
    all_goals rw [bodyStart, htrace] at hstarted
    · intro name _
      rw [← hentry, hstarted]
    · exact hstarted.symm
  refine Triple.bind_intro (Q := fun _ world' => SameEntries (namesOf assignments) started world')
    ?_ fun status => ?_
  · rintro _ rfl
    rcases hran : exec run started with ⟨failure | status, world'⟩ <;> rw [hran] at hrun
    · exact fun name hname => (hrun name hname).trans (hentry name)
    · exact hrun
  refine Triple.bind_intro (Q := fun _ world' => SameEntries (namesOf assignments) started world')
    ?_ fun keep => ?_
  · exact Triple.bind_intro (Triple.bind_intro (Triple.get_intro fun _ h => h) fun _ =>
      Triple.pure_intro fun _ h => h) fun _ =>
        Triple.bind_intro (Triple.modifyGet_intro fun _ h => h) fun _ => Triple.pure_intro fun _ h => h
  refine Triple.bind_intro (Q := fun _ world' => ∀ name ∈ namesOf assignments,
    world'.state.vars.entry name =
      putBackEntry world.state.options.allexport (world.state.vars.entry name)) ?_ fun _ =>
        Triple.pure_intro fun _ h => h
  refine Triple.modify_intro fun world' hsame name hname => ?_
  have hput := restoreAll_entry world.state.options.allexport name assignments world.state.vars
    world'.state.vars hwritable fun other hother => (hsame other hother).trans (hentry other)
  rw [if_pos hname] at hput
  exact hput

/-! ## Simple commands -/

variable [DecidableEq D] [DecidableEq P] (knowledge : Knowledge ω D) (parse : ParseText)
  (inner : Inner ω D P)

/-- What a name runs that is looked up as a function or a regular builtin. -/
def regularBody (functions : List (Text × FunctionDefinition)) (name : Text)
    (arguments : List Text) : Option (Sh ω D P Int) :=
  if isSpecialBuiltin name then none
  else
    match functions.lookup name with
    | some function => some (callFunction inner function arguments)
    | none =>
        if (findShellBuiltin name).isSome then
          some (callBuiltin machine knowledge parse inner name arguments)
        else none

/-- A run of `ExecuteSimpleCommand` up to where it looks up the command's name. -/
structure SimpleCommandLookup (command : SimpleCommand HereDocument)
    (before : World (Members ω D P)) where
  expanded : World (Members ω D P)
  applied : World (Members ω D P)
  world : World (Members ω D P)
  name : Text
  arguments : List Text
  saved : SavedSlots D
  assignments : List (Text × Text)
  words : exec (expandWords (shellHost machine parse inner) command.words)
      { before with outside := { before.outside with currentLine := command.line } } =
    (.ok (name :: arguments), expanded)
  executes : noExec expanded.state = false
  redirections : exec (applyRedirections (shellFiles machine) (shellHost machine parse inner)
      command.redirections [])
      { expanded with
        outside :=
          { expanded.outside with
            named := command.redirections.flatMap namedSlots ++ expanded.outside.named } } =
    (.ok (none, saved), applied)
  values : exec (expandAssignments machine parse inner command.assignments) applied =
    (.ok assignments, world)

variable {machine parse inner}

/-- The standard error that a trace goes to. -/
def SimpleCommandLookup.traceErr {command : SimpleCommand HereDocument}
    {before : World (Members ω D P)}
    (lookup : SimpleCommandLookup machine parse inner command before) : Option D :=
  (system machine).getDescriptor standardError lookup.expanded.outside

omit [DecidableEq D] in
theorem exec_runFields {traceErr : Option D} {assignments : List (Text × Text)} {name : Text}
    {arguments : List Text} {run : Sh ω D P Int} {world : World (Members ω D P)}
    (hrun : regularBody machine knowledge parse inner world.outside.functions name arguments =
      some run) :
    exec (runFields machine knowledge parse inner traceErr assignments name arguments) world =
      exec (runWithAssignments machine traceErr assignments name arguments run) world := by
  have hmembers : exec (getMembers : Sh ω D P (Members ω D P)) world = (.ok world.outside, world) :=
    rfl
  rw [regularBody] at hrun
  rw [runFields]
  by_cases hspecial : isSpecialBuiltin name = true
  · rw [if_pos hspecial] at hrun
    cases hrun
  rw [if_neg hspecial] at hrun ⊢
  rw [exec_bind_ok hmembers]
  generalize world.outside.functions.lookup name = found at hrun ⊢
  cases found with
  | some function =>
    cases hrun
    rfl
  | none =>
    dsimp only at hrun ⊢
    split_ifs at hrun ⊢ with hbuiltin
    cases hrun
    rfl

theorem executeSimpleCommand_state {command : SimpleCommand HereDocument}
    {before : World (Members ω D P)}
    (lookup : SimpleCommandLookup machine parse inner command before)
    (post : ShellState → Prop) (failed : Failure → ShellState → Prop)
    (h : Triple (· = lookup.world) (runFields machine knowledge parse inner lookup.traceErr
        lookup.assignments lookup.name lookup.arguments)
      (fun _ world => post world.state) fun failure world => failed failure world.state) :
    Triple (· = before) (executeSimpleCommand machine knowledge parse inner command)
      (fun _ world => post world.state) fun failure world => failed failure world.state := by
  have hset (f : Members ω D P → Members ω D P) (world : World (Members ω D P)) :
      exec (modifyMembers f) world = (.ok (), ⟨world.state, f world.outside⟩) := rfl
  have hmembers (world : World (Members ω D P)) :
      exec (getMembers : Sh ω D P (Members ω D P)) world = (.ok world.outside, world) := rfl
  have hrestore {Q : ShellState → Prop} (saved : SavedSlots D) :
      Triple (fun world : World (Members ω D P) => Q world.state)
        (restoreSlots (shellFiles machine) saved) (fun _ world => Q world.state)
        fun failure world => failed failure world.state := by
    intro world hworld
    obtain ⟨outside, hrun⟩ := restoreSlots_returns (shellFiles machine) saved world
    rw [hrun]
    exact hworld
  rw [executeSimpleCommand]
  refine Triple.at_bind (hset _ before) (Triple.at_bind (hmembers _) ?_)
  refine Triple.at_bind lookup.words (Triple.at_bind (exec_getState _) ?_)
  rw [if_neg (by rw [lookup.executes]; nofun)]
  refine Triple.at_bind (exec_look _ _) ?_
  rw [redirected, redirectionScope]
  refine Triple.at_bind (hset _ _) (Triple.at_bind lookup.redirections ?_)
  dsimp only
  have hbody : Triple (· = lookup.applied) (runSimpleCommand machine knowledge parse inner command
      before.outside.substitutionCount lookup.traceErr (lookup.name :: lookup.arguments))
      (fun _ world => post world.state) fun failure world => failed failure world.state :=
    Triple.at_bind lookup.values h
  refine Triple.bind_intro (Triple.attempt_intro hbody) fun ended => ?_
  rcases ended with failure | ⟨status, _ | _⟩
  · exact Triple.bind_intro (hrestore lookup.saved) fun _ => Triple.throw_intro fun _ h => h
  · exact Triple.bind_intro (hrestore lookup.saved) fun _ => Triple.pure_intro fun _ h => h
  · exact Triple.pure_intro fun _ h => h

/-- The names have the values and the exported flags that they had. -/
def SameVariables (names : List Text) (vars vars' : ShellVariables) : Prop :=
  ∀ name ∈ names, (vars'.entry name).value = (vars.entry name).value ∧
    (vars'.entry name).exported = (vars.entry name).exported

/-- No assignment under allexport is to a variable that is set but not exported. -/
def PutBackWhole (names : List Text) (state : ShellState) : Prop :=
  ∀ name ∈ names, state.options.allexport → (state.vars.entry name).value.isSome →
    (state.vars.entry name).exported

/-- The assignments give the variables what they had. -/
def AssignSame (assignments : List (Text × Text)) (state : ShellState) : Prop :=
  ∀ name ∈ namesOf assignments, lastAssigned name assignments = (state.vars.entry name).value ∧
    (state.options.allexport → (state.vars.entry name).exported)

theorem sameVariables_putBackEntry {names : List Text} {state : ShellState}
    {vars : ShellVariables} (h : ∀ name ∈ names, vars.entry name =
      putBackEntry state.options.allexport (state.vars.entry name)) :
    SameVariables names state.vars vars ↔ PutBackWhole names state := by
  refine forall₂_congr fun name hname => ?_
  rw [h name hname, putBackEntry]
  cases state.options.allexport <;> cases (state.vars.entry name).value <;>
    cases (state.vars.entry name).exported <;> simp

theorem sameVariables_assigned {names : List Text} {state : ShellState} {vars : ShellVariables}
    {assignments : List (Text × Text)} (hnames : ∀ name ∈ namesOf assignments, name ∈ names)
    (h : ∀ name ∈ names, vars.entry name =
      (assigned state.options.allexport state.vars assignments).entry name) :
    SameVariables names state.vars vars ↔ AssignSame assignments state := by
  constructor
  · intro hsame name hname
    obtain ⟨value, hvalue⟩ := Option.isSome_iff_exists.mp (lastAssigned_isSome.mpr hname)
    have hentry := hsame name (hnames name hname)
    rw [h name (hnames name hname), assigned_entry, hvalue] at hentry
    refine ⟨hvalue.trans hentry.1, fun hexport => ?_⟩
    simpa [assignEntry, hexport] using hentry.2.symm
  · intro hsame name hname
    rw [h name hname, assigned_entry]
    cases hvalue : lastAssigned name assignments with
    | none => exact ⟨rfl, rfl⟩
    | some value =>
        have hmem : name ∈ namesOf assignments :=
          lastAssigned_isSome.mp (by rw [hvalue]; rfl)
        obtain ⟨hlast, hexported⟩ := hsame name hmem
        refine ⟨hvalue.symm.trans hlast, ?_⟩
        cases hexport : state.options.allexport with
        | false => exact Bool.or_false _
        | true => simp [assignEntry, hexported hexport]

/--
The assignments of a function or a regular builtin that leaves their variables alone last
for the command only, unless allexport exports a variable that was set but not exported,
or a `ShellError` ends the command and the variables had other values before.
-/
theorem executeSimpleCommand_putsBack {command : SimpleCommand HereDocument}
    {before : World (Members ω D P)}
    (lookup : SimpleCommandLookup machine parse inner command before) {run : Sh ω D P Int}
    (hrun : regularBody machine knowledge parse inner lookup.world.outside.functions lookup.name
      lookup.arguments = some run)
    (hexpanded : SameEntries (namesOf lookup.assignments) before lookup.world)
    (hbody : SameEntries (namesOf lookup.assignments)
      (bodyStart machine lookup.traceErr lookup.assignments (lookup.name :: lookup.arguments)
        lookup.world)
      (exec run (bodyStart machine lookup.traceErr lookup.assignments
        (lookup.name :: lookup.arguments) lookup.world)).2) :
    (∀ status after, exec (executeSimpleCommand machine knowledge parse inner command) before =
        (.ok status, after) →
      (SameVariables (namesOf lookup.assignments) before.state.vars after.state.vars ↔
        PutBackWhole (namesOf lookup.assignments) lookup.world.state)) ∧
    ∀ error after, exec (executeSimpleCommand machine knowledge parse inner command) before =
        (.error (.shellError error), after) →
      (SameVariables (namesOf lookup.assignments) before.state.vars after.state.vars ↔
        AssignSame (accepted lookup.world.state.vars lookup.assignments) lookup.world.state) := by
  have hsame (vars : ShellVariables) :
      SameVariables (namesOf lookup.assignments) before.state.vars vars ↔
        SameVariables (namesOf lookup.assignments) lookup.world.state.vars vars :=
    forall₂_congr fun name hname => by rw [hexpanded name hname]
  have hentries := executeSimpleCommand_state knowledge lookup
    (fun state => SameVariables (namesOf lookup.assignments) before.state.vars state.vars ↔
      PutBackWhole (namesOf lookup.assignments) lookup.world.state)
    (fun _ state =>
      SameVariables (namesOf lookup.assignments) before.state.vars state.vars ↔
        AssignSame (accepted lookup.world.state.vars lookup.assignments) lookup.world.state) (by
      rintro _ rfl
      rw [exec_runFields knowledge hrun]
      refine ((runWithAssignments_entries machine hbody).consequence (fun _ => id)
        (fun _ _ hput => ?_) fun _ _ hleft => ?_) lookup.world rfl
      · rw [hsame]
        exact sameVariables_putBackEntry hput
      · rw [hsame]
        refine sameVariables_assigned (fun name hname => ?_) hleft
        obtain ⟨assignment, hmem, rfl⟩ := List.mem_map.mp hname
        exact List.mem_map_of_mem (List.takeWhile_prefix _ |>.subset hmem))
  refine ⟨fun status after hended => ?_, fun error after hended => ?_⟩
  · exact hentries.ok rfl hended
  · exact hentries.error rfl hended

end

/-! ## `x=2 true` after `set -a` -/

/-- A shell with `set -a`, and what `x` is. -/
def exportsAll (entry : ShellVariables.Entry) : World (Members Unit Nat Unit) where
  state :=
    { vars := ({} : ShellVariables).update (text "x") entry
      options := { allexport := true } }
  outside := { files := { descriptors := { slots := [], bounded := Nat.zero_le _ }, outside := () } }

def assignsX : SimpleCommand HereDocument where
  assignments := [{ name := text "x", value := { parts := [.literal (text "2")] } }]
  words := [{ parts := [.literal (text "true")] }]

def idleInner : Inner Unit Nat Unit := executor idleMachine idleKnowledge (fun _ _ _ => {}) 0

/-- A variable that was set but not exported is exported after the command. -/
theorem assignsX_exports :
    (exec (executeSimpleCommand idleMachine idleKnowledge (fun _ _ _ => {}) idleInner assignsX)
        (exportsAll { value := some (text "1") })).1 = .ok 0 ∧
      ((exportsAll { value := some (text "1") }).state.vars.entry (text "x")).exported = false ∧
      ((exec (executeSimpleCommand idleMachine idleKnowledge (fun _ _ _ => {}) idleInner assignsX)
        (exportsAll { value := some (text "1") })).2.state.vars.entry (text "x")).exported = true :=
  ⟨rfl, rfl, rfl⟩

/-- The run of `x=2 true` up to `true`. -/
def assignsXLookup (entry : ShellVariables.Entry) :
    SimpleCommandLookup idleMachine (fun _ _ _ => {}) idleInner assignsX (exportsAll entry) where
  expanded := exportsAll entry
  applied := exportsAll entry
  world := exportsAll entry
  name := text "true"
  arguments := []
  saved := []
  assignments := [(text "x", text "2")]
  words := rfl
  executes := rfl
  redirections := rfl
  values := rfl

/-- One that was unset is unset after it. -/
theorem assignsX_putsBack :
    SameVariables [text "x"] (exportsAll {}).state.vars
      (exec (executeSimpleCommand idleMachine idleKnowledge (fun _ _ _ => {}) idleInner assignsX)
        (exportsAll {})).2.state.vars :=
  ((executeSimpleCommand_putsBack idleKnowledge (assignsXLookup {})
    (show regularBody _ _ _ _ _ _ _ = some (callBuiltin idleMachine idleKnowledge _ idleInner
      (text "true") []) from rfl) (fun _ _ => rfl) (fun _ _ => rfl)).1 0 _ rfl).mpr (by
      intro name hname _ hset
      rw [List.mem_singleton.mp hname] at hset
      cases hset)

end Haisos.Hsh.Shell
