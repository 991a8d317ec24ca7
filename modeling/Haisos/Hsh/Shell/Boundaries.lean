import Haisos.Hsh.Redirection.PutBack
import Haisos.Hsh.Shell.ControlFlow
import Haisos.Hsh.Shell.Run

/-!
# Control stays inside its boundaries

Every execution keeps to what control may do, and so does every run of the shell: a
command of the top level ends at the top level, however it ends.
-/

namespace Haisos.Hsh.Shell

open StateExcept

variable {ω D P α β : Type}

/-! ## What control does not see -/

structure Unseen (world world' : World (Members ω D P)) : Prop where
  depths : world'.outside.depths = world.outside.depths
  events : world'.outside.events = world.outside.events
  positional : world'.state.positional = world.state.positional
  ownPositional : world'.outside.ownPositional = world.outside.ownPositional

instance : @Std.Refl (World (Members ω D P)) Unseen := ⟨fun _ => ⟨rfl, rfl, rfl, rfl⟩⟩

instance : IsTrans (World (Members ω D P)) Unseen :=
  ⟨fun _ _ _ h h' =>
    ⟨h'.depths.trans h.depths, h'.events.trans h.events, h'.positional.trans h.positional,
      h'.ownPositional.trans h.ownPositional⟩⟩

theorem Unseen.tracks {world world' : World (Members ω D P)} (h : Unseen world world') :
    TracksPositional world world' where
  atTop _ hown := by rw [h.positional, h.ownPositional, hown]
  inside _ := h.ownPositional

def ThrowsOrdinary (m : Sh ω D P α) : Prop :=
  ∀ world failure, (exec m world).1 = .error failure → IsOrdinary failure

theorem Quiet.throwsOrdinary {m : Sh ω D P α} (hm : Quiet m) : ThrowsOrdinary m :=
  fun world => (hm world).ordinary

theorem ThrowsOrdinary.bind {m : Sh ω D P α} {f : α → Sh ω D P β} (hm : ThrowsOrdinary m)
    (hf : ∀ a, ThrowsOrdinary (f a)) : ThrowsOrdinary (m >>= f) := by
  intro world failure hended
  rcases hrun : exec m world with ⟨failure' | a, world'⟩
  · rw [exec_bind_error hrun] at hended
    cases hended
    exact hm world failure (by rw [hrun])
  · rw [exec_bind_ok hrun] at hended
    exact hf a world' failure hended

theorem throwsOrdinary_of_returns {m : Sh ω D P α}
    (h : ∀ world, ∃ a world', exec m world = (.ok a, world')) : ThrowsOrdinary m := by
  intro world failure hended
  obtain ⟨a, world', hrun⟩ := h world
  rw [hrun] at hended
  cases hended

theorem Controlled.of_unseen {m : Sh ω D P α} (hm : Respects Unseen m) (hthrows : ThrowsOrdinary m) :
    Controlled m where
  leaves frames world hworld :=
    { depths := (hm world).depths
      positional := (hm world).tracks
      ending := .of_ordinary (hthrows world) (by rw [(hm world).events, hworld.control]) }

theorem Controlled.perform {f : Members ω D P → α × Members ω D P}
    (h : ∀ members, (f members).2.depths = members.depths ∧
      (f members).2.events = members.events ∧
      (f members).2.ownPositional = members.ownPositional) : Controlled (Hsh.perform f) :=
  .of_unseen
    (Respects.modifyGet_intro fun world =>
      ⟨(h world.outside).1, (h world.outside).2.1, rfl, (h world.outside).2.2⟩)
    (throwsOrdinary_of_returns fun _ => ⟨_, _, rfl⟩)

theorem Leaves.of_unseen {frames : List ControlFrame} {world ended' : World (Members ω D P)}
    {ended : Except Failure α × World (Members ω D P)} {told : Except Failure β}
    (h : Leaves frames world (controlAfter ended.2.outside.events) ended)
    (hsame : Unseen ended.2 ended')
    (htold : ∀ control, Ending frames world.outside.depths ended.1 control →
      Ending frames world.outside.depths told control) :
    Leaves frames world (controlAfter ended'.outside.events) (told, ended') where
  depths := hsame.depths.trans h.depths
  positional := h.positional.trans h.depths hsame.tracks
  ending := by
    rw [show (told, ended').2.outside.events = ended.2.outside.events from hsame.events]
    exact htold _ h.ending

/-! ## Redirections -/

section

variable (machine : Machine ω D P)

theorem unseen_placeDescriptor (fd : Nat) (descriptor : Option D) :
    Respects Unseen (placeDescriptor (shellFiles machine) fd descriptor : Sh ω D P Bool) := by
  have hclose (fd : Nat) : Respects Unseen (perform fun members =>
      ((), (shellFiles machine).closeDescriptor fd members) : Sh ω D P Unit) :=
    Respects.modifyGet_intro fun _ => ⟨rfl, rfl, rfl, rfl⟩
  cases descriptor with
  | none => exact Respects.bind_intro (hclose fd) fun _ => Respects.pure_intro _
  | some descriptor =>
      refine Respects.bind_intro (Respects.modifyGet_intro fun _ => ⟨rfl, rfl, rfl, rfl⟩) fun added => ?_
      split
      · exact Respects.pure_intro _
      · split
        · exact Respects.pure_intro _
        · refine Respects.bind_intro (Respects.modifyGet_intro fun _ => ⟨rfl, rfl, rfl, rfl⟩) fun _ => ?_
          exact Respects.bind_intro (hclose _) fun _ => Respects.pure_intro _

theorem unseen_restoreSlots (saved : SavedSlots D) :
    Respects Unseen (restoreSlots (shellFiles machine) saved : Sh ω D P Unit) :=
  Respects.forM_intro fun _ _ =>
    Respects.bind_intro (unseen_placeDescriptor machine _ _) fun _ => Respects.pure_intro _

theorem controlled_placeDescriptor (fd : Nat) (descriptor : Option D) :
    Controlled (placeDescriptor (shellFiles machine) fd descriptor : Sh ω D P Bool) := by
  refine .of_unseen (unseen_placeDescriptor machine fd descriptor)
    (throwsOrdinary_of_returns fun world => ?_)
  obtain ⟨placed, outside, hrun⟩ := placeDescriptor_returns (shellFiles machine) fd descriptor world
  exact ⟨placed, _, hrun⟩

theorem exec_restoreThen (saved : SavedSlots D) (ended : Except Failure α)
    (world : World (Members ω D P)) :
    ∃ world', exec (do
        restoreSlots (shellFiles machine) saved
        resume ended : Sh ω D P α) world = (ended, world') ∧ Unseen world world' := by
  obtain ⟨outside, hrun⟩ := restoreSlots_returns (shellFiles machine) saved world
  have hunseen := unseen_restoreSlots machine saved world
  rw [hrun] at hunseen
  exact ⟨_, by rw [exec_bind_ok hrun, exec_resume], hunseen⟩

theorem controlled_redirectionFrame :
    RedirectionFrame (shellFiles machine) fun {_} (m : Sh ω D P _) => Controlled m where
  pure := controlled_pure
  bind := Controlled.bind
  get := controlled_of_quiet .get
  raise message := controlled_of_quiet (.raise message)
  arithmetic expression := controlled_of_quiet (.arithmeticValue expression)
  assign name value := controlled_of_quiet (.assignDefault name value)
  outOfFuel := controlled_of_quiet (.throw trivial)
  openFile _ _ := .perform fun _ => ⟨rfl, rfl, rfl⟩
  addDescriptor _ := .perform fun _ => ⟨rfl, rfl, rfl⟩
  dup2 _ _ := .perform fun _ => ⟨rfl, rfl, rfl⟩
  closeDescriptor _ := .perform fun _ => ⟨rfl, rfl, rfl⟩
  createPipe _ := .perform fun _ => ⟨rfl, rfl, rfl⟩
  write _ _ := .perform fun _ => ⟨rfl, rfl, rfl⟩
  undoneOnFailure {α} {m} saved hm _ :=
    { leaves := fun frames world hworld => by
        have hleaves := hm.leaves frames world hworld
        rw [exec_tryCatch]
        rcases hrun : exec m world with ⟨failure | a, ended⟩ <;> rw [hrun] at hleaves
        · obtain ⟨ended', hrestored, hsame⟩ :=
            exec_restoreThen machine saved (.error failure : Except Failure α) ended
          dsimp only
          rw [show exec (do
            restoreSlots (shellFiles machine) saved
            throw failure : Sh ω D P α) ended = _ from hrestored]
          exact hleaves.of_unseen hsame fun _ => id
        · exact hleaves }

theorem Controlled.redirected {host : Host (Members ω D P)}
    (hhost : ∀ source line, Controlled (commandSubstitution host source line))
    (redirections : List (Redirection HereDocument)) {failed : Text → Sh ω D P Int}
    {body : Sh ω D P (Int × Bool)} (hfailed : ∀ error, Controlled (failed error))
    (hbody : Controlled body) :
    Controlled (redirected machine host redirections failed body) := by
  have hframe := controlled_redirectionFrame machine
  refine (Controlled.perform fun _ => ⟨rfl, rfl, rfl⟩).bind fun _ => ?_
  refine (hframe.applyRedirections redirections (fun _ => hhost) []).bind fun applied => ?_
  obtain ⟨_ | error, saved⟩ := applied
  · constructor
    intro frames world hworld
    have hleaves := hbody.leaves frames world hworld
    rw [exec_bind_ok (exec_attempt body world)]
    rcases hrun : exec body world with ⟨failure | ⟨status, keep⟩, ended⟩ <;> rw [hrun] at hleaves
    · obtain ⟨ended', hrestored, hsame⟩ :=
        exec_restoreThen machine saved (.error failure : Except Failure Int) ended
      exact hrestored ▸ hleaves.of_unseen hsame fun _ hending => by cases failure <;> exact hending
    · cases keep with
      | true => exact hleaves.of_unseen (Std.Refl.refl _) fun _ => id
      | false =>
          obtain ⟨ended', hrestored, hsame⟩ :=
            exec_restoreThen machine saved (.ok status : Except Failure Int) ended
          exact hrestored ▸ hleaves.of_unseen hsame fun _ => id
  · exact hfailed error

/-! ## Subshells -/

variable [DecidableEq D] [DecidableEq P]

theorem leaveSubshell_returns (before world : World (Members ω D P)) :
    ∃ world', exec (leaveSubshell machine before) world = (.ok ⟨⟩, world') := by
  rw [leaveSubshell]
  dsimp only
  rw [modifyMembers, exec_bind, exec_perform]
  dsimp only
  rw [exec_restoreSubshell]
  generalize (List.range maxDescriptors).map _ = slots
  exact (putBack_returns (shellFiles machine) slots _).imp' _ fun _ hrun => hrun

theorem throwsOrdinary_runSubshell (body : Sh ω D P Int) :
    ThrowsOrdinary (runSubshell machine body) := by
  have hstatus (ended : Except Failure Int) : ThrowsOrdinary (subshellStatus machine ended) := by
    rw [subshellStatus.eq_def]
    split
    case h_5 error =>
      exact ((Quiet.reportError machine error).bind fun _ => .pure _).throwsOrdinary
    case h_6 failure hexit hreturn hcontrol herror =>
      refine (Quiet.throw ?_).throwsOrdinary
      cases failure with
      | functionReturn status => exact hreturn status rfl
      | loopControl isBreak levels => exact hcontrol isBreak levels rfl
      | _ => exact trivial
    all_goals exact (Quiet.pure _).throwsOrdinary
  refine Quiet.get.throwsOrdinary.bind fun before => ?_
  refine (throwsOrdinary_of_returns fun _ => ⟨_, _, rfl⟩).bind fun _ => ?_
  refine (throwsOrdinary_of_returns fun _ => ⟨_, _, rfl⟩).bind fun _ => ?_
  refine (throwsOrdinary_of_returns fun _ => ⟨_, _, exec_attempt body _⟩).bind fun ended => ?_
  refine (throwsOrdinary_of_returns fun world => ?_).bind fun _ => ?_
  · obtain ⟨world', hrun⟩ := leaveSubshell_returns machine before world
    exact ⟨_, world', hrun⟩
  · exact (throwsOrdinary_of_returns fun _ => ⟨_, _, rfl⟩).bind fun _ => hstatus ended

omit [DecidableEq D] [DecidableEq P] in
/-- What a subshell's body leaves the subshell ends, be it on the way to a loop. -/
theorem Ending.subshellLeft {frames : List ControlFrame} {depths : Depths}
    {ended : Except Failure α} {control : Option Control}
    (h : Ending (.subshell :: frames) depths ended control) :
    control.bind (Control.step .subshellLeft) = some ⟨frames, .running⟩ := by
  rcases ended with failure | a
  · cases failure with
    | loopControl isBreak levels =>
        rw [h.2.2]
        rfl
    | functionReturn status =>
        rw [h.2]
        rfl
    | _ =>
        rw [show control = _ from h]
        rfl
  · rw [show control = _ from h]
    rfl

omit [DecidableEq D] [DecidableEq P] in
theorem Follows.subshellWorld {frames : List ControlFrame} {world : World (Members ω D P)}
    (h : Follows frames world) : Follows (.subshell :: frames) (subshellWorld world) where
  control := controlAfter_cons_eq_some.mpr ⟨_, h.control, rfl⟩
  loops := h.loops
  functions := h.functions
  subshells := by
    rw [List.count_cons_self, ← h.subshells]
    rfl

theorem Controlled.runSubshell {body : Sh ω D P Int} (hbody : Controlled body) :
    Controlled (runSubshell machine body) where
  leaves frames world hworld := by
    have hleaves := hbody.leaves _ _ hworld.subshellWorld
    have hinside : ¬(Shell.subshellWorld world).outside.depths.atTop := fun htop =>
      Nat.succ_ne_zero world.outside.depths.subshells htop.2
    have hdepths := hleaves.depths
    have hown := hleaves.positional.inside hinside
    have hcontrol := hleaves.ending.subshellLeft
    have hthrows := throwsOrdinary_runSubshell machine body world
    obtain ⟨files, liveChildren, brokenPipe, hrun, -⟩ := exec_runSubshell machine body world
    generalize exec (Shell.runSubshell machine body) world = run at hrun hthrows ⊢
    obtain ⟨ended, world'⟩ := run
    obtain rfl : world' = _ := hrun
    refine ⟨?_, .putBack rfl hown, .of_ordinary hthrows hcontrol⟩
    dsimp only
    rw [hdepths]
    rfl

theorem runCommandSubstitution_state (parse : ParseText) (inner : Inner ω D P) (source : Text)
    (line : Nat) : Keeps World.state (runCommandSubstitution machine parse inner source line) := by
  have hget : Keeps World.state (getMembers : Sh ω D P _) :=
    Respects.bind_intro Respects.get_intro fun _ => Respects.pure_intro _
  have hmodify (f : Members ω D P → Members ω D P) :
      Keeps World.state (modifyMembers f : Sh ω D P Unit) := Respects.modifyGet_intro fun _ => rfl
  have hsubshell (body : Sh ω D P Int) : Keeps World.state (runSubshell machine body) := by
    intro world
    obtain ⟨files, liveChildren, brokenPipe, hrun, -⟩ := exec_runSubshell machine body world
    have hstate : (exec (runSubshell machine body) world).2.state = world.state := by rw [hrun]
    exact hstate
  refine Respects.bind_intro (hmodify _) fun _ => ?_
  dsimp only
  split
  · refine Respects.bind_intro (Respects.bind_intro Respects.get_intro fun _ =>
      Respects.pure_intro _) fun state => Respects.bind_intro ?_ fun _ => Respects.pure_intro _
    exact keepsState_writeErr machine _
  · refine Respects.bind_intro (keepsState_onOutside _) fun ends => ?_
    refine Respects.bind_intro ?_ fun status => Respects.bind_intro ?_ fun output =>
      Respects.pure_intro _
    · exact Respects.bind_intro hget fun members => Respects.bind_intro (hmodify _) fun _ =>
        Respects.ensuring_intro (hsubshell _) (hmodify _)
    · refine Respects.bind_intro (keepsState_onOutside _) fun ended => ?_
      split
      · exact Respects.pure_intro _
      · exact Respects.throw_intro _
      · exact Respects.pure_intro _

theorem controlled_commandSubstitution {parse : ParseText} {inner : Inner ω D P}
    (hrun : ∀ source line, Controlled (runCommandSubstitution machine parse inner source line))
    (source : Text) (line : Nat) :
    Controlled (commandSubstitution (shellHost machine parse inner) source line) where
  leaves frames world hworld := by
    have hleaves := (hrun source line).leaves frames world hworld
    have hstate : (exec (runCommandSubstitution machine parse inner source line) world).2.state =
        world.state := runCommandSubstitution_state machine parse inner source line world
    rw [commandSubstitution, exec_bind_ok (exec_get world), shellHost]
    dsimp only
    generalize exec (runCommandSubstitution machine parse inner source line) world = run
      at hleaves hstate ⊢
    obtain ⟨failure | result, ended⟩ := run
    · refine ⟨hleaves.depths, ⟨fun htop hown => ?_, hleaves.positional.inside⟩, ?_⟩
      · exact (congrArg ShellState.positional hstate).symm.trans
          (hleaves.positional.atTop htop hown)
      · have hending := hleaves.ending
        cases failure <;> exact hending
    · refine ⟨hleaves.depths, ⟨fun htop hown => ?_, hleaves.positional.inside⟩, hleaves.ending⟩
      exact (congrArg ShellState.positional hstate).symm.trans (hleaves.positional.atTop htop hown)

omit [DecidableEq D] in
theorem controlled_startBackgroundShell (sourceText : Text) :
    Controlled (startBackgroundShell machine sourceText) := by
  have hquiet {α : Type} {m : Sh ω D P α} (hm : Quiet m) : Controlled m := controlled_of_quiet hm
  refine (hquiet .getState).bind fun state => (hquiet .getMembers).bind fun members => ?_
  refine (hquiet (.look _)).bind fun keptIn => (hquiet (.onOutside _)).bind fun nullInput => ?_
  refine (controlled_placeDescriptor machine _ _).bind fun placed => ?_
  refine (hquiet (.startChild machine _ _ _)).bind fun child => ?_
  refine (controlled_placeDescriptor machine _ _).bind fun _ => ?_
  cases child with
  | none => exact hquiet (.reportThen machine _ _)
  | some child => exact (hquiet (.recordJob machine _)).bind fun _ => controlled_pure _

/-! ## Jumps and marks -/

omit [DecidableEq D] [DecidableEq P] in
theorem controlled_happens {event : ControlEvent}
    (h : ∀ frames, Control.step event ⟨frames, .running⟩ = some ⟨frames, .running⟩) :
    Controlled (happens event : Sh ω D P Unit) where
  leaves frames _ hworld :=
    { depths := rfl
      positional := ⟨fun _ hown => hown, fun _ => rfl⟩
      ending := controlAfter_cons_eq_some.mpr ⟨_, hworld.control, h frames⟩ }

omit [DecidableEq D] [DecidableEq P] in
theorem controlled_builtinStarted {name : Text} {arguments : List Text}
    (h : asksOfLoops name arguments = none) :
    Controlled (happens (.builtinStarted name arguments) : Sh ω D P Unit) :=
  controlled_happens fun frames => by simp only [Control.step, h]

omit [DecidableEq D] [DecidableEq P] in
theorem controlled_jump {name : Text} {arguments : List Text} {isBreak : Bool} {levels : Nat}
    (hasks : asksOfLoops name arguments = some (isBreak, levels)) :
    Controlled (do
      happens (.builtinStarted name arguments)
      let depths := (← getMembers).depths
      if depths.loops = 0 then pure 0
      else throw (.loopControl isBreak (min levels depths.loops)) : Sh ω D P Int) where
  leaves frames world hworld := by
    set started : World (Members ω D P) :=
      { world with outside := { world.outside with
          events := .builtinStarted name arguments :: world.outside.events } }
    have hevent : exec (happens (.builtinStarted name arguments)) world = (.ok ⟨⟩, started) := rfl
    have hmembers : exec (getMembers : Sh ω D P _) started = (.ok started.outside, started) := rfl
    rw [exec_bind_ok hevent, exec_bind_ok hmembers]
    have hstep : controlAfter started.outside.events =
        if 1 ≤ loopsIn frames then
          some ⟨frames, .unwinding isBreak (min levels (loopsIn frames))⟩
        else some ⟨frames, .running⟩ := by
      rw [controlAfter, hworld.control, Option.bind_some]
      simp only [Control.step, hasks]
    have hloops : started.outside.depths.loops = loopsIn frames := hworld.loops
    dsimp only
    rw [hloops]
    by_cases hnone : loopsIn frames = 0
    · rw [if_pos hnone]
      rw [if_neg (by omega)] at hstep
      exact ⟨rfl, ⟨fun _ hown => hown, fun _ => rfl⟩, hstep⟩
    · rw [if_neg hnone, exec_throw]
      rw [if_pos (Nat.one_le_iff_ne_zero.mpr hnone)] at hstep
      exact ⟨rfl, ⟨fun _ hown => hown, fun _ => rfl⟩,
        le_min (one_le_of_asksOfLoops hasks) (Nat.one_le_iff_ne_zero.mpr hnone),
        Nat.min_le_right _ _, hstep⟩

omit [DecidableEq D] [DecidableEq P] in
theorem controlled_breaks (name : Text) (isBreak : Bool) (arguments : List Text)
    (hname : name = if isBreak then text "break" else text "continue") :
    Controlled (do
      happens (.builtinStarted name arguments)
      builtinBreakContinue isBreak arguments : Sh ω D P Int) := by
  have hasks : asksOfLoops name arguments = (levelsGiven arguments).map (isBreak, ·) := by
    subst hname
    cases isBreak <;> rfl
  rw [builtinBreakContinue.eq_def]
  dsimp only
  cases arguments with
  | nil => exact controlled_jump hasks
  | cons argument rest =>
      rw [levelsGiven_cons] at hasks
      dsimp only
      split
      · rename_i hnone
        rw [hnone] at hasks
        refine (controlled_builtinStarted hasks).bind fun _ => ?_
        refine controlled_of_quiet fun world => (Quiet.fail _ world).bind fun levels world' hrun => ?_
        cases hrun
      · rename_i levels hlevels
        rw [hlevels] at hasks
        exact controlled_jump hasks

omit [DecidableEq D] [DecidableEq P] in
theorem controlled_builtinReturn (arguments : List Text) :
    Controlled (builtinReturn arguments : Sh ω D P Int) := by
  refine (controlled_of_quiet (.statusArgument _ _)).bind fun status => ⟨fun frames world hworld => ?_⟩
  have hmembers : exec (getMembers : Sh ω D P _) world = (.ok world.outside, world) := rfl
  rw [exec_bind_ok hmembers]
  dsimp only
  split
  case isTrue hinside =>
    rw [Bool.or_eq_true, decide_eq_true_iff, decide_eq_true_iff] at hinside
    exact ⟨rfl, ⟨fun _ hown => hown, fun _ => rfl⟩, hinside, hworld.control⟩
  case isFalse =>
    exact (controlled_of_quiet (.throw (show IsOrdinary (.exit _) from trivial))).leaves frames
      world hworld

omit [DecidableEq D] [DecidableEq P] in
theorem controlled_modifyMembers {f : Members ω D P → Members ω D P}
    (h : ∀ members, (f members).depths = members.depths ∧ (f members).events = members.events ∧
      (f members).ownPositional = members.ownPositional) :
    Controlled (modifyMembers f : Sh ω D P Unit) := .perform h

omit [DecidableEq D] [DecidableEq P] in
theorem controlled_takeKeepRedirections : Controlled (takeKeepRedirections : Sh ω D P Bool) := by
  refine (controlled_of_quiet .getMembers).bind fun members => ?_
  refine Controlled.bind (controlled_modifyMembers ?_) fun _ => controlled_pure _
  exact fun _ => ⟨rfl, rfl, rfl⟩

omit [DecidableEq D] in
theorem controlled_builtinExec (arguments : List Text) : Controlled (builtinExec machine arguments) := by
  have hexits {message : Text} {status : Int} : Controlled (do
      report machine message
      throw (.exit status) : Sh ω D P Int) :=
    controlled_of_quiet ((Quiet.report machine message).bind fun _ => .throw trivial)
  rw [builtinExec.eq_def]
  split
  · refine Controlled.bind (controlled_modifyMembers ?_) fun _ => controlled_pure _
    exact fun _ => ⟨rfl, rfl, rfl⟩
  · refine (controlled_of_quiet .getState).bind fun state => ?_
    refine (controlled_of_quiet (.look _)).bind fun found => ?_
    split
    · exact hexits
    · exact hexits
    · refine (controlled_of_quiet (.startChild machine _ _ _)).bind fun child => ?_
      split
      · exact hexits
      · exact controlled_of_quiet ((Quiet.waitForChild machine _).bind fun status =>
          .throw (show IsOrdinary (.exit status) from trivial))

omit [DecidableEq D] [DecidableEq P] in
theorem Controlled.withStartInsteadOfWait (stage : Option Nat) {m : Sh ω D P α} (hm : Controlled m) :
    Controlled (withStartInsteadOfWait stage m) where
  leaves frames world hworld := by
    set entered : World (Members ω D P) :=
      { world with outside := { world.outside with startInsteadOfWait := stage } }
    have hleaves := hm.leaves frames entered ⟨hworld.control, hworld.loops, hworld.functions,
      hworld.subshells⟩
    have hrun : exec (Shell.withStartInsteadOfWait stage m) world =
        exec (ensuring m (modifyMembers fun members =>
          { members with startInsteadOfWait := world.outside.startInsteadOfWait })) entered := rfl
    rw [hrun, exec_ensuring m (modifyMembers _) rfl]
    exact ⟨hleaves.depths, ⟨hleaves.positional.atTop, hleaves.positional.inside⟩, hleaves.ending⟩

end

/-! ## Rounds -/

/-- A loop that goes on, or that a `break` or `continue` has come to. -/
def roundMode : Option Bool → ControlMode
  | none => .running
  | some isBreak => .unwinding isBreak 1

/-- A world in a loop between `frames`. -/
structure InRound (ended : Option Bool) (frames : List ControlFrame)
    (world : World (Members ω D P)) : Prop where
  control : controlAfter world.outside.events = some ⟨.loop :: frames, roundMode ended⟩
  loops : world.outside.depths.loops = loopsIn frames + 1
  functions : world.outside.depths.functions = frames.count .function
  subshells : world.outside.depths.subshells = frames.count .subshell

/-- The rest of a loop: it keeps to what control may do, once the loop has ended. -/
structure ControlledRound (ended : Option Bool) (m : Sh ω D P Int) : Prop where
  leaves : ∀ frames world, InRound ended frames world →
    Leaves frames world
      ((controlAfter (exec m world).2.outside.events).bind (Control.step .loopEnded)) (exec m world)

theorem InRound.follows {frames : List ControlFrame} {world : World (Members ω D P)}
    (h : InRound none frames world) : Follows (.loop :: frames) world where
  control := h.control
  loops := h.loops
  functions := h.functions.trans (List.count_cons_of_ne (by decide)).symm
  subshells := h.subshells.trans (List.count_cons_of_ne (by decide)).symm

theorem Leaves.of_later {frames : List ControlFrame} {world world' : World (Members ω D P)}
    {control : Option Control} {ended : Except Failure α × World (Members ω D P)}
    (h : Leaves frames world' control ended)
    (hdepths : world'.outside.depths = world.outside.depths)
    (hpositional : TracksPositional world world') : Leaves frames world control ended where
  depths := h.depths.trans hdepths
  positional := hpositional.trans hdepths h.positional
  ending := hdepths ▸ h.ending

theorem ControlledRound.roundStarted {ended : Option Bool} {m : Sh ω D P Int}
    (hended : ended ≠ some true) (hm : ControlledRound none m) :
    ControlledRound ended (do
      happens .roundStarted
      m) where
  leaves frames world hworld := by
    have hstep : Control.step .roundStarted ⟨.loop :: frames, roundMode ended⟩ =
        some ⟨.loop :: frames, .running⟩ := by
      rcases ended with _ | _ | _
      · rfl
      · rfl
      · exact absurd rfl hended
    have hstarted : InRound none frames (withEvent .roundStarted world) :=
      ⟨controlAfter_cons_eq_some.mpr ⟨_, hworld.control, hstep⟩, hworld.loops, hworld.functions,
        hworld.subshells⟩
    rw [exec_bind_ok (exec_happens _ world)]
    exact (hm.leaves frames _ hstarted).of_later rfl ⟨fun _ hown => hown, fun _ => rfl⟩

theorem ControlledRound.over {ended : Option Bool} (status : Int) (hended : ended ≠ some false) :
    ControlledRound ended (pure status : Sh ω D P Int) where
  leaves frames world hworld := by
    refine ⟨rfl, ⟨fun _ hown => hown, fun _ => rfl⟩, ?_⟩
    rw [exec_pure, hworld.control]
    rcases ended with _ | _ | _
    · rfl
    · exact absurd rfl hended
    · rfl

theorem ControlledRound.failed : ControlledRound none (throw .outOfFuel : Sh ω D P Int) where
  leaves frames world hworld := by
    refine ⟨rfl, ⟨fun _ hown => hown, fun _ => rfl⟩, ?_⟩
    rw [exec_throw, hworld.control]
    rfl

theorem Ending.loopEnded {frames : List ControlFrame} {depths : Depths} {failure : Failure}
    {control : Option Control} (h : Ending (.loop :: frames) depths (.error failure : Except Failure α) control)
    (hordinary : ∀ isBreak levels, failure ≠ .loopControl isBreak levels) :
    Ending frames depths (.error failure : Except Failure β) (control.bind (Control.step .loopEnded)) := by
  cases failure with
  | loopControl isBreak levels => exact absurd rfl (hordinary isBreak levels)
  | functionReturn status =>
      refine ⟨h.1, ?_⟩
      rw [h.2]
      rfl
  | _ =>
      rw [show control = _ from h]
      rfl

theorem ControlledRound.bind {m : Sh ω D P α} {f : α → Sh ω D P Int} (hm : Quiet m)
    (hf : ∀ a, ControlledRound none (f a)) : ControlledRound none (m >>= f) where
  leaves frames world hworld := by
    have hleaves := (controlled_of_quiet hm).leaves _ _ hworld.follows
    have hthrows := hm.throwsOrdinary world
    rcases hrun : exec m world with ⟨failure | a, world'⟩ <;> rw [hrun] at hleaves hthrows
    · rw [exec_bind_error hrun]
      have hending : Ending frames world.outside.depths (.error failure : Except Failure Int) _ :=
        hleaves.ending.loopEnded fun isBreak levels heq => by
          subst heq
          exact hthrows _ rfl
      exact ⟨hleaves.depths, hleaves.positional, hending⟩
    · rw [exec_bind_ok hrun]
      have hsame := hleaves.depths
      exact ((hf a).leaves frames world' ⟨hleaves.ending, hsame ▸ hworld.loops,
        hsame ▸ hworld.functions, hsame ▸ hworld.subshells⟩).of_later hsame hleaves.positional

theorem exec_catchLoopControl (m : Sh ω D P Int) (world : World (Members ω D P)) :
    exec (catchLoopControl m) world =
      match exec m world with
      | (.ok status, world') => (.ok (.status status), world')
      | (.error (.loopControl isBreak levels), world') =>
          if levels > 1 then (.error (.loopControl isBreak (levels - 1)), world')
          else (.ok (.control isBreak), world')
      | (.error failure, world') => (.error failure, world') := by
  rw [catchLoopControl, exec_tryCatch, exec_bind]
  rcases exec m world with ⟨failure | status, world'⟩
  · cases failure with
    | loopControl isBreak levels =>
        dsimp only
        split
        · rfl
        · rfl
    | _ => rfl
  · rfl

/-- A `break` or `continue` that names more loops than one ends this one. -/
theorem ControlledRound.caught {m : Sh ω D P Int} {f : RoundEnd → Sh ω D P Int} (hm : Controlled m)
    (hstatus : ∀ status, ControlledRound none (f (.status status)))
    (hcontrol : ∀ isBreak, ControlledRound (some isBreak) (f (.control isBreak))) :
    ControlledRound none (catchLoopControl m >>= f) where
  leaves frames world hworld := by
    have hleaves := hm.leaves _ _ hworld.follows
    have hcaught := exec_catchLoopControl m world
    have hround {ended : Option Bool} {next : Sh ω D P Int} {world' : World (Members ω D P)}
        (hnext : ControlledRound ended next)
        (hdepths : world'.outside.depths = world.outside.depths)
        (hpositional : TracksPositional world world')
        (hcontrol : controlAfter world'.outside.events = some ⟨.loop :: frames, roundMode ended⟩) :
        Leaves frames world
          ((controlAfter (exec next world').2.outside.events).bind (Control.step .loopEnded))
          (exec next world') :=
      (hnext.leaves frames world' ⟨hcontrol, hdepths ▸ hworld.loops, hdepths ▸ hworld.functions,
        hdepths ▸ hworld.subshells⟩).of_later hdepths hpositional
    rcases hrun : exec m world with ⟨failure | status, world'⟩ <;> rw [hrun] at hleaves hcaught
    · have hthrown (hordinary : ∀ isBreak levels, failure ≠ .loopControl isBreak levels)
          (hrun : exec (catchLoopControl m) world = (.error failure, world')) :
          Leaves frames world
            ((controlAfter (exec (catchLoopControl m >>= f) world).2.outside.events).bind
              (Control.step .loopEnded)) (exec (catchLoopControl m >>= f) world) := by
        have hending : Ending frames world.outside.depths (.error failure : Except Failure Int) _ :=
          hleaves.ending.loopEnded hordinary
        rw [exec_bind_error hrun]
        exact ⟨hleaves.depths, hleaves.positional, hending⟩
      cases failure with
      | loopControl isBreak levels =>
          obtain ⟨hlevels, hloops, hended⟩ := hleaves.ending
          dsimp only at hcaught
          by_cases hmore : levels > 1
          · rw [if_pos hmore] at hcaught
            rw [exec_bind_error hcaught]
            refine ⟨hleaves.depths, hleaves.positional, Nat.le_sub_of_add_le hmore,
              Nat.sub_le_of_le_add hloops, ?_⟩
            rw [show controlAfter world'.outside.events = _ from hended]
            match levels, hmore with
            | levels + 2, _ => cases isBreak <;> rfl
          · rw [if_neg hmore] at hcaught
            rw [exec_bind_ok hcaught]
            obtain rfl : levels = 1 := le_antisymm (Nat.le_of_not_lt hmore) hlevels
            exact hround (hcontrol isBreak) hleaves.depths hleaves.positional hended
      | _ => exact hthrown nofun hcaught
    · rw [exec_bind_ok hcaught]
      exact hround (hstatus status) hleaves.depths hleaves.positional hleaves.ending

theorem Controlled.inLoop {m : Sh ω D P Int} (hm : ControlledRound none m) :
    Controlled (inLoop m) where
  leaves frames world hworld := by
    set entered : World (Members ω D P) :=
      changeDepths (fun depths => { depths with loops := depths.loops + 1 })
        (withEvent .loopStarted world)
    have hentered : InRound none frames entered :=
      ⟨controlAfter_cons_eq_some.mpr ⟨_, hworld.control, rfl⟩, congrArg (· + 1) hworld.loops,
        hworld.functions, hworld.subshells⟩
    have hleaves := hm.leaves frames entered hentered
    have hensured : exec (ensuring m (happens .loopEnded)) entered =
        ((exec m entered).1, withEvent .loopEnded (exec m entered).2) :=
      exec_ensuring m (happens .loopEnded) rfl
    have hrun : exec (Shell.inLoop m) world =
        ((exec m entered).1, changeDepths (fun depths => { depths with loops := depths.loops - 1 })
          (withEvent .loopEnded (exec m entered).2)) := by
      rw [Shell.inLoop, exec_bind_ok (exec_happens _ world), exec_withDepths, hensured]
    rw [hrun]
    refine ⟨?_, ⟨hleaves.positional.atTop, hleaves.positional.inside⟩, ?_⟩
    · exact (congrArg (fun depths : Depths => { depths with loops := depths.loops - 1 })
        hleaves.depths).trans rfl
    · exact hleaves.ending.of_return fun _ _ => id

/-! ## Every execution -/

theorem controlledDiscipline [DecidableEq D] [DecidableEq P] (machine : Machine ω D P) :
    Discipline machine (fun {_} (m : Sh ω D P _) => Controlled m)
      (fun {_} (m : Sh ω D P _) => Controlled m) Controlled ControlledRound where
  pure := controlled_pure
  bind := Controlled.bind
  quiet := controlled_of_quiet
  commandStarted := controlled_happens fun _ => rfl
  counted := .perform fun _ => ⟨rfl, rfl, rfl⟩
  builtinStarted _ arguments hbreak hcontinue := controlled_builtinStarted (by
    rw [asksOfLoops, if_neg hbreak, if_neg hcontinue])
  breaks := controlled_breaks
  returns := controlled_builtinReturn
  marks := id
  exec arguments := (controlled_builtinStarted rfl).bind fun _ =>
    controlled_builtinExec machine arguments
  taken hm hf := hm.bind fun status => controlled_takeKeepRedirections.bind fun keep => hf status keep
  tested := Controlled.inTestedContext
  startsInsteadOfWait stage hm := hm.withStartInsteadOfWait stage
  function positional hm := hm.inFunction positional
  dotScript := Controlled.inDotScript
  substitution := controlled_commandSubstitution machine
  redirected redirections hhost hfailed hbody :=
    .redirected machine hhost redirections hfailed hbody
  body := id
  bodyBind := Controlled.bind
  placed fd descriptor _ := controlled_placeDescriptor machine fd descriptor
  subshell := Controlled.runSubshell machine
  backgroundShell := controlled_startBackgroundShell machine
  loop := Controlled.inLoop
  roundStarted := ControlledRound.roundStarted
  roundOver := ControlledRound.over
  roundFailed := ControlledRound.failed
  roundBind := ControlledRound.bind
  caught := ControlledRound.caught

/-! ## The top level -/

structure AtTopLevel (world : World (Members ω D P)) : Prop where
  control : controlAfter world.outside.events = some {}
  depths : world.outside.depths = {}
  positional : world.state.positional = world.outside.ownPositional

abbrev StaysAtTop (m : Sh ω D P α) : Prop :=
  Triple AtTopLevel m (fun _ => AtTopLevel) fun _ => AtTopLevel

theorem AtTopLevel.follows {world : World (Members ω D P)} (h : AtTopLevel world) :
    Follows [] world where
  control := h.control
  loops := congrArg Depths.loops h.depths
  functions := congrArg Depths.functions h.depths
  subshells := congrArg Depths.subshells h.depths

theorem staysAtTop_of_quiet {m : Sh ω D P α} (hm : Quiet m) : StaysAtTop m := by
  have hstep (world world' : World (Members ω D P)) (h : AtTopLevel world)
      (hquiet : QuietStep world world') : AtTopLevel world' := by
    refine ⟨?_, hquiet.depths.trans h.depths, hquiet.positional.atTop ?_ h.positional⟩
    · rw [show world'.outside.events = world.outside.events from
        congrArg Frame.events hquiet.frame, h.control]
    · rw [h.depths]
      exact ⟨rfl, rfl⟩
  exact Respects.triple (fun world => (hm world).step) (fun _ _ _ => hstep _ _)
    fun _ _ _ => hstep _ _

/-- Between no frames nothing ends that a loop, a function or a dot script would catch. -/
theorem Leaves.atTop {world : World (Members ω D P)}
    {ended : Except Failure α × World (Members ω D P)} (hworld : AtTopLevel world)
    (h : Leaves [] world (controlAfter ended.2.outside.events) ended) :
    AtTopLevel ended.2 ∧ ∀ failure, ended.1 = .error failure → IsOrdinary failure := by
  have htop : world.outside.depths.atTop := by
    rw [hworld.depths]
    exact ⟨rfl, rfl⟩
  have hending := h.ending
  rw [hworld.depths] at hending
  have hkept (hcontrol : controlAfter ended.2.outside.events = some {}) : AtTopLevel ended.2 :=
    ⟨hcontrol, h.depths.trans hworld.depths, h.positional.atTop htop hworld.positional⟩
  obtain ⟨failure | a, world'⟩ := ended
  · cases failure with
    | loopControl isBreak levels =>
        exact absurd (hending.1.trans hending.2.1) (Nat.not_succ_le_zero 0)
    | functionReturn status => exact absurd hending.1 (by simp)
    | _ =>
        refine ⟨hkept hending, fun failure hfailure => ?_⟩
        cases hfailure
        trivial
  · exact ⟨hkept hending, nofun⟩

theorem failureIsOrdinary_of_isOrdinary {failure : Failure} (h : IsOrdinary failure) :
    failureIsOrdinary (some failure) = true := by
  cases failure <;> first | rfl | exact h.elim

theorem staysAtTop_commandEnded (ended : Except Failure Int) :
    Triple (fun world => AtTopLevel world ∧ ∀ failure, ended = .error failure → IsOrdinary failure)
      (commandEnded ended : Sh ω D P Unit) (fun _ => AtTopLevel) fun _ => AtTopLevel := by
  rintro world ⟨htop, hordinary⟩
  refine ⟨controlAfter_cons_eq_some.mpr
    ⟨_, htop.control, if_pos ⟨?_, htop.depths, htop.positional⟩⟩, htop.depths, htop.positional⟩
  cases ended with
  | ok status => rfl
  | error failure => exact failureIsOrdinary_of_isOrdinary (hordinary failure rfl)

section

variable [DecidableEq D] [DecidableEq P] (machine : Machine ω D P) (knowledge : Knowledge ω D)
  (parse : ParseText) (fuel : Nat)

theorem staysAtTop_runOneCommand (items : CommandList HereDocument Text) :
    StaysAtTop (runOneCommand machine (executor machine knowledge parse fuel) items) := by
  have hinner := (controlledDiscipline machine).executor knowledge parse fuel
  have hlist : Triple AtTopLevel (attempt ((executor machine knowledge parse fuel).list items))
      (fun ended world => AtTopLevel world ∧ ∀ failure, ended = .error failure → IsOrdinary failure)
      fun _ => AtTopLevel :=
    fun world hworld => ((hinner.list items).leaves [] world hworld.follows).atTop hworld
  refine Triple.bind_intro hlist fun ended => ?_
  refine Triple.bind_intro (staysAtTop_commandEnded ended) fun _ => ?_
  rcases ended with failure | status
  · cases failure with
    | shellError error =>
        refine staysAtTop_of_quiet ((Quiet.reportError machine error).bind fun _ => ?_)
        refine Quiet.bind (.modifyState fun _ => ?_) fun _ => Quiet.getState.bind fun state => ?_
        · rfl
        · exact .ite (.pure _) (.throw (show IsOrdinary (.shellError error) from trivial))
    | _ => exact Triple.throw_intro fun _ => id
  · exact Triple.pure_intro fun _ => id

theorem staysAtTop_runScript (error : Option ShellError) : ∀ status commands,
    StaysAtTop (runScript machine (executor machine knowledge parse fuel) error status commands)
  | status, [] => by
      cases error with
      | none => exact Triple.pure_intro fun _ => id
      | some error =>
          exact staysAtTop_of_quiet (Quiet.getState.bind fun state =>
            (Quiet.writeErr machine _).bind fun _ => .pure _)
  | _, items :: rest => by
      refine Triple.bind_intro
        ((staysAtTop_runOneCommand machine knowledge parse fuel items).attempt_intro) fun ended => ?_
      rcases ended with failure | status
      · cases failure with
        | exit status => exact Triple.pure_intro fun _ => id
        | shellError error => exact Triple.pure_intro fun _ => id
        | _ => exact Triple.throw_intro fun _ => id
      · exact Triple.bind_intro (staysAtTop_of_quiet (.throwIfStopRequested machine)) fun _ =>
          staysAtTop_runScript error status rest

theorem staysAtTop_runTyped : ∀ status commands,
    StaysAtTop (runTyped machine (executor machine knowledge parse fuel) status commands)
  | status, [] => Triple.pure_intro fun _ => id
  | _, items :: rest => by
      refine Triple.bind_intro
        ((staysAtTop_runOneCommand machine knowledge parse fuel items).attempt_intro) fun ended => ?_
      rcases ended with failure | status
      · cases failure with
        | exit status => exact Triple.pure_intro fun _ => id
        | _ => exact Triple.throw_intro fun _ => id
      · exact Triple.bind_intro (staysAtTop_of_quiet (.throwIfStopRequested machine)) fun _ =>
          staysAtTop_runTyped status rest

omit [DecidableEq D] [DecidableEq P] in
theorem quiet_readInputLine : Quiet (readInputLine machine : Sh ω D P (Option Text)) := by
  refine (Quiet.look _).bind fun input => ?_
  split
  · exact .pure _
  · refine (Quiet.onOutside _).bind fun ended => ?_
    split
    · exact .throw trivial
    · exact .pure _
    · exact .pure _

theorem staysAtTop_runInteractive : ∀ lines buffer lineNumber firstLine status,
    StaysAtTop (runInteractive machine parse (executor machine knowledge parse fuel) lines buffer
      lineNumber firstLine status)
  | 0, _, _, _, _ => Triple.throw_intro fun _ => id
  | lines + 1, buffer, lineNumber, firstLine, status => by
      rw [runInteractive]
      refine Triple.bind_intro (staysAtTop_of_quiet .getState) fun state => ?_
      refine Triple.bind_intro (staysAtTop_of_quiet (.writeErr machine _)) fun _ => ?_
      refine Triple.bind_intro (staysAtTop_of_quiet (quiet_readInputLine machine)) fun line => ?_
      split
      · exact staysAtTop_of_quiet ((Quiet.writeErr machine _).bind fun _ => .pure _)
      dsimp only
      split
      · split
        · exact staysAtTop_runInteractive lines _ _ _ _
        · refine Triple.bind_intro (staysAtTop_of_quiet .getState) fun state => ?_
          refine Triple.bind_intro (staysAtTop_of_quiet (.writeErr machine _)) fun _ => ?_
          refine Triple.bind_intro (staysAtTop_of_quiet (.modifyState fun _ => ?_)) fun _ => ?_
          · rfl
          · exact staysAtTop_runInteractive lines _ _ _ _
      · refine Triple.bind_intro (staysAtTop_runTyped machine knowledge parse fuel _ _) fun ended => ?_
        split
        · exact Triple.pure_intro fun _ => id
        · exact staysAtTop_runInteractive lines _ _ _ _

omit [DecidableEq D] [DecidableEq P] in
theorem quiet_scriptText (source : InvocationSource) :
    Quiet (scriptText machine source : Sh ω D P (Except Int Text)) := by
  cases source with
  | commandString source => exact .pure _
  | scriptFile path =>
      have hcannot : Quiet (do
          let reason ← look (openFailureReason (shellFiles machine) path false)
          writeErr machine (formatShellError (text "hsh") 0
            (text "cannot open " ++ path ++ text ": " ++ reason))
          pure (.error 2) : Sh ω D P (Except Int Text)) :=
        (Quiet.look _).bind fun reason => (Quiet.writeErr machine _).bind fun _ => .pure _
      refine Quiet.bind ?_ fun descriptor => ?_
      · exact .perform fun _ => ⟨rfl, rfl⟩
      · split
        · exact hcannot
        · refine (Quiet.onOutside _).bind fun ended => ?_
          split
          · exact .pure _
          · exact hcannot
  | standardInput =>
      refine (Quiet.look _).bind fun input => ?_
      split
      · exact .pure _
      · refine (Quiet.onOutside _).bind fun ended => ?_
        split
        · exact .pure _
        · exact .pure _
        · exact .pure _

theorem staysAtTop_run (stopChildren : List P → ω → ω) (lines : Nat) (source : InvocationSource) :
    StaysAtTop (run machine parse (executor machine knowledge parse fuel) stopChildren lines
      source) := by
  refine Triple.tryCatch_intro (fun _ => AtTopLevel) ?_ fun failure => ?_
  · refine Triple.bind_intro (staysAtTop_of_quiet .getState) fun state => ?_
    split
    · exact staysAtTop_runInteractive machine knowledge parse fuel lines _ _ _ _
    · refine Triple.bind_intro (staysAtTop_of_quiet (quiet_scriptText machine source)) fun found => ?_
      rcases found with status | source
      · exact Triple.pure_intro fun _ => id
      · refine Triple.bind_intro (staysAtTop_of_quiet .getState) fun state => ?_
        exact staysAtTop_runScript machine knowledge parse fuel _ _ _
  · cases failure with
    | stopped =>
        refine staysAtTop_of_quiet (Quiet.getMembers.bind fun members => ?_)
        refine (Quiet.onOutside _).bind fun _ => Quiet.bind (.modifyMembers fun _ => ?_) fun _ => .pure _
        exact ⟨rfl, rfl⟩
    | _ => exact Triple.throw_intro fun _ => id

/--
In every run of the shell each command of the top level ends at the top, with nothing thrown
that a loop, a function or a dot script would catch; and where `break n` or `continue n` is
called in `d` loops of the current function call, the `min n d`-th of these is reached, or
the end of the subshell.
-/
theorem control_staysInside (stopChildren : List P → ω → ω) (lines : Nat)
    (source : InvocationSource) (world : World (Members ω D P))
    (hevents : world.outside.events = []) (hdepths : world.outside.depths = {})
    (hpositional : world.state.positional = world.outside.ownPositional)
    (later earlier : List ControlEvent) (event : ControlEvent)
    (hrun : (exec (run machine parse (executor machine knowledge parse fuel) stopChildren lines
      source) world).2.outside.events = later ++ event :: earlier) :
    (∀ failure depths positional ownPositional,
      event = .commandEnded failure depths positional ownPositional →
        EndsAtTop failure depths positional ownPositional) ∧
    ∀ name arguments isBreak levels, event = .builtinStarted name arguments →
      asksOfLoops name arguments = some (isBreak, levels) →
      ∃ frames, controlAfter earlier = some ⟨frames, .running⟩ ∧
        (1 ≤ loopsIn frames →
          Reaches isBreak (min levels (loopsIn frames)) frames later.reverse) := by
  have hstart : AtTopLevel world := by
    refine ⟨?_, hdepths, hpositional⟩
    rw [hevents]
    rfl
  have htop : AtTopLevel (exec (run machine parse (executor machine knowledge parse fuel)
      stopChildren lines source) world).2 := by
    have hstays := staysAtTop_run machine knowledge parse fuel stopChildren lines source world hstart
    generalize exec (run machine parse (executor machine knowledge parse fuel) stopChildren lines
      source) world = ended at hstays ⊢
    obtain ⟨_ | _, _⟩ := ended <;> exact hstays
  have hcontrol := htop.control
  rw [hrun] at hcontrol
  refine ⟨?_, ?_⟩
  · rintro failure depths positional ownPositional rfl
    exact (endsAtTop_of_controlAfter hcontrol).2
  · rintro name arguments isBreak levels rfl hasks
    exact reaches_of_controlAfter hasks hcontrol

end

/-! ## A `break` out of two loops -/

def loopOver (var : Text) (body : Command HereDocument Text) : Command HereDocument Text :=
  .compound (.forCommand var (some [{ parts := [.literal ['a']] }, { parts := [.literal ['b']] }])
    [.mk (.last (.mk false body [] 1)) false []]) [] 1

/-- `for i in a b; do for j in a b; do break 2; done; done` -/
def breaksTwice : Command HereDocument Text :=
  loopOver ['i'] (loopOver ['j'] (.simple
    { words := [{ parts := [.literal (text "break")] }, { parts := [.literal ['2']] }] }))

/-- Every text is parsed as `breaksTwice`. -/
def parsesBreaks : ParseText := fun _ _ _ =>
  { commands := [[.mk (.last (.mk false breaksTwice [] 1)) false []]] }

def idleWorld : World (Members Unit Nat Unit) where
  state := {}
  outside := { files := { outside := () } }

def breakRun : Except Failure Int × World (Members Unit Nat Unit) :=
  exec (run idleMachine parsesBreaks (executor idleMachine idleKnowledge parsesBreaks 9)
    (fun _ outside => outside) 1 (.commandString [])) idleWorld

def eventsBeforeBreak : List ControlEvent :=
  [.commandStarted, .roundStarted, .loopStarted, .commandStarted, .roundStarted, .loopStarted,
    .commandStarted]

theorem control_staysInside_breaks :
    ∃ frames, controlAfter eventsBeforeBreak = some ⟨frames, .running⟩ ∧
      (1 ≤ loopsIn frames → Reaches true (min 2 (loopsIn frames)) frames
        [.loopEnded, .loopEnded, .commandEnded none {} [] []]) := by
  have hrun : breakRun.2.outside.events =
      [.commandEnded none {} [] [], .loopEnded, .loopEnded] ++
        .builtinStarted (text "break") [['2']] :: eventsBeforeBreak := by
    decide +kernel
  rw [breakRun] at hrun
  exact (control_staysInside idleMachine idleKnowledge parsesBreaks 9 (fun _ outside => outside) 1
    (.commandString []) idleWorld rfl rfl rfl _ _ _ hrun).2 _ _ true 2 rfl rfl

end Haisos.Hsh.Shell
