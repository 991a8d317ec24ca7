import Haisos.Hsh.Shell.Assignments
import Haisos.Hsh.Shell.Control
import Haisos.Hsh.Shell.Subshells

/-!
# Execution keeps to what control may do

The depths that the shell counts are those of the frames, and every event is one that may
happen.  A `break` or `continue` that leaves a part of a command names a loop around it.
-/

namespace Haisos.Hsh.Shell

open StateExcept

variable {ω D P α β : Type}

/-- The frames around what runs, and the depths of a world. -/
structure Follows (frames : List ControlFrame) (world : World (Members ω D P)) : Prop where
  control : controlAfter world.outside.events = some ⟨frames, .running⟩
  loops : world.outside.depths.loops = loopsIn frames
  functions : world.outside.depths.functions = frames.count .function
  subshells : world.outside.depths.subshells = frames.count .subshell

/-- How something between `frames` may end, in the control that its events lead to. -/
def Ending (frames : List ControlFrame) (depths : Depths) :
    Except Failure α → Option Control → Prop
  | .error (.loopControl isBreak levels), control =>
      1 ≤ levels ∧ levels ≤ loopsIn frames ∧ control = some ⟨frames, .unwinding isBreak levels⟩
  | .error (.functionReturn _), control =>
      (0 < depths.functions ∨ 0 < depths.dots) ∧ control = some ⟨frames, .running⟩
  | _, control => control = some ⟨frames, .running⟩

/-- What a run between `frames` leaves. -/
structure Leaves (frames : List ControlFrame) (world : World (Members ω D P))
    (control : Option Control) (ended : Except Failure α × World (Members ω D P)) : Prop where
  depths : ended.2.outside.depths = world.outside.depths
  positional : TracksPositional world ended.2
  ending : Ending frames world.outside.depths ended.1 control

structure Controlled (m : Sh ω D P α) : Prop where
  leaves : ∀ frames world, Follows frames world →
    Leaves frames world (controlAfter (exec m world).2.outside.events) (exec m world)

theorem Follows.of_same {frames : List ControlFrame} {world world' : World (Members ω D P)}
    (hdepths : world'.outside.depths = world.outside.depths)
    (hcontrol : controlAfter world'.outside.events = some ⟨frames, .running⟩)
    (h : Follows frames world) : Follows frames world' :=
  ⟨hcontrol, hdepths ▸ h.loops, hdepths ▸ h.functions, hdepths ▸ h.subshells⟩

theorem TracksPositional.trans {world world' world'' : World (Members ω D P)}
    (h : TracksPositional world world') (hdepths : world'.outside.depths = world.outside.depths)
    (h' : TracksPositional world' world'') : TracksPositional world world'' where
  atTop htop hown := h'.atTop (hdepths ▸ htop) (h.atTop htop hown)
  inside hin := (h'.inside (hdepths ▸ hin)).trans (h.inside hin)

theorem Ending.of_ordinary {frames : List ControlFrame} {depths : Depths}
    {ended : Except Failure α} {control : Option Control}
    (hended : ∀ failure, ended = .error failure → IsOrdinary failure)
    (h : control = some ⟨frames, .running⟩) : Ending frames depths ended control := by
  rcases ended with failure | a
  · have hordinary := hended failure rfl
    cases failure <;> first | exact h | exact hordinary.elim
  · exact h

/-- The depths matter to a `return` only. -/
theorem Ending.of_return {frames : List ControlFrame} {depths depths' : Depths}
    {ended : Except Failure α} {control : Option Control}
    (hreturn : ∀ status, ended = .error (.functionReturn status) →
      0 < depths.functions ∨ 0 < depths.dots → 0 < depths'.functions ∨ 0 < depths'.dots)
    (h : Ending frames depths ended control) : Ending frames depths' ended control := by
  rcases ended with failure | a
  · cases failure with
    | functionReturn status => exact ⟨hreturn status rfl h.1, h.2⟩
    | _ => exact h
  · exact h

theorem controlled_pure (a : α) : Controlled (pure a : Sh ω D P α) where
  leaves _ _ h := ⟨rfl, ⟨fun _ hown => hown, fun _ => rfl⟩, h.control⟩

theorem Controlled.bind {m : Sh ω D P α} {f : α → Sh ω D P β} (hm : Controlled m)
    (hf : ∀ a, Controlled (f a)) : Controlled (m >>= f) where
  leaves frames world hworld := by
    have hleaves := hm.leaves frames world hworld
    rcases hrun : exec m world with ⟨failure | a, world'⟩ <;> rw [hrun] at hleaves
    · rw [exec_bind_error hrun]
      refine ⟨hleaves.depths, hleaves.positional, ?_⟩
      have hending := hleaves.ending
      cases failure <;> exact hending
    · have hnext := (hf a).leaves frames world'
        (hworld.of_same hleaves.depths hleaves.ending)
      rw [exec_bind_ok hrun]
      refine ⟨hnext.depths.trans hleaves.depths,
        hleaves.positional.trans hleaves.depths hnext.positional, ?_⟩
      have hending := hnext.ending
      rw [show world'.outside.depths = world.outside.depths from hleaves.depths] at hending
      exact hending

theorem controlled_of_quiet {m : Sh ω D P α} (hm : Quiet m) : Controlled m where
  leaves frames world hworld :=
    { depths := (hm world).step.depths
      positional := (hm world).step.positional
      ending := .of_ordinary (hm world).ordinary (by
        rw [show (exec m world).2.outside.events = world.outside.events from
          congrArg Frame.events (hm world).step.frame, hworld.control]) }

/-! ## Scopes that are no frames -/

theorem TracksPositional.between {world entered left ended : World (Members ω D P)}
    (h : TracksPositional entered left)
    (hstart : entered.state.positional = world.state.positional ∧
      entered.outside.ownPositional = world.outside.ownPositional)
    (htop : entered.outside.depths.atTop ↔ world.outside.depths.atTop)
    (hend : ended.state.positional = left.state.positional ∧
      ended.outside.ownPositional = left.outside.ownPositional) : TracksPositional world ended where
  atTop hworld hown := by
    rw [hend.1, hend.2]
    exact h.atTop (htop.mpr hworld) (by rw [hstart.1, hstart.2, hown])
  inside hworld := by
    rw [hend.2, h.inside fun hin => hworld (htop.mp hin), hstart.2]

theorem TracksPositional.putBack {world ended : World (Members ω D P)}
    (hpositional : ended.state.positional = world.state.positional)
    (hown : ended.outside.ownPositional = world.outside.ownPositional) :
    TracksPositional world ended where
  atTop _ h := by rw [hpositional, hown, h]
  inside _ := hown

def changeDepths (f : Depths → Depths) (world : World (Members ω D P)) : World (Members ω D P) :=
  { world with outside := { world.outside with depths := f world.outside.depths } }

theorem exec_withDepths (enter leave : Depths → Depths) (m : Sh ω D P α)
    (world : World (Members ω D P)) :
    exec (withDepths enter leave m) world =
      ((exec m (changeDepths enter world)).1,
        changeDepths leave (exec m (changeDepths enter world)).2) :=
  exec_ensuring m (modifyDepths leave) rfl

theorem Controlled.leaves_withDepths {m : Sh ω D P α} (hm : Controlled m)
    (enter leave : Depths → Depths)
    (hleave : ∀ depths, leave (enter depths) = depths)
    (hframes : ∀ depths, (enter depths).loops = depths.loops ∧
      (enter depths).functions = depths.functions ∧ (enter depths).subshells = depths.subshells)
    {frames : List ControlFrame} {world : World (Members ω D P)} (hworld : Follows frames world) :
    (exec (withDepths enter leave m) world).2.outside.depths = world.outside.depths ∧
      TracksPositional world (exec (withDepths enter leave m) world).2 ∧
      Ending frames (enter world.outside.depths) (exec (withDepths enter leave m) world).1
        (controlAfter (exec (withDepths enter leave m) world).2.outside.events) := by
  obtain ⟨hloops, hfunctions, hsubshells⟩ := hframes world.outside.depths
  have hleaves := hm.leaves frames (changeDepths enter world)
    ⟨hworld.control, hloops.trans hworld.loops, hfunctions.trans hworld.functions,
      hsubshells.trans hworld.subshells⟩
  have htop : (changeDepths enter world).outside.depths.atTop ↔ world.outside.depths.atTop := by
    rw [Depths.atTop, Depths.atTop]
    exact and_congr (iff_of_eq (congrArg (· = 0) hfunctions)) (iff_of_eq (congrArg (· = 0) hsubshells))
  rw [exec_withDepths]
  refine ⟨?_, hleaves.positional.between ⟨rfl, rfl⟩ htop ⟨rfl, rfl⟩, hleaves.ending⟩
  exact (congrArg leave hleaves.depths).trans (hleave _)

theorem Controlled.inTestedContext {m : Sh ω D P Int} (hm : Controlled m) :
    Controlled (inTestedContext m) where
  leaves frames world hworld := by
    obtain ⟨hdepths, hpositional, hending⟩ := hm.leaves_withDepths
      (fun depths => { depths with errexitSuppressed := depths.errexitSuppressed + 1 })
      (fun depths => { depths with errexitSuppressed := depths.errexitSuppressed - 1 })
      (fun _ => rfl) (fun _ => ⟨rfl, rfl, rfl⟩) hworld
    exact ⟨hdepths, hpositional, hending.of_return fun _ _ => id⟩

theorem exec_catchReturn (m : Sh ω D P Int) (world : World (Members ω D P)) :
    (exec (catchReturn m) world).2 = (exec m world).2 ∧
      (∀ status, (exec (catchReturn m) world).1 ≠ .error (.functionReturn status)) ∧
      ∀ {frames : List ControlFrame} {depths : Depths} {control : Option Control},
        Ending frames depths (exec m world).1 control →
        Ending frames depths (exec (catchReturn m) world).1 control := by
  rw [catchReturn, exec_tryCatch]
  rcases exec m world with ⟨failure | status, world'⟩
  · cases failure with
    | functionReturn status => exact ⟨rfl, nofun, fun h => h.2⟩
    | _ => exact ⟨rfl, nofun, id⟩
  · exact ⟨rfl, nofun, id⟩

theorem Controlled.catchReturn {m : Sh ω D P Int} (hm : Controlled m) :
    Controlled (catchReturn m) where
  leaves frames world hworld := by
    have hleaves := hm.leaves frames world hworld
    obtain ⟨hsame, -, hcaught⟩ := exec_catchReturn m world
    constructor
    · rw [hsame, hleaves.depths]
    · rw [hsame]
      exact hleaves.positional
    · rw [hsame]
      exact hcaught hleaves.ending

theorem Controlled.inDotScript {m : Sh ω D P Int} (hm : Controlled m) :
    Controlled (inDotScript m) where
  leaves frames world hworld := by
    obtain ⟨hdepths, hpositional, hending⟩ := hm.catchReturn.leaves_withDepths
      (fun depths => { depths with dots := depths.dots + 1 })
      (fun depths => { depths with dots := depths.dots - 1 })
      (fun _ => rfl) (fun _ => ⟨rfl, rfl, rfl⟩) hworld
    refine ⟨hdepths, hpositional, hending.of_return fun status hended => ?_⟩
    rw [Shell.inDotScript, exec_withDepths] at hended
    exact absurd hended ((exec_catchReturn m _).2.1 status)

/-! ## Functions -/

def enterFunction (positional : List Text) (world : World (Members ω D P)) :
    World (Members ω D P) :=
  ⟨{ world.state with positional },
    { world.outside with
      events := .functionEntered :: world.outside.events
      depths :=
        { world.outside.depths with
          loops := 0
          functions := world.outside.depths.functions + 1 } }⟩

def leaveFunction (before ended : World (Members ω D P)) : World (Members ω D P) :=
  ⟨{ ended.state with positional := before.state.positional },
    { ended.outside with
      events := .functionLeft :: ended.outside.events
      depths :=
        { ended.outside.depths with
          loops := before.outside.depths.loops
          functions := ended.outside.depths.functions - 1 } }⟩

theorem exec_inFunction (positional : List Text) (m : Sh ω D P Int)
    (world : World (Members ω D P)) :
    exec (inFunction positional m) world =
      ((exec (catchReturn m) (enterFunction positional world)).1,
        leaveFunction world (exec (catchReturn m) (enterFunction positional world)).2) := by
  have hensure : exec (ensuring (catchReturn m) (do
      happens .functionLeft
      modifyState fun state => { state with positional := world.state.positional }))
      (enterFunction positional world) =
        ((exec (catchReturn m) (enterFunction positional world)).1,
          { state :=
              { (exec (catchReturn m) (enterFunction positional world)).2.state with
                positional := world.state.positional }
            outside :=
              { (exec (catchReturn m) (enterFunction positional world)).2.outside with
                events := .functionLeft ::
                  (exec (catchReturn m) (enterFunction positional world)).2.outside.events } }) :=
    exec_ensuring _ _ rfl
  have hrun : exec (inFunction positional m) world =
      exec (withDepths
        (fun depths => { depths with loops := 0, functions := depths.functions + 1 })
        (fun depths =>
          { depths with loops := world.outside.depths.loops, functions := depths.functions - 1 })
        (ensuring (catchReturn m) (do
          happens .functionLeft
          modifyState fun state => { state with positional := world.state.positional })))
        ⟨{ world.state with positional },
          { world.outside with events := .functionEntered :: world.outside.events }⟩ := rfl
  rw [hrun, exec_withDepths]
  exact congrArg (fun ended : Except Failure Int × World (Members ω D P) =>
    (ended.1, changeDepths (fun depths =>
      { depths with
        loops := world.outside.depths.loops
        functions := depths.functions - 1 }) ended.2)) hensure

theorem Controlled.inFunction (positional : List Text) {m : Sh ω D P Int} (hm : Controlled m) :
    Controlled (inFunction positional m) where
  leaves frames world hworld := by
    have hentered : Follows (.function :: frames) (enterFunction positional world) :=
      { control := controlAfter_cons_eq_some.mpr ⟨_, hworld.control, rfl⟩
        loops := rfl
        functions := by
          rw [List.count_cons_self, ← hworld.functions]
          rfl
        subshells := hworld.subshells }
    have hleaves := hm.catchReturn.leaves _ _ hentered
    have hending := hleaves.ending
    have hcaught := (exec_catchReturn m (enterFunction positional world)).2.1
    rw [exec_inFunction]
    refine ⟨?_, .putBack rfl ?_, ?_⟩
    · refine (congrArg (fun depths : Depths =>
        { depths with
          loops := world.outside.depths.loops
          functions := depths.functions - 1 }) hleaves.depths).trans ?_
      rfl
    · exact hleaves.positional.inside fun htop => Nat.succ_ne_zero _ htop.1
    · have hleft {control : Option Control}
          (h : control = some ⟨.function :: frames, .running⟩) :
          control.bind (Control.step .functionLeft) = some ⟨frames, .running⟩ := by
        rw [h]
        rfl
      rcases hrun : (exec (Shell.catchReturn m) (enterFunction positional world)).1 with
        failure | status <;> rw [hrun] at hending
      · cases failure with
        | loopControl isBreak levels => exact absurd (hending.1.trans hending.2.1) (Nat.not_succ_le_zero 0)
        | functionReturn status => exact absurd hrun (hcaught status)
        | _ => exact hleft hending
      · exact hleft hending

end Haisos.Hsh.Shell
