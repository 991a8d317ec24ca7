import Haisos.Hsh.Redirection.PutBack
import Haisos.Hsh.Redirection.Undo
import Haisos.Hsh.Shell.Discipline

/-!
# Subshells leave no trace

A subshell runs in the shell's own process: what it changes is put back when it ends,
however it ends.  Descriptors are put back by way of a free slot.
-/

namespace Haisos.Hsh.Shell

open StateExcept

variable {ω D P α β : Type}

/-! ## What commands leave -/

structure KeepsMarks (world world' : World (Members ω D P)) : Prop where
  depths : world'.outside.depths = world.outside.depths
  startInsteadOfWait : world'.outside.startInsteadOfWait = world.outside.startInsteadOfWait
  keepRedirections : world.outside.keepRedirections = false →
    world'.outside.keepRedirections = false
  named : ∀ fd ∈ world.outside.named, fd ∈ world'.outside.named

def FreeUnlessNamed (fd : Nat) (world : World (Members ω D P)) : Prop :=
  IsFree tableOf fd world ∨ fd ∈ world.outside.named

structure Settles (world world' : World (Members ω D P)) : Prop extends
    KeepsMarks world world' where
  free : ∀ fd, FreeUnlessNamed fd world → FreeUnlessNamed fd world'

instance : @Std.Refl (World (Members ω D P)) KeepsMarks := ⟨fun _ => ⟨rfl, rfl, id, fun _ => id⟩⟩

instance : IsTrans (World (Members ω D P)) KeepsMarks :=
  ⟨fun _ _ _ h h' =>
    ⟨h'.depths.trans h.depths, h'.startInsteadOfWait.trans h.startInsteadOfWait,
      fun hkeep => h'.keepRedirections (h.keepRedirections hkeep),
      fun fd hfd => h'.named fd (h.named fd hfd)⟩⟩

instance : @Std.Refl (World (Members ω D P)) Settles := ⟨fun _ => ⟨Std.Refl.refl _, fun _ => id⟩⟩

instance : IsTrans (World (Members ω D P)) Settles :=
  ⟨fun _ _ _ h h' =>
    ⟨IsTrans.trans _ _ _ h.toKeepsMarks h'.toKeepsMarks, fun fd hfree =>
      h'.free fd (h.free fd hfree)⟩⟩

theorem FreeUnlessNamed.of_same {fd : Nat} (world : World (Members ω D P))
    {world' : World (Members ω D P)}
    (hslots : slotsOf tableOf world' = slotsOf tableOf world)
    (hnamed : world'.outside.named = world.outside.named) (h : FreeUnlessNamed fd world) :
    FreeUnlessNamed fd world' := by
  rw [FreeUnlessNamed, hnamed]
  exact h.imp_left (IsFree.of_slots hslots)

theorem Settles.of_frame {world world' : World (Members ω D P)}
    (h : world'.outside.frame = world.outside.frame) : Settles world world' where
  depths := congrArg Frame.depths h
  startInsteadOfWait := congrArg Frame.startInsteadOfWait h
  keepRedirections hkeep := (congrArg Frame.keepRedirections h).trans hkeep
  named fd hfd := (congrArg (fd ∈ Frame.named ·) h).mpr hfd
  free _ hfree := hfree.of_same _ (congrArg Frame.slots h) (congrArg Frame.named h)

theorem Quiet.settles {m : Sh ω D P α} (h : Quiet m) : Respects Settles m :=
  fun world => .of_frame (h world).step.frame

theorem settles_modifyMembers {f : Members ω D P → Members ω D P}
    (h : ∀ members, { (f members).frame with
      events := members.events, substitutionCount := members.substitutionCount } = members.frame) :
    Respects Settles (modifyMembers f) := fun world =>
  { depths := congrArg Frame.depths (h world.outside)
    startInsteadOfWait := congrArg Frame.startInsteadOfWait (h world.outside)
    keepRedirections := fun hkeep =>
      (congrArg Frame.keepRedirections (h world.outside)).trans hkeep
    named := fun fd hfd => (congrArg (fd ∈ Frame.named ·) (h world.outside)).mpr hfd
    free := fun _ hfree => hfree.of_same _ (congrArg Frame.slots (h world.outside))
      (congrArg Frame.named (h world.outside)) }

theorem settles_happens (event : ControlEvent) :
    Respects Settles (happens event : Sh ω D P Unit) := settles_modifyMembers fun _ => rfl

theorem settles_modifyState (f : ShellState → ShellState) :
    Respects Settles (modifyState f : Sh ω D P Unit) := fun _ => .of_frame rfl

/-! ## Scopes -/

theorem settles_withDepths (enter leave : Depths → Depths) {m : Sh ω D P α}
    (hm : Respects Settles m) {world : World (Members ω D P)}
    (h : leave (enter world.outside.depths) = world.outside.depths) :
    Settles world (exec (withDepths enter leave m) world).2 := by
  set entered : World (Members ω D P) :=
    { world with outside := { world.outside with depths := enter world.outside.depths } }
  have hbody := hm entered
  have hrun : exec (withDepths enter leave m) world = exec (ensuring m (modifyDepths leave)) entered :=
    rfl
  rw [hrun, exec_ensuring m (modifyDepths leave) rfl]
  exact
    { depths := (congrArg leave hbody.depths).trans h
      startInsteadOfWait := hbody.startInsteadOfWait
      keepRedirections := hbody.keepRedirections
      named := hbody.named
      free := fun fd hfree =>
        .of_same (exec m entered).2 rfl rfl
          (hbody.free fd (.of_same world rfl rfl hfree)) }

theorem settles_inTestedContext {m : Sh ω D P α} (hm : Respects Settles m) :
    Respects Settles (inTestedContext m) := fun _ => settles_withDepths _ _ hm rfl

theorem settles_inLoop {m : Sh ω D P α} (hm : Respects Settles m) :
    Respects Settles (inLoop m) :=
  Respects.bind_intro (settles_happens _) fun _ _ =>
    settles_withDepths _ _ (Respects.ensuring_intro hm (settles_happens _)) rfl

theorem settles_catchReturn {m : Sh ω D P Int} (hm : Respects Settles m) :
    Respects Settles (catchReturn m) := by
  refine Respects.tryCatch_intro hm fun failure => ?_
  split
  · exact Respects.pure_intro _
  · exact Respects.throw_intro _

theorem settles_catchLoopControl {m : Sh ω D P Int} (hm : Respects Settles m) :
    Respects Settles (catchLoopControl m) := by
  refine Respects.tryCatch_intro (Respects.bind_intro hm fun _ => Respects.pure_intro _)
    fun failure => ?_
  split
  · split
    · exact Respects.throw_intro _
    · exact Respects.pure_intro _
  · exact Respects.throw_intro _

theorem settles_inFunction (positional : List Text) {m : Sh ω D P Int}
    (hm : Respects Settles m) : Respects Settles (inFunction positional m) := by
  intro world
  have hset := settles_modifyState (fun state => { state with positional }) world
  refine IsTrans.trans _ _ _ (IsTrans.trans _ _ _ hset (settles_happens .functionEntered _)) ?_
  have hleft : Respects Settles (do
      happens .functionLeft
      modifyState fun state => { state with positional := world.state.positional } :
        Sh ω D P Unit) :=
    Respects.bind_intro (settles_happens _) fun _ => settles_modifyState _
  exact settles_withDepths
    (fun depths => { depths with loops := 0, functions := depths.functions + 1 })
    (fun depths =>
      { depths with loops := world.outside.depths.loops, functions := depths.functions - 1 })
    (Respects.ensuring_intro (settles_catchReturn hm) hleft) rfl

theorem settles_inDotScript {m : Sh ω D P Int} (hm : Respects Settles m) :
    Respects Settles (inDotScript m) := fun _ => settles_withDepths _ _ (settles_catchReturn hm) rfl

theorem exec_withStartInsteadOfWait (stage : Option Nat) (m : Sh ω D P α)
    (world : World (Members ω D P)) :
    exec (withStartInsteadOfWait stage m) world =
      let ended := exec m ⟨world.state, { world.outside with startInsteadOfWait := stage }⟩
      (ended.1, ⟨ended.2.state,
        { ended.2.outside with startInsteadOfWait := world.outside.startInsteadOfWait }⟩) := by
  have hmembers : exec (getMembers : Sh ω D P (Members ω D P)) world = (.ok world.outside, world) :=
    rfl
  have hset (f : Members ω D P → Members ω D P) (world : World (Members ω D P)) :
      exec (modifyMembers f) world = (.ok (), ⟨world.state, f world.outside⟩) := rfl
  rw [withStartInsteadOfWait, exec_bind_ok hmembers, exec_bind_ok (hset _ _),
    exec_ensuring _ _ (hset _ _)]

theorem settles_withStartInsteadOfWait (stage : Option Nat) {m : Sh ω D P α}
    (hm : Respects Settles m) : Respects Settles (withStartInsteadOfWait stage m) := by
  intro world
  set entered : World (Members ω D P) :=
    { world with outside := { world.outside with startInsteadOfWait := stage } }
  have hbody := hm entered
  rw [exec_withStartInsteadOfWait]
  exact
    { depths := hbody.depths
      startInsteadOfWait := rfl
      keepRedirections := hbody.keepRedirections
      named := hbody.named
      free := fun fd hfree =>
        .of_same (exec m entered).2 rfl rfl
          (hbody.free fd (.of_same world rfl rfl hfree)) }

/-! ## Redirections -/

section

variable (machine : Machine ω D P)

theorem redirectionFrame_of_files {related : World (Members ω D P) → World (Members ω D P) → Prop}
    [Std.Refl related] [IsTrans (World (Members ω D P)) related]
    (hfiles : ∀ world state files, related world ⟨state, world.outside.putFiles files⟩) :
    RedirectionFrame (shellFiles machine) fun {_} (m : Sh ω D P _) => Respects related m := by
  have hstate {α : Type} {m : Sh ω D P α} (hm : KeepsOutside m) : Respects related m := by
    intro world
    have hsame := hfiles world (exec m world).2.state world.outside.files
    have hworld : (exec m world).2 = ⟨(exec m world).2.state, world.outside⟩ := by
      rw [← show (exec m world).2.outside = world.outside from hm world]
    rw [hworld]
    exact hsame
  exact
    { toCompositional := Respects.compositional
      get := Respects.get_intro
      raise := fun _ => Respects.throw_intro _
      arithmetic := fun expression => hstate (keeps_arithmeticValue expression)
      assign := fun name value => hstate (keeps_assignDefault name value)
      outOfFuel := Respects.throw_intro _
      openFile := fun _ _ => Respects.modifyGet_intro fun _ => hfiles _ _ _
      addDescriptor := fun _ => Respects.modifyGet_intro fun _ => hfiles _ _ _
      dup2 := fun _ _ => Respects.modifyGet_intro fun _ => hfiles _ _ _
      closeDescriptor := fun _ => Respects.modifyGet_intro fun _ => hfiles _ _ _
      createPipe := fun _ => Respects.modifyGet_intro fun _ => hfiles _ _ _
      write := fun _ _ => Respects.modifyGet_intro fun _ => hfiles _ _ _
      undoneOnFailure := fun _ hm hrestore => Respects.tryCatch_intro hm fun _ =>
        Respects.bind_intro hrestore fun _ => Respects.throw_intro _ }

theorem redirectionFrame_keepsMarks :
    RedirectionFrame (shellFiles machine) fun {_} (m : Sh ω D P _) =>
      Respects KeepsMarks m :=
  redirectionFrame_of_files machine fun _ _ _ => ⟨rfl, rfl, id, fun _ => id⟩

abbrev NamesSlot (fd : Nat) (members : Members ω D P) : Prop := fd ∈ members.named

theorem redirectionFrame_namesSlot (fd : Nat) :
    RedirectionFrame (shellFiles machine) fun {_} (m : Sh ω D P _) =>
      StaysDoomed (NamesSlot fd) m where
  toExpansionFrame := expansionFrame_of_outside (fun _ _ hsame h => hsame ▸ h) fun _ => id
  outOfFuel := Triple.throw_intro fun _ => id
  openFile _ _ := Triple.modifyGet_intro fun _ => id
  addDescriptor _ := Triple.modifyGet_intro fun _ => id
  dup2 _ _ := Triple.modifyGet_intro fun _ => id
  closeDescriptor _ := Triple.modifyGet_intro fun _ => id
  createPipe _ := Triple.modifyGet_intro fun _ => id
  write _ _ := Triple.modifyGet_intro fun _ => id
  undoneOnFailure _ hm hrestore := Triple.tryCatch_intro _ hm fun _ =>
    Triple.bind_intro hrestore fun _ => Triple.throw_intro fun _ => id

structure LeavesFree (fd : Nat) (saved : SavedSlots D) (world : World (Members ω D P)) : Prop where
  isFree : IsFree tableOf fd world
  saved : ∀ slot ∈ saved, slot.1 ≠ fd

theorem leavesFree_invariant (fd : Nat) :
    ScopeInvariant (tableOf (ω := ω) (P := P) (D := D)) (· = fd) (LeavesFree fd) where
  isFree h := ⟨fd, rfl, h.isFree⟩
  same hslots h := ⟨h.isFree.of_slots hslots, h.saved⟩
  save hne h := ⟨h.isFree, List.forall_mem_cons.mpr ⟨hne, h.saved⟩⟩
  change hne _ hslots h :=
    ⟨⟨h.isFree.lt, by rw [hslots, putSlot_of_ne (Ne.symm hne), h.isFree.empty]⟩, h.saved⟩
  undone hslots h :=
    ⟨⟨h.isFree.lt, by rw [hslots, undo_of_ne h.saved, h.isFree.empty]⟩, nofun⟩
  saved h := h.saved

theorem keepsUnless_of_settles {m : Sh ω D P α} (hm : Respects Settles m) (fd : Nat)
    (saved : SavedSlots D) :
    KeepsUnless (NamesSlot fd) (LeavesFree fd saved) (LeavesFree fd saved) m
      fun _ => LeavesFree fd saved := by
  have hsettles (world world' : World (Members ω D P))
      (h : LeavesFree fd saved world ∨ fd ∈ world.outside.named) (hstep : Settles world world') :
      LeavesFree fd saved world' ∨ fd ∈ world'.outside.named := by
    rcases h with h | h
    · exact (hstep.free fd (.inl h.isFree)).imp_left fun hfree => ⟨hfree, h.saved⟩
    · exact .inr (hstep.named fd h)
  exact hm.triple (fun _ _ _ => hsettles _ _) fun _ _ _ => hsettles _ _

variable {host : Host (Members ω D P)}
  (hhost : ∀ source line, Respects Settles (commandSubstitution host source line))

include hhost

theorem keepsMarks_redirectionScope (redirections : List (Redirection HereDocument))
    {failed : Text → Sh ω D P Int} {body : Sh ω D P (Int × Bool)}
    (hfailed : ∀ error, Respects KeepsMarks (failed error)) (hbody : Respects KeepsMarks body) :
    Respects KeepsMarks (redirectionScope machine host redirections failed body) := by
  have hframe := redirectionFrame_keepsMarks machine
  refine Respects.bind_intro (hframe.applyRedirections redirections
    (fun _ source line world => (hhost source line world).toKeepsMarks) []) fun applied => ?_
  split
  · exact hfailed _
  · refine Respects.bind_intro (Respects.attempt_intro hbody) fun ended => ?_
    split
    · exact Respects.pure_intro _
    · exact Respects.bind_intro (hframe.restoreSlots _) fun _ => Respects.pure_intro _
    · exact Respects.bind_intro (hframe.restoreSlots _) fun _ => Respects.throw_intro _

theorem leavesFree_redirectionScope {redirections : List (Redirection HereDocument)} {fd : Nat}
    (hfd : fd ∉ redirections.flatMap namedSlots)
    {failed : Text → Sh ω D P Int} {body : Sh ω D P (Int × Bool)}
    (hfailed : ∀ error, Respects Settles (failed error)) (hbody : Respects Settles body) :
    KeepsUnless (NamesSlot fd) (LeavesFree fd []) (LeavesFree fd [])
      (redirectionScope machine host redirections failed body) fun _ => LeavesFree fd [] := by
  have hJ := leavesFree_invariant (ω := ω) (P := P) (D := D) fd
  have hdoom := redirectionFrame_namesSlot machine fd
  have hrestore (saved : SavedSlots D) :=
    restoreSlots_keepsUnless (system_usesTable machine) hJ hdoom saved
  refine Triple.bind_intro (applyRedirections_triple (system_usesTable machine) hJ hdoom
    (fun saved source line => keepsUnless_of_settles (hhost source line) fd saved)
    (fun source line => (hhost source line).triple (fun _ _ _ h hstep => hstep.named fd h)
      fun _ _ _ h hstep => hstep.named fd h) redirections
    (fun redirection hin other hother heq =>
      hfd (List.mem_flatMap.mpr ⟨redirection, hin, heq ▸ hother⟩)) []) fun applied => ?_
  obtain ⟨_ | error, saved⟩ := applied
  · refine Triple.bind_intro ((keepsUnless_of_settles hbody fd saved).attempt_intro.consequence
      (fun _ h => h.imp_left And.left) (fun _ _ => id) fun _ _ => id) fun ended => ?_
    rcases ended with failure | ⟨status, _ | _⟩
    · exact Triple.bind_intro (hrestore saved) fun _ => Triple.throw_intro fun _ => id
    · exact Triple.bind_intro (hrestore saved) fun _ => Triple.pure_intro fun _ => id
    · exact Triple.pure_intro fun _ h => h.imp_left fun h => ⟨h.isFree, nofun⟩
  · exact (keepsUnless_of_settles (hfailed error) fd []).consequence
      (fun _ h => h.imp_left fun h => ⟨h.1.isFree, nofun⟩) (fun _ _ => id) fun _ _ => id

theorem settles_redirected (redirections : List (Redirection HereDocument))
    {failed : Text → Sh ω D P Int} {body : Sh ω D P (Int × Bool)}
    (hfailed : ∀ error, Respects Settles (failed error)) (hbody : Respects Settles body) :
    Respects Settles (redirected machine host redirections failed body) := by
  intro world
  set named : World (Members ω D P) :=
    { world with
      outside :=
        { world.outside with named := redirections.flatMap namedSlots ++ world.outside.named } }
  have hmarks := keepsMarks_redirectionScope machine hhost redirections
    (fun error world => (hfailed error world).toKeepsMarks)
    (fun world => (hbody world).toKeepsMarks) named
  refine ⟨IsTrans.trans _ named _ ⟨rfl, rfl, id, fun _ hfd => List.mem_append_right _ hfd⟩ hmarks,
    fun fd hworld => ?_⟩
  by_cases hfd : fd ∈ redirections.flatMap namedSlots
  · exact .inr (hmarks.named fd (List.mem_append_left _ hfd))
  · have hstart : LeavesFree fd [] named ∨ fd ∈ named.outside.named :=
      hworld.imp (fun hfree => ⟨⟨hfree.lt, hfree.empty⟩, nofun⟩) fun hin => List.mem_append_right _ hin
    have hended := leavesFree_redirectionScope machine hhost hfd hfailed hbody named hstart
    have hrun : exec (redirected machine host redirections failed body) world =
        exec (redirectionScope machine host redirections failed body) named := rfl
    rw [hrun]
    rcases hscope : exec (redirectionScope machine host redirections failed body) named
      with ⟨_ | _, _⟩ <;> rw [hscope] at hended
    · exact hended.imp_left LeavesFree.isFree
    · exact hended.imp_left LeavesFree.isFree

end

/-! ## Builtins that jump -/

section

variable {related : World (Members ω D P) → World (Members ω D P) → Prop} [Std.Refl related]
  [IsTrans (World (Members ω D P)) related]
  (hquiet : ∀ {α : Type} {m : Sh ω D P α}, Quiet m → Respects related m)

include hquiet

theorem respects_builtinBreakContinue (isBreak : Bool) (arguments : List Text) :
    Respects related (builtinBreakContinue isBreak arguments : Sh ω D P Int) := by
  have hjump (levels : Nat) : Respects related (do
      let depths := (← getMembers).depths
      if depths.loops = 0 then pure 0
      else throw (.loopControl isBreak (min levels depths.loops)) : Sh ω D P Int) := by
    refine Respects.bind_intro (hquiet Quiet.getMembers) fun members => ?_
    dsimp only
    split
    · exact Respects.pure_intro _
    · exact Respects.throw_intro _
  rw [builtinBreakContinue.eq_def]
  dsimp only
  split
  · exact hjump 1
  · split
    · exact Respects.bind_intro (hquiet (Quiet.fail _)) hjump
    · exact hjump _

theorem respects_builtinReturn (arguments : List Text) :
    Respects related (builtinReturn arguments : Sh ω D P Int) := by
  refine Respects.bind_intro (hquiet (Quiet.statusArgument _ _)) fun status => ?_
  refine Respects.bind_intro (hquiet Quiet.getMembers) fun members => ?_
  dsimp only
  split
  · exact Respects.throw_intro _
  · exact Respects.throw_intro _

end

/-! ## `exec` and the mark to keep the redirections -/

def unmarked (world : World (Members ω D P)) : World (Members ω D P) :=
  { world with outside := { world.outside with keepRedirections := false } }

structure Marks (m : Sh ω D P Int) : Prop where
  settles : ∀ world, Settles world (unmarked (exec m world).2)
  fails : ∀ world failure, (exec m world).1 = .error failure → Settles world (exec m world).2

theorem settles_unmarked (world : World (Members ω D P)) : Settles world (unmarked world) where
  depths := rfl
  startInsteadOfWait := rfl
  keepRedirections _ := rfl
  named _ := id
  free _ h := h.of_same world rfl rfl

theorem Marks.of_settles {m : Sh ω D P Int} (hm : Respects Settles m) : Marks m where
  settles world := IsTrans.trans _ _ _ (hm world) (settles_unmarked _)
  fails world _ _ := hm world

theorem Marks.after {α : Type} {m : Sh ω D P α} {f : α → Sh ω D P Int} {a : α}
    (hf : Marks (f a)) (hm : Respects Settles m)
    (hreturns : ∀ world, (exec m world).1 = .ok a) : Marks (m >>= f) := by
  have hrun (world : World (Members ω D P)) :
      exec (m >>= f) world = exec (f a) (exec m world).2 :=
    exec_bind_ok (Prod.ext (hreturns world) rfl)
  constructor
  · intro world
    rw [hrun]
    exact IsTrans.trans _ _ _ (hm world) (hf.settles _)
  · intro world failure hended
    rw [hrun] at hended ⊢
    exact IsTrans.trans _ _ _ (hm world) (hf.fails _ failure hended)

theorem settles_taken {m : Sh ω D P Int} {f : Int → Bool → Sh ω D P α} (hm : Marks m)
    (hf : ∀ status keep, Respects Settles (f status keep)) :
    Respects Settles (do
      let status ← m
      let keep ← takeKeepRedirections
      f status keep) := by
  intro world
  have hsettles := hm.settles world
  rcases hrun : exec m world with ⟨failure | status, ended⟩
  · have hfails := hm.fails world failure (by rw [hrun])
    rw [hrun] at hfails
    rw [exec_bind_error hrun]
    exact hfails
  · rw [hrun] at hsettles
    rw [exec_bind_ok hrun]
    exact IsTrans.trans _ _ _ hsettles (hf status ended.outside.keepRedirections _)

variable [DecidableEq P]

theorem builtinExec_cases (machine : Machine ω D P) (arguments : List Text) :
    builtinExec machine arguments = (do
        modifyMembers fun members => { members with keepRedirections := true }
        pure 0) ∨
      Quiet (builtinExec machine arguments) := by
  have hexits {message : Text} {status : Int} : Quiet (do
      report machine message
      throw (.exit status) : Sh ω D P Int) :=
    (Quiet.report machine message).bind fun _ => .throw trivial
  rw [builtinExec.eq_def]
  split
  · exact .inl rfl
  · refine .inr (Quiet.getState.bind fun state => (Quiet.look _).bind fun found => ?_)
    split
    · exact hexits
    · exact hexits
    · refine (Quiet.startChild machine _ _ _).bind fun child => ?_
      split
      · exact hexits
      · exact (Quiet.waitForChild machine _).bind fun status =>
          .throw (show IsOrdinary (.exit status) from trivial)

theorem marks_builtinExec (machine : Machine ω D P) (arguments : List Text) :
    Marks (builtinExec machine arguments) := by
  rcases builtinExec_cases machine arguments with hasks | hquiet
  · rw [hasks]
    exact
      { settles := fun world =>
          { depths := rfl
            startInsteadOfWait := rfl
            keepRedirections := fun _ => rfl
            named := fun _ => id
            free := fun _ h => h.of_same world rfl rfl }
        fails := by
          intro _ failure h
          cases (show (Except.ok 0 : Except Failure Int) = .error failure from h) }
  · exact .of_settles hquiet.settles

/-! ## The scope of a subshell -/

def withEvent (event : ControlEvent) (world : World (Members ω D P)) : World (Members ω D P) :=
  { world with outside := { world.outside with events := event :: world.outside.events } }

omit [DecidableEq P] in
theorem exec_happens (event : ControlEvent) (world : World (Members ω D P)) :
    exec (happens event) world = (.ok (), withEvent event world) := rfl

omit [DecidableEq P] in
theorem exec_modifyDepths (f : Depths → Depths) (world : World (Members ω D P)) :
    exec (modifyDepths f) world = (.ok (), { world with
      outside := { world.outside with depths := f world.outside.depths } }) := rfl

/-- The world a subshell's body starts in. -/
def subshellWorld (world : World (Members ω D P)) : World (Members ω D P) :=
  { world with
    outside :=
      { world.outside with
        events := .subshellEntered :: world.outside.events
        depths := { world.outside.depths with subshells := world.outside.depths.subshells + 1 } } }

def leftMembers (before now : Members ω D P) : Members ω D P :=
  { (addedChildren before.jobs now.jobs).foldl (fun now child => forgetLiveChild child now) now with
    jobs := before.jobs
    functions := before.functions
    depths := { before.depths with subshells := now.depths.subshells - 1 } }

theorem forgetLiveChildren_eq (children : List P) (members : Members ω D P) :
    ∃ liveChildren,
      children.foldl (fun members child => forgetLiveChild child members) members =
        { members with liveChildren } := by
  induction children generalizing members with
  | nil => exact ⟨members.liveChildren, rfl⟩
  | cons child children ih =>
      obtain ⟨liveChildren, h⟩ := ih (forgetLiveChild child members)
      exact ⟨liveChildren, h⟩

theorem leftMembers_eq (before now : Members ω D P) :
    ∃ liveChildren, leftMembers before now =
      { now with
        liveChildren
        jobs := before.jobs
        functions := before.functions
        depths := { before.depths with subshells := now.depths.subshells - 1 } } := by
  obtain ⟨liveChildren, h⟩ := forgetLiveChildren_eq (addedChildren before.jobs now.jobs) now
  exact ⟨liveChildren, by rw [leftMembers, h]⟩

variable [DecidableEq D]

def SameButTable (world world' : World (Members ω D P)) : Prop :=
  ∃ descriptors, world' =
    ⟨world.state, world.outside.putFiles { world.outside.files with descriptors }⟩

omit [DecidableEq D] [DecidableEq P] in
instance : @Std.Refl (World (Members ω D P)) SameButTable := ⟨fun _ => ⟨_, rfl⟩⟩

omit [DecidableEq D] [DecidableEq P] in
instance : IsTrans (World (Members ω D P)) SameButTable :=
  ⟨fun _ _ _ h h' => by
    obtain ⟨_, rfl⟩ := h
    obtain ⟨descriptors, rfl⟩ := h'
    exact ⟨descriptors, rfl⟩⟩

omit [DecidableEq D] [DecidableEq P] in
theorem sameButTable_placeDescriptor (machine : Machine ω D P) (fd : Nat)
    (descriptor : Option D) :
    Respects SameButTable (placeDescriptor (shellFiles machine) fd descriptor : Sh ω D P Bool) :=
  respects_placeDescriptor (fun _ => Respects.modifyGet_intro fun _ => ⟨_, rfl⟩)
    (fun _ _ => Respects.modifyGet_intro fun _ => ⟨_, rfl⟩)
    (fun _ => Respects.modifyGet_intro fun _ => ⟨_, rfl⟩) fd descriptor

omit [DecidableEq P] in
theorem sameButTable_putBack (machine : Machine ω D P) (slots : List (Nat × Option D)) :
    Respects SameButTable (putBack (shellFiles machine) slots : Sh ω D P Unit) :=
  respects_putBack (fun _ => Respects.modifyGet_intro fun _ => ⟨_, rfl⟩)
    (fun _ _ => Respects.modifyGet_intro fun _ => ⟨_, rfl⟩)
    (fun _ => Respects.modifyGet_intro fun _ => ⟨_, rfl⟩) slots

/-- The destructor of `SubshellScope` always comes to its end. -/
theorem exec_leaveSubshell (machine : Machine ω D P) (before now : World (Members ω D P)) :
    ∃ files, exec (leaveSubshell machine before) now =
        (.ok ⟨⟩, ⟨before.state, (leftMembers before.outside now.outside).putFiles files⟩) ∧
      (∀ fd, IsFree tableOf fd before → files.descriptors.getDescriptor fd = none) ∧
      (∀ fd, IsFree tableOf fd before → IsFree tableOf fd now ∨ fd = 0 →
        files.descriptors.getDescriptor = (tableOf before.outside).getDescriptor) ∧
      ((∀ fd < kMaxDescriptors, slotsOf tableOf now fd ≠ none) → slotsOf tableOf before 0 ≠ none →
        files.descriptors.getDescriptor 0 = slotsOf tableOf now 0) ∧
      (machine.stat before.outside.files.workingDirectory.1 now.outside.files.outside = some .dir →
        files.workingDirectory = before.outside.files.workingDirectory) ∧
      ∀ fd, files.descriptors.getDescriptor fd = slotsOf tableOf now fd ∨
        files.descriptors.getDescriptor fd = slotsOf tableOf before fd := by
  set changed : World (Members ω D P) :=
    ⟨before.state, (system machine).changeDirectory before.outside.files.workingDirectory.1
      (leftMembers before.outside now.outside)⟩ with hchanged
  have hrun : exec (leaveSubshell machine before) now =
      exec (putBack (shellFiles machine) (slotsHeld (tableOf before.outside).getDescriptor))
        changed := by
    rw [leaveSubshell]
    refine (exec_bind_ok (show exec _ now =
      (.ok (), ⟨now.state, leftMembers before.outside now.outside⟩) from rfl)).trans ?_
    exact exec_restoreSubshell _ _ _ _ _
  have hio := system_usesTable machine
  obtain ⟨liveChildren, hleft⟩ := leftMembers_eq before.outside now.outside
  have hfiles : (leftMembers before.outside now.outside).files = now.outside.files := by rw [hleft]
  have hslots : slotsOf tableOf changed = slotsOf tableOf now :=
    (congrArg DescriptorTable.getDescriptor (hio.changeDirectory _ _)).trans
      (congrArg (fun files => files.descriptors.getDescriptor) hfiles)
  obtain ⟨outside, hput⟩ := putBack_returns (shellFiles machine)
    (slotsHeld (tableOf before.outside).getDescriptor) changed
  obtain ⟨descriptors, hdescriptors⟩ := sameButTable_putBack machine
    (slotsHeld (tableOf before.outside).getDescriptor) changed
  rw [hput] at hdescriptors
  have hworld : ({ changed with outside } : World (Members ω D P)) = _ := hdescriptors
  refine ⟨{ changed.outside.files with descriptors }, ?_, fun fd hfree => ?_,
    fun fd hfree hnow => ?_, fun hfull hheld => ?_, fun hstat => ?_, fun fd => ?_⟩
  · rw [hrun, hput, hworld]
    rfl
  · have hnone : ∀ slot ∈ slotsHeld (tableOf before.outside).getDescriptor,
        slot.1 = fd → slot.2 = none := by
      intro slot hslot heq
      obtain ⟨other, -, rfl⟩ := List.mem_map.mp hslot
      obtain rfl : other = fd := heq
      exact hfree.empty
    have hagain := isFree_putBack hio hfree.lt changed hnone
      (.inr ⟨(fd, _), List.mem_map.mpr ⟨fd, List.mem_range.mpr hfree.lt, rfl⟩, rfl⟩)
    rw [hput, hworld] at hagain
    exact hagain.empty
  · obtain ⟨outside', hput', hheld⟩ := exec_putBack_slotsHeld hio hfree.lt hfree.empty
      (fun _ => DescriptorTable.getDescriptor_of_le) changed
      (hnow.imp_left (IsFree.of_slots hslots))
    obtain rfl : outside = outside' := congrArg (fun run => run.2.outside) (hput.symm.trans hput')
    rw [hworld] at hheld
    exact hheld
  · have hstays := slotsOf_putBack_of_full hio changed
      (tableOf before.outside).getDescriptor (by rw [hslots]; exact hfull) hheld
    rw [hput, hworld, hslots] at hstays
    exact hstays
  · have hdirectory : (leftMembers before.outside now.outside).files.directoryAt
        machine.toRootFileSystem before.outside.files.workingDirectory.1 =
          some before.outside.files.workingDirectory := by
      rw [ProcessFiles.directoryAt, NormalizedPath.normalize_self, hfiles]
      exact if_pos (.inr hstat)
    change ((leftMembers before.outside now.outside).files.changeDirectory
      machine.toRootFileSystem before.outside.files.workingDirectory.1).workingDirectory = _
    rw [ProcessFiles.changeDirectory, hdirectory]
  · have hgiven : ∀ slot ∈ slotsHeld (tableOf before.outside).getDescriptor,
        slot.2 = slotsOf tableOf before slot.1 := by
      intro slot hslot
      obtain ⟨other, -, rfl⟩ := List.mem_map.mp hslot
      rfl
    have hends := slotsOf_putBack_or hio (slotsOf tableOf before) fd changed hgiven
    rw [hput, hworld, hslots] at hends
    exact hends

/-! ## Writing -/

/-- Only the outside is another, and whether the shell's output pipe is broken. -/
def OnlyWrites (world world' : World (Members ω D P)) : Prop :=
  ∃ outside brokenPipe, world' =
    ⟨world.state,
      { world.outside with files := { world.outside.files with outside }, brokenPipe }⟩

omit [DecidableEq D] [DecidableEq P] in
instance : @Std.Refl (World (Members ω D P)) OnlyWrites := ⟨fun _ => ⟨_, _, rfl⟩⟩

omit [DecidableEq D] [DecidableEq P] in
instance : IsTrans (World (Members ω D P)) OnlyWrites :=
  ⟨fun _ _ _ h h' => by
    obtain ⟨_, _, rfl⟩ := h
    obtain ⟨outside, brokenPipe, rfl⟩ := h'
    exact ⟨outside, brokenPipe, rfl⟩⟩

section

variable (machine : Machine ω D P)

omit [DecidableEq D] [DecidableEq P] in
theorem onlyWrites_writeLoop (descriptor : D) :
    ∀ fuel output, Respects OnlyWrites (writeLoop (P := P) machine descriptor fuel output)
  | 0, output => by
      rw [writeLoop]
      split
      · exact Respects.pure_intro _
      · exact Respects.throw_intro _
  | fuel + 1, output => by
      rw [writeLoop]
      split
      · exact Respects.pure_intro _
      · refine Respects.bind_intro (Respects.modifyGet_intro fun _ => ⟨_, _, rfl⟩) fun result => ?_
        split
        · have hstop : Respects OnlyWrites (do
              perform (Members.onOutside fun outside => ((), machine.stopForBrokenPipe outside))
              modifyMembers fun members => { members with brokenPipe := true }
              throw .stopped : Sh ω D P Unit) := by
            refine Respects.bind_intro (Respects.modifyGet_intro fun _ => ⟨_, _, rfl⟩) fun _ => ?_
            exact Respects.bind_intro (Respects.modifyGet_intro fun _ => ⟨_, _, rfl⟩) fun _ =>
              Respects.throw_intro _
          refine Respects.bind_intro (Respects.bind_intro Respects.get_intro fun _ =>
            Respects.pure_intro _) fun members => ?_
          dsimp only
          split
          · exact Respects.bind_intro (Respects.throw_intro _) fun _ => hstop
          · exact hstop
        · exact Respects.throw_intro _
        · exact Respects.pure_intro _
        · exact onlyWrites_writeLoop descriptor fuel _

omit [DecidableEq D] [DecidableEq P] in
theorem onlyWrites_reportError (error : ShellError) :
    Respects OnlyWrites (reportError machine error) := by
  have hget : Respects OnlyWrites (getMembers : Sh ω D P _) :=
    Respects.bind_intro Respects.get_intro fun _ => Respects.pure_intro _
  refine Respects.bind_intro hget fun _ => Respects.bind_intro
    (Respects.bind_intro Respects.get_intro fun _ => Respects.pure_intro _) fun _ => ?_
  refine Respects.bind_intro (Respects.bind_intro Respects.get_intro fun _ =>
    Respects.pure_intro _) fun descriptor => Respects.bind_intro hget fun members => ?_
  split
  · split
    · exact Respects.pure_intro _
    · exact onlyWrites_writeLoop machine _ _ _
  · exact Respects.pure_intro _

omit [DecidableEq D] [DecidableEq P] in
theorem onlyWrites_subshellStatus (ended : Except Failure Int) :
    Respects OnlyWrites (subshellStatus machine ended) := by
  rw [subshellStatus.eq_def]
  split
  · exact Respects.pure_intro _
  · exact Respects.pure_intro _
  · exact Respects.pure_intro _
  · exact Respects.pure_intro _
  · exact Respects.bind_intro (onlyWrites_reportError machine _) fun _ => Respects.pure_intro _
  · exact Respects.throw_intro _

end

/-! ## `RunSubshell` -/

section

variable (machine : Machine ω D P)

theorem exec_runSubshell (body : Sh ω D P Int) (world : World (Members ω D P)) :
    ∃ files liveChildren brokenPipe,
      (exec (runSubshell machine body) world).2 =
        ⟨world.state,
          { (exec body (subshellWorld world)).2.outside with
            files
            liveChildren
            brokenPipe
            jobs := world.outside.jobs
            functions := world.outside.functions
            depths :=
              { world.outside.depths with
                subshells := (exec body (subshellWorld world)).2.outside.depths.subshells - 1 }
            events := .subshellLeft :: (exec body (subshellWorld world)).2.outside.events }⟩ ∧
      (∀ fd, IsFree tableOf fd world → files.descriptors.getDescriptor fd = none) ∧
      (∀ fd, IsFree tableOf fd world →
        IsFree tableOf fd (exec body (subshellWorld world)).2 ∨ fd = 0 →
        files.descriptors.getDescriptor = (tableOf world.outside).getDescriptor) ∧
      ((∀ fd < kMaxDescriptors,
          slotsOf tableOf (exec body (subshellWorld world)).2 fd ≠ none) →
        slotsOf tableOf world 0 ≠ none →
        files.descriptors.getDescriptor 0 =
          slotsOf tableOf (exec body (subshellWorld world)).2 0) ∧
      (machine.stat world.outside.files.workingDirectory.1
          (exec body (subshellWorld world)).2.outside.files.outside = some .dir →
        files.workingDirectory = world.outside.files.workingDirectory) ∧
      ∀ fd, files.descriptors.getDescriptor fd =
          slotsOf tableOf (exec body (subshellWorld world)).2 fd ∨
        files.descriptors.getDescriptor fd = slotsOf tableOf world fd := by
  obtain ⟨files, hleave, hfree, hslots, hfull, hdirectory⟩ :=
    exec_leaveSubshell machine world (exec body (subshellWorld world)).2
  obtain ⟨liveChildren, hleft⟩ :=
    leftMembers_eq world.outside (exec body (subshellWorld world)).2.outside
  set left : World (Members ω D P) :=
    ⟨world.state,
      { (leftMembers world.outside (exec body (subshellWorld world)).2.outside).putFiles files with
        events := .subshellLeft ::
          (leftMembers world.outside (exec body (subshellWorld world)).2.outside).events }⟩
  have hrun : exec (runSubshell machine body) world =
      exec (subshellStatus machine (exec body (subshellWorld world)).1) left := by
    rw [runSubshell, exec_bind_ok (exec_get world), exec_bind_ok (exec_happens _ _),
      exec_bind_ok (exec_modifyDepths _ _), exec_bind_ok (exec_attempt body _)]
    exact (exec_bind_ok hleave).trans (exec_bind_ok (exec_happens _ _))
  obtain ⟨outside, brokenPipe, hwrote⟩ :=
    onlyWrites_subshellStatus machine (exec body (subshellWorld world)).1 left
  refine ⟨{ files with outside }, liveChildren, brokenPipe, ?_, hfree, hslots, hfull, hdirectory⟩
  rw [hrun, hwrote]
  simp only [left, hleft, Members.putFiles]

theorem settles_runSubshell {body : Sh ω D P Int} (hbody : Respects KeepsMarks body) :
    Respects Settles (runSubshell machine body) := by
  intro world
  obtain ⟨files, liveChildren, brokenPipe, hrun, hfree, -, -, -⟩ := exec_runSubshell machine body world
  have hkeeps := hbody (subshellWorld world)
  have hsubshells : (exec body (subshellWorld world)).2.outside.depths.subshells - 1 =
      world.outside.depths.subshells := by
    rw [hkeeps.depths]
    rfl
  rw [hrun]
  exact
    { depths := by
        rw [hsubshells]
      startInsteadOfWait := hkeeps.startInsteadOfWait
      keepRedirections := hkeeps.keepRedirections
      named := hkeeps.named
      free := fun fd h => h.imp (fun h => ⟨h.lt, hfree fd h⟩) (hkeeps.named fd) }

/-! ## Background shells -/

omit [DecidableEq D] [DecidableEq P] in
theorem isFree_placeDescriptor {free fd : Nat} (hne : free ≠ fd) (descriptor : Option D)
    {failed : Failure → World (Members ω D P) → Prop} :
    Triple (IsFree tableOf free) (placeDescriptor (shellFiles machine) fd descriptor)
      (fun _ => IsFree tableOf free) failed := by
  intro world hfree
  obtain ⟨outside, hrun, hslots⟩ :=
    exec_placeDescriptor (system_usesTable machine) hfree fd descriptor
  rw [hrun]
  exact ⟨hfree.lt, by rw [hslots, putSlot_of_ne hne, hfree.empty]⟩

omit [DecidableEq D] [DecidableEq P] in
theorem isFree_closed {free : Nat} (hlt : free < kMaxDescriptors)
    {failed : Failure → World (Members ω D P) → Prop} :
    Triple (fun _ => True) (placeDescriptor (shellFiles machine) free none)
      (fun _ => IsFree tableOf free) failed := by
  intro world _
  refine ⟨hlt, ?_⟩
  have hslots := slotsOf_close (system_usesTable machine) world free
  exact (congrFun hslots free).trans (Function.update_self _ _ _)

omit [DecidableEq D] [DecidableEq P] in
theorem startChild_returns (path : Text) (arguments : List Text)
    (assignments : List (Text × Text)) (world : World (Members ω D P)) :
    ∃ child, (exec (startChild machine path arguments assignments) world).1 = .ok child := by
  rw [startChild, exec_bind, exec_getState]
  dsimp only
  rw [exec_bind, exec_perform]
  dsimp only
  split
  · exact ⟨_, rfl⟩
  · exact ⟨_, rfl⟩

omit [DecidableEq D] [DecidableEq P] in
theorem Quiet.keepsFree {m : Sh ω D P α} (hm : Quiet m) (free : Nat) :
    Triple (IsFree tableOf free) m (fun _ => IsFree tableOf free)
      fun _ => IsFree tableOf free :=
  Respects.triple (show Respects QuietStep m from fun world => (hm world).step)
    (fun _ _ _ hfree hstep => hfree.of_slots (congrArg Frame.slots hstep.frame))
    fun _ _ _ hfree hstep => hfree.of_slots (congrArg Frame.slots hstep.frame)

omit [DecidableEq D] in
/-- Slot 0 is given back what it held, which is nothing if it was free. -/
theorem isFree_startBackgroundShell (sourceText : Text) (free : Nat) :
    Triple (IsFree tableOf free) (startBackgroundShell machine sourceText)
      (fun _ => IsFree tableOf free) fun _ => IsFree tableOf free := by
  refine Triple.bind_intro (Quiet.getState.keepsFree free) fun state => ?_
  refine Triple.bind_intro (Quiet.getMembers.keepsFree free) fun members => ?_
  refine Triple.bind_intro (Q := fun keptIn world =>
    IsFree tableOf free world ∧ (free = 0 → keptIn = none)) ?_ fun keptIn => ?_
  · rintro world hfree
    refine ⟨hfree, ?_⟩
    rintro rfl
    exact hfree.empty
  by_cases hzero : free = standardInput
  · -- The null input is put where nothing was, and is closed again.
    subst hzero
    refine Triple.of_pre fun world hworld => ?_
    obtain rfl : keptIn = none := hworld.2 rfl
    refine Triple.bind_intro (Q := fun _ _ => True) (Triple.of_returns fun _ => ⟨_, rfl⟩)
      fun nullInput => ?_
    refine Triple.bind_intro (Q := fun _ _ => True) (Triple.of_returns fun world => ?_)
      fun placed => ?_
    · obtain ⟨placed, _, hrun⟩ := placeDescriptor_returns (shellFiles machine) standardInput
        (some nullInput) world
      exact ⟨placed, by rw [hrun]⟩
    refine Triple.bind_intro (Q := fun _ _ => True)
      (Triple.of_returns (startChild_returns machine _ _ _)) fun child => ?_
    refine Triple.bind_intro (isFree_closed machine hworld.1.lt) fun _ => ?_
    cases child with
    | none => exact (Quiet.reportThen machine _ _).keepsFree _
    | some child => exact ((Quiet.recordJob machine _).bind fun _ => Quiet.pure _).keepsFree _
  · refine Triple.bind_intro ((Quiet.onOutside _).keepsFree free |>.consequence
      (fun _ h => h.1) (fun _ _ => id) fun _ _ => id) fun nullInput => ?_
    refine Triple.bind_intro (isFree_placeDescriptor machine hzero _) fun placed => ?_
    refine Triple.bind_intro ((Quiet.startChild machine _ _ _).keepsFree free) fun child => ?_
    refine Triple.bind_intro (isFree_placeDescriptor machine hzero _) fun _ => ?_
    cases child with
    | none => exact (Quiet.reportThen machine _ _).keepsFree free
    | some child => exact ((Quiet.recordJob machine _).bind fun _ => Quiet.pure _).keepsFree free

omit [DecidableEq D] in
theorem settles_startBackgroundShell (sourceText : Text) :
    Respects Settles (startBackgroundShell machine sourceText) := by
  have hmarks : Respects KeepsMarks (startBackgroundShell machine sourceText) := by
    have hframe := redirectionFrame_keepsMarks machine
    have hquiet {α : Type} {m : Sh ω D P α} (hm : Quiet m) : Respects KeepsMarks m :=
      fun world => (hm.settles world).toKeepsMarks
    refine Respects.bind_intro (hquiet .getState) fun state => ?_
    refine Respects.bind_intro (hquiet .getMembers) fun members => ?_
    refine Respects.bind_intro (hquiet (.look _)) fun keptIn => ?_
    refine Respects.bind_intro (hquiet (.onOutside _)) fun nullInput => ?_
    refine Respects.bind_intro (hframe.placeDescriptor _ _) fun placed => ?_
    refine Respects.bind_intro (hquiet (.startChild machine _ _ _)) fun child => ?_
    refine Respects.bind_intro (hframe.placeDescriptor _ _) fun _ => ?_
    split
    · exact hquiet (.reportThen machine _ _)
    · exact hquiet ((Quiet.recordJob machine _).bind fun _ => Quiet.pure _)
  intro world
  refine ⟨hmarks world, fun fd h => h.imp (fun h => ?_) ((hmarks world).named fd)⟩
  have hended := isFree_startBackgroundShell machine sourceText fd world h
  rcases hrun : exec (startBackgroundShell machine sourceText) world with ⟨_ | _, _⟩ <;>
    rw [hrun] at hended
  · exact hended
  · exact hended

/-! ## Every execution -/

omit [DecidableEq D] [DecidableEq P] in
theorem Settles.of_outside {world world' ended : World (Members ω D P)}
    (h : Settles world world') (houtside : ended.outside = world'.outside) : Settles world ended :=
  IsTrans.trans _ _ _ h (.of_frame (congrArg Members.frame houtside))

theorem commandSubstitution_outside (parse : ParseText) (inner : Inner ω D P) (source : Text)
    (line : Nat) (world : World (Members ω D P)) :
    (exec (commandSubstitution (shellHost machine parse inner) source line) world).2.outside =
      (exec (runCommandSubstitution machine parse inner source line) world).2.outside := by
  rw [commandSubstitution, exec_bind_ok (exec_get world), shellHost]
  dsimp only
  rcases exec (runCommandSubstitution machine parse inner source line) world
    with ⟨failure | result, ended⟩
  · rfl
  · rfl

theorem settlesDiscipline :
    Discipline machine (fun {_} (m : Sh ω D P _) => Respects Settles m)
      (fun {_} (m : Sh ω D P _) => Respects KeepsMarks m) Marks fun _ m => Respects Settles m where
  toCompositional := Respects.compositional
  quiet := Quiet.settles
  commandStarted := settles_happens _
  counted := settles_modifyMembers fun _ => rfl
  builtinStarted _ _ _ _ := settles_happens _
  breaks _ isBreak arguments _ := Respects.bind_intro (settles_happens _) fun _ =>
    respects_builtinBreakContinue Quiet.settles isBreak arguments
  returns := respects_builtinReturn Quiet.settles
  marks := Marks.of_settles
  exec arguments := Marks.after (a := ⟨⟩) (marks_builtinExec machine arguments)
    (settles_happens _) fun _ => rfl
  taken := settles_taken
  tested := settles_inTestedContext
  startsInsteadOfWait stage hm := settles_withStartInsteadOfWait stage hm
  function positional hm := settles_inFunction positional hm
  dotScript := settles_inDotScript
  substitution hrun source line world :=
    (hrun source line world).of_outside
      (commandSubstitution_outside machine _ _ source line world)
  redirected redirections hhost hfailed hbody :=
    settles_redirected machine hhost redirections hfailed hbody
  body hm world := (hm world).toKeepsMarks
  bodyBind := Respects.bind_intro
  placed fd descriptor _ := (redirectionFrame_keepsMarks machine).placeDescriptor fd descriptor
  subshell := settles_runSubshell machine
  backgroundShell := settles_startBackgroundShell machine
  loop := settles_inLoop
  roundStarted _ hm := Respects.bind_intro (settles_happens _) fun _ => hm
  roundOver _ _ := Respects.pure_intro _
  roundFailed := Respects.throw_intro _
  roundBind hm := Respects.bind_intro hm.settles
  caught hm hstatus hcontrol := Respects.bind_intro (settles_catchLoopControl hm) fun ended => by
    cases ended with
    | status status => exact hstatus status
    | control isBreak => exact hcontrol isBreak

end

/-! ## What a subshell leaves -/

/-- The world when a subshell's body has ended. -/
def bodyEnded (body : Sh ω D P Int) (world : World (Members ω D P)) : World (Members ω D P) :=
  (exec body (subshellWorld world)).2

/-- What a subshell puts back: nothing that it did shows in the shell. -/
structure NoTrace (world world' : World (Members ω D P)) : Prop where
  state : world'.state = world.state
  functions : world'.outside.functions = world.outside.functions
  jobs : world'.outside.jobs = world.outside.jobs
  depths : world'.outside.depths = world.outside.depths
  startInsteadOfWait : world'.outside.startInsteadOfWait = world.outside.startInsteadOfWait
  keepRedirections : world.outside.keepRedirections = false →
    world'.outside.keepRedirections = false
  descriptors : (tableOf world'.outside).getDescriptor = (tableOf world.outside).getDescriptor

/-- The slots that `RunSubshell`'s caller fills for the body. -/
def SubshellBody.placed : SubshellBody D → List Nat
  | .list _ => []
  | .substitution _ _ => [standardOutput]
  | .stage _ _ _ _ => [standardInput, standardOutput]

section

variable (machine : Machine ω D P) (knowledge : Knowledge ω D) (parse : ParseText) (fuel : Nat)

theorem subshellBody_keepsMarks (body : SubshellBody D) :
    Respects KeepsMarks (body.run machine (executor machine knowledge parse fuel)) :=
  (settlesDiscipline machine).subshellBody ((settlesDiscipline machine).executor knowledge parse fuel) body

/-- A slot that is not filled for the body is free when the body ends. -/
theorem freeUnlessNamed_subshellBody (body : SubshellBody D) (world : World (Members ω D P))
    {fd : Nat} (hfree : IsFree tableOf fd world) (hplaced : fd ∉ body.placed) :
    FreeUnlessNamed fd (exec (body.run machine (executor machine knowledge parse fuel)) world).2 := by
  have hinner := (settlesDiscipline machine).executor knowledge parse fuel
  have hplace {fd' : Nat} (hne : fd ≠ fd') (descriptor : Option D) {world : World (Members ω D P)}
      (hfree : IsFree tableOf fd world) :
      ∃ placed outside, exec (placeDescriptor (shellFiles machine) fd' descriptor) world =
        (.ok placed, { world with outside }) ∧ IsFree tableOf fd { world with outside } := by
    obtain ⟨outside, hrun, hslots⟩ :=
      exec_placeDescriptor (system_usesTable machine) hfree fd' descriptor
    exact ⟨_, outside, hrun, hfree.lt, by rw [hslots, putSlot_of_ne hne, hfree.empty]⟩
  cases body with
  | list items => exact (hinner.list items world).free fd (.inl hfree)
  | substitution items writeEnd =>
      simp only [SubshellBody.placed, List.mem_singleton] at hplaced
      obtain ⟨_, outside, hrun, hstill⟩ := hplace hplaced (some writeEnd) hfree
      rw [SubshellBody.run, exec_bind_ok hrun]
      exact (hinner.list items _).free fd (.inl hstill)
  | stage command input output started =>
      simp only [SubshellBody.placed, List.mem_cons, List.not_mem_nil, or_false, not_or] at hplaced
      obtain ⟨_, outside, hrun, hstill⟩ := hplace hplaced.1 input hfree
      obtain ⟨_, outside', hrun', hstill'⟩ := hplace hplaced.2 output hstill
      rw [SubshellBody.run, exec_bind_ok hrun, exec_bind_ok hrun']
      exact (settles_withStartInsteadOfWait started (hinner.command command) _).free fd
        (.inl hstill')

/--
A subshell leaves no trace in the shell, whatever its body runs and however it ends, by
way of a free slot that no redirection names and that is not the standard output which
the body is given.  The working directory is put back if it is still there.
-/
theorem runSubshell_noTrace (body : SubshellBody D) (world : World (Members ω D P)) {fd : Nat}
    (hfree : IsFree tableOf fd world)
    (hnamed : fd ∉ (exec (runSubshell machine (body.run machine
      (executor machine knowledge parse fuel))) world).2.outside.named)
    (houtput : standardOutput ∈ body.placed → fd ≠ standardOutput) :
    NoTrace world (exec (runSubshell machine (body.run machine
        (executor machine knowledge parse fuel))) world).2 ∧
      (machine.stat world.outside.files.workingDirectory.1
          (bodyEnded (body.run machine (executor machine knowledge parse fuel))
            world).outside.files.outside = some .dir →
        (exec (runSubshell machine (body.run machine
          (executor machine knowledge parse fuel))) world).2.outside.files.workingDirectory =
            world.outside.files.workingDirectory) := by
  have hmarks := subshellBody_keepsMarks machine knowledge parse fuel body
  have hsettles := settles_runSubshell machine hmarks world
  obtain ⟨files, liveChildren, brokenPipe, hrun, -, hslots, -, hdirectory, -⟩ :=
    exec_runSubshell machine (body.run machine (executor machine knowledge parse fuel)) world
  have hended : IsFree tableOf fd
      (bodyEnded (body.run machine (executor machine knowledge parse fuel)) world) ∨ fd = 0 := by
    by_cases hzero : fd = standardInput
    · exact .inr hzero
    have hplaced : fd ∉ body.placed := by
      cases body with
      | list items => exact List.not_mem_nil
      | substitution items writeEnd => simpa [SubshellBody.placed] using houtput
      | stage command input output started =>
          simpa [SubshellBody.placed, hzero] using houtput
    refine .inl ((freeUnlessNamed_subshellBody machine knowledge parse fuel body
      (subshellWorld world) ⟨hfree.lt, hfree.empty⟩ hplaced).resolve_right ?_)
    rw [hrun] at hnamed
    exact hnamed
  refine ⟨?_, fun hstat => ?_⟩
  · have hdepths := hsettles.depths
    rw [hrun] at hdepths ⊢
    exact
      { state := rfl
        functions := rfl
        jobs := rfl
        depths := hdepths
        startInsteadOfWait := (hmarks (subshellWorld world)).startInsteadOfWait
        keepRedirections := (hmarks (subshellWorld world)).keepRedirections
        descriptors := hslots fd hfree hended }
  · rw [hrun]
    exact hdirectory hstat

end

/-! ## A subshell that leaves a trace -/

/-- `exec` with a duplication of slot `source` to slot `fd`. -/
def execDuplicate (source : Text) (fd : Nat) : CommandList HereDocument Text :=
  [.mk (.last (.mk false
    (.simple
      { words := [{ parts := [.literal (text "exec")] }]
        redirections := [{ kind := .dupInput, fd, target := { parts := [.literal source] } }] })
    [] 1)) false (text "exec")]

/-- A shell whose only free slot is `free`, besides the first two. -/
def onlyFree (first second : Option Nat) : World (Members Unit Nat Unit) where
  state := {}
  outside :=
    { files :=
        { descriptors :=
            { slots := first :: second :: some 2 :: List.replicate 1021 (some 3)
              bounded := by
                rw [List.length_cons, List.length_cons, List.length_cons, List.length_replicate]
                exact Nat.le_refl _ }
          outside := () } }

/-- The body of a command substitution that runs `exec 0<&2`. -/
def duplicatesError : SubshellBody Nat := .substitution (execDuplicate (text "2") 0) 1025

/--
The free slot is the one that the body is given its output in: while slot 0 is put back
it is filled, and slot 0 stays what the body made it.
-/
theorem substitution_leavesTrace :
    IsFree tableOf standardOutput (onlyFree (some 0) none) ∧
      standardOutput ∉ (exec (runSubshell idleMachine (duplicatesError.run idleMachine
        (executor idleMachine idleKnowledge (fun _ _ _ => {}) 3)))
          (onlyFree (some 0) none)).2.outside.named ∧
      (exec (duplicatesError.run idleMachine
        (executor idleMachine idleKnowledge (fun _ _ _ => {}) 3))
          (subshellWorld (onlyFree (some 0) none))).1 = .ok 0 ∧
      slotsOf tableOf (onlyFree (some 0) none) 0 = some 0 ∧
      slotsOf tableOf (exec (runSubshell idleMachine (duplicatesError.run idleMachine
        (executor idleMachine idleKnowledge (fun _ _ _ => {}) 3)))
          (onlyFree (some 0) none)).2 0 = some 2 := by
  have hended : (tableOf (exec (duplicatesError.run idleMachine
      (executor idleMachine idleKnowledge (fun _ _ _ => {}) 3))
        (subshellWorld (onlyFree (some 0) none))).2.outside).slots =
      some 2 :: some 1025 :: some 2 :: List.replicate 1021 (some 3) := by
    decide +kernel
  have hfull : ∀ fd < kMaxDescriptors, slotsOf tableOf (exec (duplicatesError.run idleMachine
      (executor idleMachine idleKnowledge (fun _ _ _ => {}) 3))
        (subshellWorld (onlyFree (some 0) none))).2 fd ≠ none := by
    intro fd hlt
    rw [slotsOf, DescriptorTable.getDescriptor, hended]
    rw [kMaxDescriptors] at hlt
    rcases fd with _ | _ | _ | fd
    · exact Option.some_ne_none _
    · exact Option.some_ne_none _
    · exact Option.some_ne_none _
    · simp only [List.getElem?_cons_succ, List.getElem?_replicate]
      rw [if_pos (by omega)]
      simp
  obtain ⟨files, liveChildren, brokenPipe, hrun, -, -, hstays, -⟩ :=
    exec_runSubshell idleMachine (duplicatesError.run idleMachine
      (executor idleMachine idleKnowledge (fun _ _ _ => {}) 3)) (onlyFree (some 0) none)
  rw [hrun]
  have hresult : (exec (duplicatesError.run idleMachine
      (executor idleMachine idleKnowledge (fun _ _ _ => {}) 3))
        (subshellWorld (onlyFree (some 0) none))).1.toOption = some 0 := by
    decide +kernel
  have hnamed : standardOutput ∉ (exec (duplicatesError.run idleMachine
      (executor idleMachine idleKnowledge (fun _ _ _ => {}) 3))
        (subshellWorld (onlyFree (some 0) none))).2.outside.named := by
    decide +kernel
  refine ⟨⟨by decide, rfl⟩, ?_, ?_, rfl, ?_⟩
  · dsimp only
    exact hnamed
  · rcases hended : (exec (duplicatesError.run idleMachine
      (executor idleMachine idleKnowledge (fun _ _ _ => {}) 3))
        (subshellWorld (onlyFree (some 0) none))).1 with failure | status
    · rw [hended] at hresult
      cases hresult
    · rw [hended] at hresult
      cases hresult
      rfl
  · refine (hstays hfull (Option.some_ne_none _)).trans ?_
    rw [slotsOf, DescriptorTable.getDescriptor, hended]
    rfl

/-- With slot 0 free instead, it leaves none. -/
theorem substitution_noTrace :
    NoTrace (onlyFree none (some 1)) (exec (runSubshell idleMachine
      ((SubshellBody.substitution (execDuplicate (text "2") 3) 1025).run idleMachine
        (executor idleMachine idleKnowledge (fun _ _ _ => {}) 3))) (onlyFree none (some 1))).2 :=
  (runSubshell_noTrace idleMachine idleKnowledge (fun _ _ _ => {}) 3
    (.substitution (execDuplicate (text "2") 3) 1025) (onlyFree none (some 1))
    (show IsFree tableOf 0 (onlyFree none (some 1)) from ⟨by decide, rfl⟩)
    (by
      obtain ⟨files, liveChildren, brokenPipe, hrun, -⟩ :=
        exec_runSubshell idleMachine
          ((SubshellBody.substitution (execDuplicate (text "2") 3) 1025).run idleMachine
            (executor idleMachine idleKnowledge (fun _ _ _ => {}) 3)) (onlyFree none (some 1))
      rw [hrun]
      have hnamed : 0 ∉ (exec ((SubshellBody.substitution (execDuplicate (text "2") 3) 1025).run
          idleMachine (executor idleMachine idleKnowledge (fun _ _ _ => {}) 3))
            (subshellWorld (onlyFree none (some 1)))).2.outside.named := by
        decide +kernel
      dsimp only
      exact hnamed)
    fun _ => by decide).1

end Haisos.Hsh.Shell
