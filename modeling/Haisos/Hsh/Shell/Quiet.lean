import Haisos.Hsh.Arithmetic.Store
import Haisos.Hsh.Expansion.Frame
import Haisos.Hsh.Shell.Execute

/-!
# What leaves the shell's frames alone

Most of what the shell does touches neither its depths nor its descriptor table,
and throws nothing that a loop or a function catches.
-/

namespace Haisos.Hsh.Shell

open StateExcept

variable {ω D P α β : Type}

/-! ## Quiet computations -/

structure Frame (D : Type) where
  depths : Depths
  slots : Nat → Option D
  keepRedirections : Bool
  startInsteadOfWait : Option Nat
  substitutionCount : Nat
  named : List Nat
  events : List ControlEvent

def Members.frame (members : Members ω D P) : Frame D where
  depths := members.depths
  slots := members.files.descriptors.getDescriptor
  keepRedirections := members.keepRedirections
  startInsteadOfWait := members.startInsteadOfWait
  substitutionCount := members.substitutionCount
  named := members.named
  events := members.events

def Depths.atTop (depths : Depths) : Prop := depths.functions = 0 ∧ depths.subshells = 0

instance (depths : Depths) : Decidable depths.atTop :=
  inferInstanceAs (Decidable (depths.functions = 0 ∧ depths.subshells = 0))

structure TracksPositional (world world' : World (Members ω D P)) : Prop where
  atTop : world.outside.depths.atTop → world.state.positional = world.outside.ownPositional →
    world'.state.positional = world'.outside.ownPositional
  inside : ¬ world.outside.depths.atTop → world'.outside.ownPositional = world.outside.ownPositional

structure QuietStep (world world' : World (Members ω D P)) : Prop where
  frame : world'.outside.frame = world.outside.frame
  positional : TracksPositional world world'

theorem QuietStep.depths {world world' : World (Members ω D P)} (h : QuietStep world world') :
    world'.outside.depths = world.outside.depths := congrArg Frame.depths h.frame

instance : @Std.Refl (World (Members ω D P)) QuietStep :=
  ⟨fun _ => ⟨rfl, fun _ h => h, fun _ => rfl⟩⟩

instance : IsTrans (World (Members ω D P)) QuietStep :=
  ⟨fun _ _ _ h h' =>
    ⟨h'.frame.trans h.frame,
      fun htop hown => h'.positional.atTop (h.depths ▸ htop) (h.positional.atTop htop hown),
      fun hin => (h'.positional.inside (h.depths ▸ hin)).trans (h.positional.inside hin)⟩⟩

def IsOrdinary : Failure → Prop
  | .loopControl _ _ | .functionReturn _ => False
  | _ => True

structure QuietAt (m : Sh ω D P α) (world : World (Members ω D P)) : Prop where
  step : QuietStep world (exec m world).2
  ordinary : ∀ failure, (exec m world).1 = .error failure → IsOrdinary failure

def Quiet (m : Sh ω D P α) : Prop := ∀ world, QuietAt m world

namespace QuietAt

variable {world : World (Members ω D P)}

theorem of_ok {m : Sh ω D P α} {a : α} (world' : World (Members ω D P))
    (hrun : exec m world = (.ok a, world')) (h : QuietStep world world') : QuietAt m world where
  step := by
    rw [hrun]
    exact h
  ordinary failure herror := by
    rw [hrun] at herror
    cases herror

theorem bind {m : Sh ω D P α} {f : α → Sh ω D P β} (hm : QuietAt m world)
    (hf : ∀ a world', exec m world = (.ok a, world') → QuietAt (f a) world') :
    QuietAt (m >>= f) world := by
  have hstep := hm.step
  rcases hrun : exec m world with ⟨e | a, world'⟩ <;> rw [hrun] at hstep
  · constructor
    · rw [exec_bind_error hrun]
      exact hstep
    · intro failure herror
      rw [exec_bind_error hrun] at herror
      cases herror
      exact hm.ordinary e (by rw [hrun])
  · have ha := hf a world' hrun
    constructor
    · rw [exec_bind_ok hrun]
      exact IsTrans.trans _ _ _ hstep ha.step
    · intro failure herror
      rw [exec_bind_ok hrun] at herror
      exact ha.ordinary failure herror

theorem setState {state : ShellState} (h : state.positional = world.state.positional) :
    QuietAt (Hsh.setState state) world :=
  of_ok _ rfl ⟨rfl, fun _ hown => h.trans hown, fun _ => rfl⟩

end QuietAt

namespace Quiet

theorem bind {m : Sh ω D P α} {f : α → Sh ω D P β} (hm : Quiet m) (hf : ∀ a, Quiet (f a)) :
    Quiet (m >>= f) := fun world => (hm world).bind fun a world' _ => hf a world'

theorem pure (a : α) : Quiet (Pure.pure a : Sh ω D P α) :=
  fun _ => .of_ok _ rfl (Std.Refl.refl _)

theorem throw {failure : Failure} (h : IsOrdinary failure) :
    Quiet (MonadExcept.throw failure : Sh ω D P α) := fun _ => by
  refine ⟨Std.Refl.refl _, fun failure' herror => ?_⟩
  cases herror
  exact h

theorem ite {c : Prop} [Decidable c] {m m' : Sh ω D P α} (hm : Quiet m) (hm' : Quiet m') :
    Quiet (if c then m else m') := by
  split
  · exact hm
  · exact hm'

theorem when_intro {c : Prop} [Decidable c] {m : Sh ω D P PUnit} {next : Sh ω D P α}
    (hm : Quiet m) (hnext : Quiet next) : Quiet (if c then m >>= fun _ => next else next) :=
  ite (bind hm fun _ => hnext) hnext

theorem compositional : Compositional fun {_} (m : Sh ω D P _) => Quiet m where
  pure := pure
  bind := bind

theorem forM {xs : List β} {f : β → Sh ω D P PUnit} (h : ∀ x ∈ xs, Quiet (f x)) :
    Quiet (ForM.forM xs f) := compositional.forM h

theorem of_modifyGet {f : World (Members ω D P) → α × World (Members ω D P)}
    (h : ∀ world, QuietStep world (f world).2) : Quiet (modifyGet f : Sh ω D P α) :=
  fun world => .of_ok _ rfl (h world)

theorem get : Quiet (MonadState.get : Sh ω D P _) := fun _ => .of_ok _ rfl (Std.Refl.refl _)

theorem getState : Quiet (Hsh.getState : Sh ω D P ShellState) := bind get fun _ => pure _

theorem getMembers : Quiet (Shell.getMembers : Sh ω D P (Members ω D P)) :=
  bind get fun _ => pure _

theorem atState {f : ShellState → Sh ω D P α} (h : ∀ world, QuietAt (f world.state) world) :
    Quiet (Hsh.getState >>= f) := fun world =>
  (getState world).bind fun a world' hrun => by
    cases hrun
    exact h world

theorem look (f : Members ω D P → α) : Quiet (Hsh.look f) := bind get fun _ => pure _

theorem perform {f : Members ω D P → α × Members ω D P}
    (h : ∀ members, (f members).2.frame = members.frame ∧
      (f members).2.ownPositional = members.ownPositional) : Quiet (Hsh.perform f) :=
  of_modifyGet fun world =>
    ⟨(h world.outside).1, fun _ hown => hown.trans (h world.outside).2.symm,
      fun _ => (h world.outside).2⟩

theorem onOutside (f : ω → α × ω) : Quiet (Hsh.perform (Members.onOutside f) : Sh ω D P α) :=
  perform fun _ => ⟨rfl, rfl⟩

theorem modifyMembers {f : Members ω D P → Members ω D P}
    (h : ∀ members, (f members).frame = members.frame ∧
      (f members).ownPositional = members.ownPositional) : Quiet (Shell.modifyMembers f) :=
  perform h

theorem modifyState {f : ShellState → ShellState}
    (h : ∀ state, (f state).positional = state.positional) :
    Quiet (Shell.modifyState f : Sh ω D P Unit) :=
  of_modifyGet fun world => ⟨rfl, fun _ hown => (h world.state).trans hown, fun _ => rfl⟩

theorem fail (message : Text) : Quiet (Shell.fail message : Sh ω D P α) :=
  bind getMembers fun _ => throw trivial

theorem raise (message : Text) : Quiet (Hsh.raise message : Sh ω D P α) := throw trivial

/-! ## Assignments -/

theorem assignVariable (name value : Text) :
    Quiet (Shell.assignVariable name value : Sh ω D P Unit) := by
  refine atState fun world => ?_
  split
  · exact fail _ world
  · exact QuietAt.setState rfl

theorem assignAll (assignments : List (Text × Text)) :
    Quiet (Shell.assignAll assignments : Sh ω D P Unit) :=
  forM fun _ _ => assignVariable _ _

theorem setPositional (positional : List Text) :
    Quiet (Shell.setPositional positional : Sh ω D P Unit) := fun world => by
  refine .of_ok
    { state := { world.state with positional }
      outside := if world.outside.depths.atTop then
          { world.outside with ownPositional := positional }
        else world.outside } rfl ?_
  by_cases htop : world.outside.depths.atTop
  · rw [if_pos htop]
    exact ⟨rfl, fun _ _ => rfl, fun hin => absurd htop hin⟩
  · rw [if_neg htop]
    exact ⟨rfl, fun h => absurd h htop, fun _ => rfl⟩

theorem arithmeticValue (expression : Text) :
    Quiet (Hsh.arithmeticValue expression : Sh ω D P Text) := by
  refine atState fun world => ?_
  have hstore : ((Arithmetic.evaluateArithmetic shellArithmeticVariables expression
      world.state).2).positional = world.state.positional := by
    refine Arithmetic.evaluateArithmetic_store (R := fun s s' : ShellState =>
      s'.positional = s.positional) (fun store name value store' hset => ?_) expression world.state
    simp only [shellArithmeticVariables, Option.map_eq_some_iff] at hset
    obtain ⟨vars, -, rfl⟩ := hset
    rfl
  split <;> rename_i hrun
  · rw [hrun] at hstore
    exact (QuietAt.setState hstore).bind fun _ world' _ => pure _ world'
  · rw [hrun] at hstore
    exact (QuietAt.setState hstore).bind fun _ world' _ => raise _ world'
  · exact throw (show IsOrdinary .outOfFuel from trivial) world

theorem assignDefault (name value : Text) :
    Quiet (Hsh.assignDefault name value : Sh ω D P Unit) := by
  refine atState fun world => ?_
  split
  · rename_i state hset
    simp only [shellArithmeticVariables, Option.map_eq_some_iff] at hset
    obtain ⟨vars, -, rfl⟩ := hset
    exact QuietAt.setState rfl
  · exact raise _ world

end Quiet

end Haisos.Hsh.Shell
