import Haisos.Hsh.Shell.Builtins
import Haisos.Transition

/-!
# What control may do

The loops, functions and subshells that run are a stack of frames.  After `break` or
`continue` nothing happens but that frames end, down to the loop that is meant or to
the end of the subshell.
-/

namespace Haisos.Hsh.Shell

inductive ControlFrame where
  | loop
  | function
  | subshell
  deriving DecidableEq, Repr

/-- Whether frames end on the way to a loop: the first of `levels` loops is the next one. -/
inductive ControlMode where
  | running
  | unwinding (isBreak : Bool) (levels : Nat)
  deriving DecidableEq, Repr

structure Control where
  frames : List ControlFrame := []
  mode : ControlMode := .running
  deriving DecidableEq, Repr

/-- The loops of the current function call, or of the top level. -/
def loopsIn : List ControlFrame → Nat
  | [] => 0
  | .loop :: frames => loopsIn frames + 1
  | .subshell :: frames => loopsIn frames
  | .function :: _ => 0

def failureIsOrdinary : Option Failure → Bool
  | some (.loopControl _ _) | some (.functionReturn _) => false
  | _ => true

/-- What is true when a command of the top level is over. -/
structure EndsAtTop (failure : Option Failure) (depths : Depths)
    (positional ownPositional : List Text) : Prop where
  ordinary : failureIsOrdinary failure = true
  depths : depths = {}
  positional : positional = ownPositional

instance (failure : Option Failure) (depths : Depths) (positional ownPositional : List Text) :
    Decidable (EndsAtTop failure depths positional ownPositional) :=
  decidable_of_iff
    (failureIsOrdinary failure = true ∧ depths = {} ∧ positional = ownPositional)
    ⟨fun h => ⟨h.1, h.2.1, h.2.2⟩, fun h => ⟨h.1, h.2, h.3⟩⟩

/-- The number that digits stand for, after those of `value`. -/
def decimalValue (value : Nat) (digits : Text) : Nat :=
  digits.foldl (fun value c => value * 10 + digitValue c) value

/-- The number of loops that `break` or `continue` is given: 1, or its argument from 1 on. -/
def levelsGiven : List Text → Option Nat
  | [] => some 1
  | argument :: _ =>
      if argument ≠ [] ∧ argument.all isDigit = true ∧ 1 ≤ decimalValue 0 argument ∧
          decimalValue 0 argument ≤ intMax then
        some (decimalValue 0 argument)
      else none

/-- What a builtin that is called asks of the loops: whether they end, and how many. -/
def asksOfLoops (name : Text) (arguments : List Text) : Option (Bool × Nat) :=
  if name = text "break" then (levelsGiven arguments).map (true, ·)
  else if name = text "continue" then (levelsGiven arguments).map (false, ·)
  else none

/-- The events that may happen, and what they lead to. -/
def Control.step : ControlEvent → Control → Option Control
  | .loopStarted, ⟨frames, .running⟩ => some ⟨.loop :: frames, .running⟩
  | .roundStarted, ⟨.loop :: frames, .running⟩ => some ⟨.loop :: frames, .running⟩
  | .roundStarted, ⟨.loop :: frames, .unwinding false 1⟩ => some ⟨.loop :: frames, .running⟩
  | .loopEnded, ⟨.loop :: frames, .running⟩ => some ⟨frames, .running⟩
  | .loopEnded, ⟨.loop :: frames, .unwinding true 1⟩ => some ⟨frames, .running⟩
  | .loopEnded, ⟨.loop :: frames, .unwinding isBreak (levels + 2)⟩ =>
      some ⟨frames, .unwinding isBreak (levels + 1)⟩
  | .functionEntered, ⟨frames, .running⟩ => some ⟨.function :: frames, .running⟩
  | .functionLeft, ⟨.function :: frames, .running⟩ => some ⟨frames, .running⟩
  | .subshellEntered, ⟨frames, .running⟩ => some ⟨.subshell :: frames, .running⟩
  | .subshellLeft, ⟨.subshell :: frames, _⟩ => some ⟨frames, .running⟩
  | .commandStarted, ⟨frames, .running⟩ => some ⟨frames, .running⟩
  | .builtinStarted name arguments, ⟨frames, .running⟩ =>
      match asksOfLoops name arguments with
      | some (isBreak, levels) =>
          if 1 ≤ loopsIn frames then
            some ⟨frames, .unwinding isBreak (min levels (loopsIn frames))⟩
          else some ⟨frames, .running⟩
      | none => some ⟨frames, .running⟩
  | .commandEnded failure depths positional ownPositional, ⟨[], .running⟩ =>
      if EndsAtTop failure depths positional ownPositional then some {} else none
  | _, _ => none

/-- What events lead to, the latest first; `none` if one of them may not happen. -/
def controlAfter : List ControlEvent → Option Control
  | [] => some {}
  | event :: earlier => (controlAfter earlier).bind (Control.step event)

/-! ## The number of loops -/

theorem le_decimalValue (digits : Text) (value : Nat) : value ≤ decimalValue value digits := by
  induction digits generalizing value with
  | nil => exact le_rfl
  | cons c digits ih => exact (by omega : value ≤ value * 10 + digitValue c).trans (ih _)

theorem foldlM_decimal {digits : Text} {value : Nat} (hvalue : value ≤ intMax) :
    digits.foldlM (fun value c =>
        if isDigit c ∧ value ≤ (intMax - digitValue c) / 10 then some (value * 10 + digitValue c)
        else none) value =
      if digits.all isDigit = true ∧ decimalValue value digits ≤ intMax then
        some (decimalValue value digits)
      else none := by
  induction digits generalizing value with
  | nil => simp [decimalValue, hvalue]
  | cons c digits ih =>
      have hcons : decimalValue value (c :: digits) =
          decimalValue (value * 10 + digitValue c) digits := rfl
      rw [List.foldlM_cons, List.all_cons, hcons]
      by_cases hdigit : isDigit c = true
      · have hfits : value ≤ (intMax - digitValue c) / 10 ↔ value * 10 + digitValue c ≤ intMax := by
          have hsmall : digitValue c ≤ 9 := by
            simp only [isDigit, Bool.and_eq_true, decide_eq_true_eq] at hdigit
            have := Char.le_def.mp hdigit.2
            have hnine : c.toNat ≤ '9'.toNat := this
            rw [digitValue]
            exact Nat.sub_le_sub_right hnine _
          rw [intMax]
          omega
        by_cases hle : value * 10 + digitValue c ≤ intMax
        · rw [if_pos ⟨hdigit, hfits.mpr hle⟩]
          change List.foldlM _ _ digits = _
          rw [ih hle, hdigit, Bool.true_and]
        · rw [if_neg fun h => hle (hfits.mp h.2), if_neg]
          · rfl
          · exact fun h => hle ((le_decimalValue digits _).trans h.2)
      · rw [if_neg fun h => hdigit h.1, if_neg]
        · rfl
        · simp [hdigit]

theorem levelsGiven_cons (argument : Text) (rest : List Text) :
    levelsGiven (argument :: rest) = (decimalArgument argument).filter (1 ≤ ·) := by
  rw [levelsGiven, decimalArgument]
  cases argument with
  | nil => rfl
  | cons c digits =>
      rw [List.isEmpty_cons, if_neg Bool.false_ne_true, foldlM_decimal (Nat.zero_le _)]
      by_cases hgiven : (c :: digits).all isDigit = true ∧ decimalValue 0 (c :: digits) ≤ intMax
      · rw [if_pos hgiven]
        by_cases hone : 1 ≤ decimalValue 0 (c :: digits)
        · rw [if_pos ⟨List.cons_ne_nil _ _, hgiven.1, hone, hgiven.2⟩]
          simp [Option.filter, hone]
        · rw [if_neg fun h => hone h.2.2.1]
          simp [Option.filter, hone]
      · rw [if_neg hgiven, if_neg fun h => hgiven ⟨h.2.1, h.2.2.2⟩]
        rfl

/-! ## What follows a `break` or `continue` -/

/--
What happens next, the earliest first, when the loop that is meant is the `levels`-th of
the frames: the loops inside it end, then it ends or starts its next round.  A subshell
that runs inside the loop ends, and nothing else.
-/
def Reaches (isBreak : Bool) : Nat → List ControlFrame → List ControlEvent → Prop
  | _, .subshell :: _, event :: _ => event = .subshellLeft
  | 1, .loop :: _, event :: _ => event = if isBreak then .loopEnded else .roundStarted
  | levels + 2, .loop :: frames, event :: later =>
      event = .loopEnded ∧ Reaches isBreak (levels + 1) frames later
  | _, _, _ => False

theorem controlAfter_cons_eq_some {event : ControlEvent} {earlier : List ControlEvent}
    {control : Control} :
    controlAfter (event :: earlier) = some control ↔
      ∃ before, controlAfter earlier = some before ∧ before.step event = some control := by
  rw [controlAfter, Option.bind_eq_some_iff]

theorem controlAfter_append (later earlier : List ControlEvent) :
    controlAfter (later ++ earlier) =
      (controlAfter earlier).bind (Transition.run Control.step later.reverse) := by
  induction later with
  | nil => cases h : controlAfter earlier <;> simp [h]
  | cons event later ih =>
      rw [List.cons_append, controlAfter, ih, List.reverse_cons, Option.bind_assoc]
      congr 1
      funext control
      rw [Transition.run_append]
      congr 1
      funext next
      cases hnext : Control.step event next <;> simp [Transition.run, hnext]

/-- What is unwinding comes to an end only where it is to. -/
theorem reaches_of_run (isBreak : Bool) {frames' : List ControlFrame} :
    ∀ (later : List ControlEvent) (frames : List ControlFrame) (levels : Nat), 1 ≤ levels →
      Transition.run Control.step later ⟨frames, .unwinding isBreak levels⟩ =
        some ⟨frames', .running⟩ →
      Reaches isBreak levels frames later
  | [], _, _, _, hrun => by simp at hrun
  | event :: later, frames, levels, hlevels, hrun => by
      obtain ⟨next, hstep, hrest⟩ := Transition.run_cons_eq_some.mp hrun
      cases frames with
      | nil => cases event <;> simp [Control.step] at hstep
      | cons frame frames =>
          cases frame with
          | function => cases event <;> simp [Control.step] at hstep
          | subshell => cases event <;> simp [Control.step, Reaches] at hstep ⊢
          | loop =>
              match levels, hlevels with
              | 1, _ => cases event <;> cases isBreak <;> simp [Control.step, Reaches] at hstep ⊢
              | levels + 2, _ =>
                  cases event <;> simp [Control.step] at hstep
                  subst hstep
                  exact ⟨rfl, reaches_of_run isBreak later frames (levels + 1)
                    (Nat.le_add_left 1 levels) hrest⟩

theorem one_le_of_levelsGiven {arguments : List Text} {levels : Nat}
    (h : levelsGiven arguments = some levels) : 1 ≤ levels := by
  cases arguments with
  | nil =>
      cases h
      exact le_rfl
  | cons argument rest =>
      rw [levelsGiven] at h
      split_ifs at h with hgiven
      cases h
      exact hgiven.2.2.1

theorem one_le_of_asksOfLoops {name : Text} {arguments : List Text} {isBreak : Bool} {levels : Nat}
    (h : asksOfLoops name arguments = some (isBreak, levels)) : 1 ≤ levels := by
  rw [asksOfLoops] at h
  split_ifs at h
  · obtain ⟨_, hlevels, heq⟩ := Option.map_eq_some_iff.mp h
    cases heq
    exact one_le_of_levelsGiven hlevels
  · obtain ⟨_, hlevels, heq⟩ := Option.map_eq_some_iff.mp h
    cases heq
    exact one_le_of_levelsGiven hlevels

/-- After `break n` or `continue n` in `d` loops, the `min n d`-th of these is reached. -/
theorem reaches_of_controlAfter {later earlier : List ControlEvent} {name : Text}
    {arguments : List Text} {isBreak : Bool} {levels : Nat}
    (hasks : asksOfLoops name arguments = some (isBreak, levels)) {frames' : List ControlFrame}
    (h : controlAfter (later ++ .builtinStarted name arguments :: earlier) =
      some ⟨frames', .running⟩) :
    ∃ frames, controlAfter earlier = some ⟨frames, .running⟩ ∧
      (1 ≤ loopsIn frames →
        Reaches isBreak (min levels (loopsIn frames)) frames later.reverse) := by
  rw [controlAfter_append, Option.bind_eq_some_iff] at h
  obtain ⟨control, hcontrol, hrun⟩ := h
  obtain ⟨⟨frames, mode⟩, hearlier, hstep⟩ := controlAfter_cons_eq_some.mp hcontrol
  cases mode with
  | unwinding => simp [Control.step] at hstep
  | running =>
      refine ⟨frames, hearlier, fun hloops => ?_⟩
      simp only [Control.step, hasks, if_pos hloops] at hstep
      cases hstep
      exact reaches_of_run isBreak _ _ _ (le_min (one_le_of_asksOfLoops hasks) hloops) hrun

theorem endsAtTop_of_controlAfter {later earlier : List ControlEvent} {failure : Option Failure}
    {depths : Depths} {positional ownPositional : List Text} {control : Control}
    (h : controlAfter (later ++ .commandEnded failure depths positional ownPositional :: earlier) =
      some control) :
    controlAfter earlier = some {} ∧ EndsAtTop failure depths positional ownPositional := by
  rw [controlAfter_append, Option.bind_eq_some_iff] at h
  obtain ⟨_, hcontrol, -⟩ := h
  obtain ⟨⟨frames, mode⟩, hearlier, hstep⟩ := controlAfter_cons_eq_some.mp hcontrol
  cases frames with
  | cons frame frames => simp [Control.step] at hstep
  | nil =>
      cases mode with
      | unwinding => simp [Control.step] at hstep
      | running =>
          rw [Control.step] at hstep
          split_ifs at hstep with hends
          exact ⟨hearlier, hends⟩

end Haisos.Hsh.Shell
