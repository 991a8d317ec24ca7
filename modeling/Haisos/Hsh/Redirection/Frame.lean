import Haisos.Hsh.Expansion.Frame

/-!
# What holds of applying redirections

Redirections are applied by expansions and operations on the files.  What holds of
these, and of what is put together of them, holds of the whole.
-/

namespace Haisos.Hsh

open StateExcept

variable {ω D : Type}

/-- A here-document that is expanded, its delimiter being unquoted, with a `$(...)` in it. -/
def bodyHoldsCommandSubstitution (redirection : Redirection HereDocument) : Bool :=
  match redirection.hereDoc with
  | some hereDoc => !hereDoc.quoted && partsHoldCommandSubstitution hereDoc.body.parts
  | none => false

def redirectionHoldsCommandSubstitution (redirection : Redirection HereDocument) : Bool :=
  partsHoldCommandSubstitution redirection.target.parts || bodyHoldsCommandSubstitution redirection

structure RedirectionFrame (io : FileIO ω D) (P : {α : Type} → Walk ω α → Prop) : Prop extends
    ExpansionFrame P where
  outOfFuel : ∀ {α : Type}, P (throw .outOfFuel : Walk ω α)
  openFile : ∀ path mode, P (perform (io.openFile path mode))
  addDescriptor : ∀ descriptor, P (perform (io.addDescriptor descriptor))
  dup2 : ∀ oldFd newFd, P (perform (io.dup2 oldFd newFd))
  closeDescriptor : ∀ fd, P (perform fun outside => ((), io.closeDescriptor fd outside))
  createPipe : ∀ capacity, P (perform (io.createPipe capacity))
  write : ∀ descriptor output, P (perform (io.write descriptor output))
  undoneOnFailure : ∀ {α : Type} {m : Walk ω α} (saved : SavedSlots D), P m →
    P (restoreSlots io saved) →
    P (tryCatch m fun failure => do
      restoreSlots io saved
      throw failure)

namespace RedirectionFrame

variable {io : FileIO ω D} {P : {α : Type} → Walk ω α → Prop} (frame : RedirectionFrame io P)

include frame

theorem look {α : Type} (f : ω → α) : P (Hsh.look f) := frame.bind frame.get fun _ => frame.pure _

theorem placeDescriptor (fd : Nat) (descriptor : Option D) :
    P (Hsh.placeDescriptor io fd descriptor) := by
  cases descriptor with
  | none => exact frame.bind (frame.closeDescriptor fd) fun _ => frame.pure _
  | some descriptor =>
      refine frame.bind (frame.addDescriptor descriptor) fun added => ?_
      split
      · exact frame.pure _
      · split
        · exact frame.pure _
        · refine frame.bind (frame.dup2 _ fd) fun _ => ?_
          exact frame.bind (frame.closeDescriptor _) fun _ => frame.pure _

theorem restoreSlots (saved : SavedSlots D) : P (Hsh.restoreSlots io saved) :=
  frame.forM fun _ _ => frame.bind (frame.placeDescriptor _ _) fun _ => frame.pure _

theorem saveSlot (fd : Nat) (saved : SavedSlots D) : P (Hsh.saveSlot io fd saved) := by
  rw [Hsh.saveSlot]
  split
  · exact frame.pure _
  · exact frame.bind (frame.look _) fun _ => frame.pure _

theorem placed (fd : Nat) (descriptor : Option D) (saved : SavedSlots D) :
    P (do
      if ← Hsh.placeDescriptor io fd descriptor then pure (none, saved)
      else pure (some (tooManyOpenFiles fd), saved)) := by
  refine frame.bind (frame.placeDescriptor fd descriptor) fun placed => ?_
  split
  · exact frame.pure _
  · exact frame.pure _

theorem saveAndPlace (fd : Nat) (descriptor : D) (saved : SavedSlots D) :
    P (Hsh.saveAndPlace io fd descriptor saved) :=
  frame.bind (frame.saveSlot fd saved) fun saved => frame.placed fd (some descriptor) saved

theorem openAndPlace (fd : Nat) (target : Text) (mode : OpenMode) (clobberCheck : Bool)
    (saved : SavedSlots D) : P (Hsh.openAndPlace io fd target mode clobberCheck saved) := by
  refine frame.bind frame.getState fun state => frame.bind (frame.look _) fun status => ?_
  split
  · exact frame.pure _
  · refine frame.bind (frame.openFile target mode) fun opened => ?_
    split
    · exact frame.bind (frame.look _) fun _ => frame.pure _
    · exact frame.saveAndPlace fd _ saved

theorem writeAll (descriptor : D) : ∀ fuel output, P (Hsh.writeAll io descriptor fuel output)
  | 0, output => by
      rw [Hsh.writeAll]
      split
      · exact frame.pure _
      · exact frame.outOfFuel
  | fuel + 1, output => by
      rw [Hsh.writeAll]
      split
      · exact frame.pure _
      · refine frame.bind (frame.write descriptor output) fun result => ?_
        split
        · exact writeAll descriptor fuel _
        · exact frame.pure _

theorem pipeInput (fd : Nat) (input : Text) (saved : SavedSlots D) :
    P (Hsh.pipeInput io fd input saved) := by
  refine frame.bind (frame.saveSlot fd saved) fun saved => ?_
  refine frame.bind (frame.createPipe _) fun piped => ?_
  split
  · exact frame.pure _
  · refine frame.bind (frame.look _) fun readEnd => frame.bind (frame.look _) fun writeEnd => ?_
    refine frame.bind (frame.closeDescriptor _) fun _ => ?_
    refine frame.bind (frame.closeDescriptor _) fun _ => ?_
    dsimp only
    split
    · exact frame.bind (frame.writeAll _ _ _) fun _ => frame.placed fd readEnd saved
    · exact frame.placed fd readEnd saved

theorem duplicate (fd : Nat) (target : Text) (saved : SavedSlots D) :
    P (Hsh.duplicate io fd target saved) := by
  rw [Hsh.duplicate.eq_def]
  split
  · refine frame.bind (frame.saveSlot fd saved) fun _ => ?_
    exact frame.bind (frame.closeDescriptor fd) fun _ => frame.pure _
  · split
    · split
      · exact frame.raise _
      · refine frame.bind (frame.look _) fun source => ?_
        split
        · exact frame.pure _
        · split
          · exact frame.pure _
          · refine frame.bind (frame.saveSlot fd saved) fun _ => ?_
            exact frame.bind (frame.dup2 _ fd) fun _ => frame.pure _
    · exact frame.raise _

variable {host : Host ω}

theorem hereDocBody {redirection : Redirection HereDocument}
    (hhost : bodyHoldsCommandSubstitution redirection →
      ∀ source line, P (commandSubstitution host source line)) :
    P (Hsh.hereDocBody host redirection) := by
  rw [bodyHoldsCommandSubstitution] at hhost
  rw [Hsh.hereDocBody]
  cases hdoc : redirection.hereDoc with
  | none => exact frame.pure _
  | some hereDoc =>
      refine frame.expandHereDocument fun hquoted hparts => hhost ?_
      rw [hdoc]
      simp only [hquoted, hparts, Bool.not_false, Bool.and_self]

theorem applyOne {redirection : Redirection HereDocument}
    (hhost : redirectionHoldsCommandSubstitution redirection →
      ∀ source line, P (commandSubstitution host source line)) (saved : SavedSlots D) :
    P (Hsh.applyOne io host redirection saved) := by
  rw [redirectionHoldsCommandSubstitution, Bool.or_eq_true] at hhost
  have htarget : P (expandToString host redirection.target) :=
    frame.expandToKind .string fun hparts => hhost (.inl hparts)
  rw [Hsh.applyOne]
  cases redirection.kind with
  | input =>
      refine frame.bind htarget fun target => frame.bind (frame.openFile target _) fun opened => ?_
      split
      · exact frame.bind (frame.look _) fun _ => frame.pure _
      · exact frame.saveAndPlace _ _ saved
  | output | outputClobber | append | readWrite =>
      exact frame.bind htarget fun target => frame.openAndPlace _ target _ _ saved
  | outputAndError =>
      refine frame.bind htarget fun target => ?_
      refine frame.bind (frame.openAndPlace _ target _ _ saved) fun applied => ?_
      split
      · exact frame.pure _
      · refine frame.bind (frame.saveSlot _ _) fun _ => ?_
        exact frame.bind (frame.dup2 _ _) fun _ => frame.pure _
  | dupInput | dupOutput =>
      exact frame.bind htarget fun target => frame.duplicate _ target saved
  | hereDoc =>
      exact frame.bind (frame.hereDocBody fun hbody => hhost (.inr hbody)) fun body =>
        frame.pipeInput _ body saved
  | hereString => exact frame.bind htarget fun target => frame.pipeInput _ _ saved

theorem applyRedirections : ∀ (redirections : List (Redirection HereDocument)),
    (redirections.any redirectionHoldsCommandSubstitution →
      ∀ source line, P (commandSubstitution host source line)) →
    ∀ saved, P (Hsh.applyRedirections io host redirections saved)
  | [], _, saved => frame.pure _
  | redirection :: rest, hhost, saved => by
      rw [List.any_cons, Bool.or_eq_true] at hhost
      rw [Hsh.applyRedirections]
      refine frame.bind (frame.undoneOnFailure saved (frame.applyOne (fun h => hhost (.inl h)) saved)
        (frame.restoreSlots saved)) fun applied => ?_
      split
      · exact frame.bind (frame.restoreSlots _) fun _ => frame.pure _
      · exact applyRedirections rest (fun h => hhost (.inr h)) _

end RedirectionFrame

end Haisos.Hsh
