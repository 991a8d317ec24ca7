import Haisos.Hsh.Shell.Subshells

/-!
# Redirections are undone exactly

A `RedirectionScope` from its construction to its destruction, with what the shell runs
meanwhile.  Two free slots suffice: a command substitution fills at most one of them.
-/

namespace Haisos.Hsh.Shell

open StateExcept

variable {ω D P α : Type}

/-! ## The life of a scope -/

/-- What is done while a scope lives. -/
inductive ScopeStep (ω : Type) where
  | apply (redirections : List (Redirection HereDocument))
  | command (run : Walk ω Int)

/--
A scope, with what it has saved: an `Apply` saves anew, and adds to what earlier ones
have saved.  At the end, and when something is thrown, all of it is undone.
-/
def runScope (io : FileIO ω D) (host : Host ω) : List (ScopeStep ω) → SavedSlots D → Walk ω Unit
  | [], saved => restoreSlots io saved
  | .apply redirections :: rest, saved => do
      let applied ← tryCatch (applyRedirections io host redirections []) fun failure => do
        restoreSlots io saved
        throw failure
      runScope io host rest (applied.2 ++ saved)
  | .command run :: rest, saved => do
      let _ ← tryCatch run fun failure => do
        restoreSlots io saved
        throw failure
      runScope io host rest saved

/-! ## Two free slots -/

/-- Two slots, neither of them filled. -/
structure TwoFree (first second : Nat) (world : World (Members ω D P)) : Prop where
  ne : first ≠ second
  first : IsFree tableOf first world
  second : IsFree tableOf second world

theorem TwoFree.of_slots {first second : Nat} {world world' : World (Members ω D P)}
    (hslots : slotsOf tableOf world' = slotsOf tableOf world) (h : TwoFree first second world) :
    TwoFree first second world' := ⟨h.ne, h.first.of_slots hslots, h.second.of_slots hslots⟩

/-- One of the slots has been named. -/
def NamesEither (first second : Nat) (members : Members ω D P) : Prop :=
  first ∈ members.named ∨ second ∈ members.named

/-- The slots hold what they held, unless one of the two free ones is named. -/
structure KeepsSlots (first second : Nat) (m : Sh ω D P α) : Prop where
  keeps : ∀ slots, KeepsUnless (NamesEither first second)
    (fun world => TwoFree first second world ∧ slotsOf tableOf world = slots)
    (fun world => TwoFree first second world ∧ slotsOf tableOf world = slots) m
    fun _ world => TwoFree first second world ∧ slotsOf tableOf world = slots
  stays : StaysDoomed (NamesEither first second) m

/-- What a scope has saved gives the slots back what they held at its start. -/
structure Undoes (first second : Nat) (before : Nat → Option D) (saved : SavedSlots D)
    (world : World (Members ω D P)) : Prop where
  free : TwoFree first second world
  notSaved : ∀ slot ∈ saved, ¬ (slot.1 = first ∨ slot.1 = second)
  undone : undo saved (slotsOf tableOf world) = before

theorem undoes_invariant (first second : Nat) (before : Nat → Option D) :
    ScopeInvariant (tableOf (ω := ω) (P := P)) (fun fd => fd = first ∨ fd = second)
      (Undoes first second before) where
  isFree h := ⟨first, .inl rfl, h.free.first⟩
  same hslots h := ⟨h.free.of_slots hslots, h.notSaved, by rw [hslots, h.undone]⟩
  save hne h :=
    ⟨h.free, List.forall_mem_cons.mpr ⟨hne, h.notSaved⟩, by rw [undo, putSlot_self, h.undone]⟩
  change hne hmem hslots h := by
    rw [not_or] at hne
    refine ⟨⟨h.free.ne, ⟨h.free.first.lt, ?_⟩, ⟨h.free.second.lt, ?_⟩⟩, h.notSaved, ?_⟩
    · rw [hslots, putSlot_of_ne (Ne.symm hne.1), h.free.first.empty]
    · rw [hslots, putSlot_of_ne (Ne.symm hne.2), h.free.second.empty]
    · rw [hslots, undo_putSlot hmem, h.undone]
  undone hslots h := by
    rename_i saved world world'
    have hstays {fd : Nat} (hfd : fd = first ∨ fd = second) :
        slotsOf tableOf world' fd = slotsOf tableOf world fd := by
      rw [hslots, undo_of_ne fun slot hslot heq => h.notSaved slot hslot (heq ▸ hfd)]
    refine ⟨⟨h.free.ne, ⟨h.free.first.lt, ?_⟩, ⟨h.free.second.lt, ?_⟩⟩, by simp,
      hslots.trans h.undone⟩
    · rw [hstays (.inl rfl), h.free.first.empty]
    · rw [hstays (.inr rfl), h.free.second.empty]
  saved h := h.notSaved

/-! ## Command substitutions -/

section

variable (machine : Machine ω D P) {first second : Nat}

theorem redirectionFrame_namesEither (first second : Nat) :
    RedirectionFrame (shellFiles machine) fun {_} (m : Sh ω D P _) =>
      StaysDoomed (NamesEither first second) m where
  toExpansionFrame := expansionFrame_of_outside (fun _ _ hsame h => hsame ▸ h) fun _ => id
  outOfFuel := Triple.throw_intro fun _ => id
  openFile _ _ := Triple.modifyGet_intro fun _ => id
  addDescriptor _ := Triple.modifyGet_intro fun _ => id
  dup2 _ _ := Triple.modifyGet_intro fun _ => id
  closeDescriptor _ := Triple.modifyGet_intro fun _ => id
  createPipe _ := Triple.modifyGet_intro fun _ => id
  write _ _ := Triple.modifyGet_intro fun _ => id
  undoneOnFailure _ hm hrestore := Triple.tryCatch_intro _ hm fun _ =>
    Triple.bind_intro hrestore fun _ => Triple.throw_intro fun _ => id

/-- What keeps the marks keeps the names. -/
theorem staysDoomed_of_keepsMarks {m : Sh ω D P α} (hm : Respects KeepsMarks m)
    (first second : Nat) : StaysDoomed (NamesEither first second) m :=
  hm.triple (fun _ _ _ h hstep => h.imp (hstep.named _) (hstep.named _))
    fun _ _ _ h hstep => h.imp (hstep.named _) (hstep.named _)

theorem keepsSlots_of_quiet {m : Sh ω D P α} (hm : Quiet m) : KeepsSlots first second m := by
  have hstays := staysDoomed_of_keepsMarks (fun world => (hm.settles world).toKeepsMarks)
    first second
  refine ⟨fun slots => Triple.or_intro ?_ hstays, hstays⟩
  have hstep (world world' : World (Members ω D P))
      (h : TwoFree first second world ∧ slotsOf tableOf world = slots)
      (hquiet : QuietStep world world') :
      TwoFree first second world' ∧ slotsOf tableOf world' = slots := by
    have hslots : slotsOf tableOf world' = slotsOf tableOf world :=
      congrArg Frame.slots hquiet.frame
    exact ⟨h.1.of_slots hslots, hslots.trans h.2⟩
  exact Respects.triple (fun world => (hm world).step) (fun _ _ _ => hstep _ _)
    fun _ _ _ => hstep _ _

variable [DecidableEq D] [DecidableEq P] (knowledge : Knowledge ω D) (parse : ParseText)
  (fuel : Nat)

omit [DecidableEq D] [DecidableEq P] in
theorem keepsSlots_of_ended {m : Sh ω D P α} (hm : Respects KeepsMarks m)
    (h : ∀ slots world,
      (TwoFree first second world ∧ slotsOf tableOf world = slots) ∨
        NamesEither first second world.outside →
      (TwoFree first second (exec m world).2 ∧ slotsOf tableOf (exec m world).2 = slots) ∨
        NamesEither first second (exec m world).2.outside) : KeepsSlots first second m := by
  refine ⟨fun slots world hworld => ?_, staysDoomed_of_keepsMarks hm first second⟩
  have hended := h slots world hworld
  rcases hrun : exec m world with ⟨_ | _, _⟩ <;> rw [hrun] at hended
  · exact hended
  · exact hended

/-- One of the two slots is not the one that the body is given its output in. -/
theorem keepsSlots_runSubshell (body : SubshellBody D) :
    KeepsSlots first second
      (runSubshell machine (body.run machine (executor machine knowledge parse fuel))) := by
  have hsettles := settles_runSubshell machine
    (subshellBody_keepsMarks machine knowledge parse fuel body)
  refine keepsSlots_of_ended (fun world => (hsettles world).toKeepsMarks) fun slots world hworld => ?_
  rcases hworld with ⟨hfree, rfl⟩ | hdoomed
  · by_cases hnamed : NamesEither first second (exec (runSubshell machine
        (body.run machine (executor machine knowledge parse fuel))) world).2.outside
    · exact .inr hnamed
    · rw [NamesEither, not_or] at hnamed
      have hslots : slotsOf tableOf (exec (runSubshell machine
          (body.run machine (executor machine knowledge parse fuel))) world).2 =
            slotsOf tableOf world := by
        by_cases houtput : first = standardOutput
        · exact (runSubshell_noTrace machine knowledge parse fuel body world hfree.second hnamed.2
            fun _ heq => hfree.ne (houtput.trans heq.symm)).1.descriptors
        · exact (runSubshell_noTrace machine knowledge parse fuel body world hfree.first hnamed.1
            fun _ => houtput).1.descriptors
      exact .inl ⟨hfree.of_slots hslots, hslots⟩
  · exact .inr (hdoomed.imp ((hsettles world).named _) ((hsettles world).named _))

omit [DecidableEq D] [DecidableEq P] in
theorem keepsSlots_bind {β : Type} {m : Sh ω D P α} {f : α → Sh ω D P β}
    (hm : KeepsSlots first second m) (hf : ∀ a, KeepsSlots first second (f a)) :
    KeepsSlots first second (m >>= f) :=
  ⟨fun slots => Triple.bind_intro (hm.keeps slots) fun a => (hf a).keeps slots,
    Triple.bind_intro hm.stays fun a => (hf a).stays⟩

omit [DecidableEq D] [DecidableEq P] in
theorem keepsSlots_modifyMembers {f : Members ω D P → Members ω D P}
    (hfiles : ∀ members, (f members).files = members.files)
    (hnamed : ∀ members, (f members).named = members.named) :
    KeepsSlots first second (modifyMembers f : Sh ω D P Unit) := by
  have hslots (world : World (Members ω D P)) :
      slotsOf tableOf ⟨world.state, f world.outside⟩ = slotsOf tableOf world := by
    rw [slotsOf, tableOf, hfiles, slotsOf]
  refine ⟨fun slots => Triple.modifyGet_intro fun world h => ?_,
    Triple.modifyGet_intro fun world h => ?_⟩
  · refine h.imp (fun h => ⟨h.1.of_slots (hslots world), (hslots world).trans h.2⟩) fun h => ?_
    rwa [NamesEither, hnamed]
  · rwa [NamesEither, hnamed]

omit [DecidableEq D] [DecidableEq P] in
theorem keepsSlots_withStartInsteadOfWait (stage : Option Nat) {m : Sh ω D P α}
    (hm : KeepsSlots first second m) : KeepsSlots first second (withStartInsteadOfWait stage m) := by
  have hset (stage : Option Nat) : KeepsSlots first second
      (modifyMembers fun members => { members with startInsteadOfWait := stage } :
        Sh ω D P Unit) :=
    keepsSlots_modifyMembers (fun _ => rfl) fun _ => rfl
  refine keepsSlots_bind (keepsSlots_of_quiet .getMembers) fun members => ?_
  refine keepsSlots_bind (hset stage) fun _ => ⟨fun slots => ?_, ?_⟩
  · refine Triple.bind_intro (Triple.attempt_intro (hm.keeps slots)) fun ended => ?_
    rcases ended with failure | a
    · exact Triple.bind_intro ((hset _).keeps slots) fun _ => Triple.throw_intro fun _ => id
    · exact Triple.bind_intro ((hset _).keeps slots) fun _ => Triple.pure_intro fun _ => id
  · refine Triple.bind_intro (Triple.attempt_intro hm.stays) fun ended => ?_
    rcases ended with failure | a
    · exact Triple.bind_intro (hset _).stays fun _ => Triple.throw_intro fun _ => id
    · exact Triple.bind_intro (hset _).stays fun _ => Triple.pure_intro fun _ => id

theorem keepsSlots_runCommandSubstitution (source : Text) (line : Nat) :
    KeepsSlots first second (runCommandSubstitution machine parse
      (executor machine knowledge parse fuel) source line) := by
  rw [runCommandSubstitution]
  refine keepsSlots_bind (keepsSlots_modifyMembers (fun _ => rfl) fun _ => rfl) fun _ => ?_
  dsimp only
  split
  · refine keepsSlots_bind (keepsSlots_of_quiet .getState) fun state => ?_
    exact keepsSlots_of_quiet ((Quiet.writeErr machine _).bind fun _ => .pure _)
  · refine keepsSlots_bind (keepsSlots_of_quiet (.onOutside _)) fun ends => ?_
    refine keepsSlots_bind (keepsSlots_withStartInsteadOfWait none
      (keepsSlots_runSubshell machine knowledge parse fuel _)) fun status => ?_
    exact keepsSlots_of_quiet ((Quiet.readOutput machine _).bind fun _ => .pure _)

theorem keepsSlots_commandSubstitution (source : Text) (line : Nat) :
    KeepsSlots first second (commandSubstitution
      (shellHost machine parse (executor machine knowledge parse fuel)) source line) := by
  have hinner := (settlesDiscipline machine).executor knowledge parse fuel
  refine keepsSlots_of_ended (fun world => ((settlesDiscipline machine).commandSubstitution hinner
    source line world).toKeepsMarks) fun slots world hworld => ?_
  have hrun : KeepsSlots first second (runCommandSubstitution machine parse
      (executor machine knowledge parse fuel) source line) :=
    keepsSlots_runCommandSubstitution machine knowledge parse fuel source line
  have hsame := commandSubstitution_outside machine parse
    (executor machine knowledge parse fuel) source line world
  have hslots : slotsOf tableOf (exec (commandSubstitution
      (shellHost machine parse (executor machine knowledge parse fuel)) source line) world).2 =
      slotsOf tableOf (exec (runCommandSubstitution machine parse
        (executor machine knowledge parse fuel) source line) world).2 := by
    rw [slotsOf, hsame, slotsOf]
  have hended := hrun.keeps slots world hworld
  rw [hsame, hslots]
  rcases hresult : exec (runCommandSubstitution machine parse
    (executor machine knowledge parse fuel) source line) world with ⟨failure | result, ended⟩ <;>
    rw [hresult] at hended hslots
  · exact hended.imp_left fun h => ⟨h.1.of_slots hslots, h.2⟩
  · exact hended.imp_left fun h => ⟨h.1.of_slots hslots, h.2⟩

/-! ## Applying and undoing -/

omit [DecidableEq D] [DecidableEq P] in
theorem undoes_at_of_keepsSlots {m : Sh ω D P α} (hm : KeepsSlots first second m)
    (before : Nat → Option D) (saved : SavedSlots D) (start : Nat → Option D) :
    KeepsUnless (NamesEither first second)
      (fun world => Undoes first second before saved world ∧ slotsOf tableOf world = start)
      (fun world => Undoes first second before saved world ∧ slotsOf tableOf world = start) m
      fun _ world => Undoes first second before saved world ∧ slotsOf tableOf world = start := by
  refine (Triple.or_intro (Triple.of_pre fun world hworld => ?_) hm.stays).consequence
    (fun _ => id) (fun _ _ h => h.elim id .inr) fun _ _ h => h.elim id .inr
  obtain ⟨hundoes, rfl⟩ := hworld
  have hstill (world' : World (Members ω D P))
      (h : (TwoFree first second world' ∧ slotsOf tableOf world' = slotsOf tableOf world) ∨
        NamesEither first second world'.outside) :
      (Undoes first second before saved world' ∧ slotsOf tableOf world' = slotsOf tableOf world) ∨
        NamesEither first second world'.outside :=
    h.imp_left fun h => ⟨⟨h.1, hundoes.notSaved, by rw [h.2, hundoes.undone]⟩, h.2⟩
  exact (hm.keeps (slotsOf tableOf world)).consequence
    (by rintro _ rfl; exact .inl ⟨hundoes.free, rfl⟩) (fun _ => hstill) fun _ => hstill

omit [DecidableEq D] [DecidableEq P] in
theorem undoes_of_keepsSlots {m : Sh ω D P α} (hm : KeepsSlots first second m)
    (before : Nat → Option D) (saved : SavedSlots D) :
    KeepsUnless (NamesEither first second) (Undoes first second before saved)
      (Undoes first second before saved) m fun _ => Undoes first second before saved := by
  refine (Triple.or_intro (Triple.of_pre fun world hworld => ?_) hm.stays).consequence
    (fun _ => id) (fun _ _ h => h.elim id .inr) fun _ _ h => h.elim id .inr
  exact (undoes_at_of_keepsSlots hm before saved (slotsOf tableOf world)).consequence
    (by rintro _ rfl; exact .inl ⟨hworld, rfl⟩) (fun _ _ h => h.imp_left And.left)
    fun _ _ h => h.imp_left And.left

/-- Redirections that name neither of the slots. -/
def NamesNeither (first second : Nat) (redirections : List (Redirection HereDocument)) : Prop :=
  ∀ redirection ∈ redirections, ∀ fd ∈ namedSlots redirection, ¬ (fd = first ∨ fd = second)

theorem undoes_applyRedirections {redirections : List (Redirection HereDocument)}
    (hnamed : NamesNeither first second redirections) (before : Nat → Option D)
    (saved : SavedSlots D) :
    KeepsUnless (NamesEither first second) (Undoes first second before saved)
      (Undoes first second before [])
      (applyRedirections (shellFiles machine)
        (shellHost machine parse (executor machine knowledge parse fuel)) redirections saved)
      fun applied world => Undoes first second before applied.2 world ∧
        (applied.1 ≠ none → applied.2 = []) :=
  applyRedirections_triple (system_usesTable machine) (undoes_invariant first second before)
    (redirectionFrame_namesEither machine first second)
    (fun saved source line => undoes_of_keepsSlots
      (keepsSlots_commandSubstitution machine knowledge parse fuel source line) before saved)
    (fun source line =>
      (keepsSlots_commandSubstitution machine knowledge parse fuel source line).stays)
    redirections hnamed saved

/-- A step that names neither of the slots, and whose command undoes what it did. -/
def ScopeStep.KeepsSlots (first second : Nat) : ScopeStep (Members ω D P) → Prop
  | .apply redirections => NamesNeither first second redirections
  | .command run => Shell.KeepsSlots first second run

theorem runScope_staysDoomed :
    ∀ (steps : List (ScopeStep (Members ω D P))) (saved : SavedSlots D),
      (∀ step ∈ steps, step.KeepsSlots first second) →
      StaysDoomed (NamesEither first second) (runScope (shellFiles machine)
        (shellHost machine parse (executor machine knowledge parse fuel)) steps saved)
  | [], saved, _ => (redirectionFrame_namesEither machine first second).restoreSlots saved
  | .command run :: rest, saved, hsteps => by
      have hframe := redirectionFrame_namesEither machine first second
      have hrun : Shell.KeepsSlots first second run := hsteps _ List.mem_cons_self
      refine hframe.bind (hframe.undoneOnFailure saved hrun.stays (hframe.restoreSlots saved))
        fun _ => ?_
      exact runScope_staysDoomed rest saved fun step hstep => hsteps step (List.mem_cons_of_mem _ hstep)
  | .apply redirections :: rest, saved, hsteps => by
      have hframe := redirectionFrame_namesEither machine first second
      have happlied := hframe.applyRedirections redirections
        (fun _ source line =>
          (keepsSlots_commandSubstitution machine knowledge parse fuel source line).stays) []
      refine hframe.bind (hframe.undoneOnFailure saved happlied (hframe.restoreSlots saved))
        fun _ => ?_
      exact runScope_staysDoomed rest _ fun step hstep => hsteps step (List.mem_cons_of_mem _ hstep)

theorem undoes_runScope (before : Nat → Option D) :
    ∀ (steps : List (ScopeStep (Members ω D P))) (saved : SavedSlots D),
      (∀ step ∈ steps, step.KeepsSlots first second) →
      KeepsUnless (NamesEither first second) (Undoes first second before saved)
        (Undoes first second before [])
        (runScope (shellFiles machine)
          (shellHost machine parse (executor machine knowledge parse fuel)) steps saved)
        fun _ => Undoes first second before []
  | [], saved, _ => restoreSlots_keepsUnless (system_usesTable machine)
      (undoes_invariant first second before) (redirectionFrame_namesEither machine first second) saved
  | .command run :: rest, saved, hsteps => by
      have hrun := undoes_of_keepsSlots (hsteps _ List.mem_cons_self) before saved
      refine Triple.bind_intro (Triple.tryCatch_intro _ hrun fun failure => ?_) fun _ =>
        undoes_runScope before rest saved fun step hstep => hsteps step (List.mem_cons_of_mem _ hstep)
      exact Triple.bind_intro (restoreSlots_keepsUnless (system_usesTable machine)
        (undoes_invariant first second before) (redirectionFrame_namesEither machine first second)
        saved) fun _ => Triple.throw_intro fun _ => id
  | .apply redirections :: rest, saved, hsteps => by
      have hnamed : NamesNeither first second redirections := hsteps _ List.mem_cons_self
      refine Triple.of_pre fun world hworld => ?_
      rcases hworld with hworld | hdoomed
      swap
      · exact (runScope_staysDoomed machine knowledge parse fuel _ saved hsteps).consequence
          (by rintro _ rfl; exact hdoomed) (fun _ _ => .inr) fun _ _ => .inr
      -- What this `Apply` saves undoes it alone; what was saved earlier undoes the rest.
      have hlater {later : SavedSlots D} {world' : World (Members ω D P)}
          (h : Undoes first second (slotsOf tableOf world) later world') :
          Undoes first second before (later ++ saved) world' :=
        ⟨h.free, fun slot hslot =>
            (List.mem_append.mp hslot).elim (h.notSaved slot) (hworld.notSaved slot),
          by rw [undo_append, h.undone, hworld.undone]⟩
      have happlied := undoes_applyRedirections machine knowledge parse fuel hnamed
        (slotsOf tableOf world) []
      refine Triple.bind_intro (Triple.tryCatch_intro _ (happlied.consequence
        (by rintro _ rfl; exact .inl ⟨hworld.free, nofun, rfl⟩)
        (fun _ _ h => h.imp_left fun h => hlater h.1)
        fun _ _ h => h.imp_left hlater) fun failure => ?_) fun applied =>
          undoes_runScope before rest _ fun step hstep => hsteps step (List.mem_cons_of_mem _ hstep)
      exact Triple.bind_intro (restoreSlots_keepsUnless (system_usesTable machine)
        (undoes_invariant first second before) (redirectionFrame_namesEither machine first second)
        saved) fun _ => Triple.throw_intro fun _ => id

/-- What is applied without an error has its effects, from left to right; an error leaves nothing. -/
def AppliedOrUndone (io : FileIO (Members ω D P) D) (host : Host (Members ω D P))
    (redirections : List (Redirection HereDocument)) (world : World (Members ω D P)) : Prop :=
  match exec (applyRedirections io host redirections []) world with
  | (.ok (none, _), world') => EffectOfAll io tableOf host redirections [] world world'
  | (.ok (some _, _), world') | (.error _, world') =>
      slotsOf tableOf world' = slotsOf tableOf world

theorem appliedOrUndone_applyRedirections {redirections : List (Redirection HereDocument)}
    (hnamed : NamesNeither first second redirections) {world : World (Members ω D P)}
    (hfree : TwoFree first second world)
    (hnot : ¬ NamesEither first second (exec (applyRedirections (shellFiles machine)
      (shellHost machine parse (executor machine knowledge parse fuel)) redirections [])
        world).2.outside) :
    AppliedOrUndone (shellFiles machine)
      (shellHost machine parse (executor machine knowledge parse fuel)) redirections world := by
  have hstart : Undoes first second (slotsOf tableOf world) [] world := ⟨hfree, nofun, rfl⟩
  have hsubstitution (source : Text) (line : Nat) : KeepsSlots first second (commandSubstitution
      (shellHost machine parse (executor machine knowledge parse fuel)) source line) :=
    keepsSlots_commandSubstitution machine knowledge parse fuel source line
  have hundone := undoes_applyRedirections machine knowledge parse fuel hnamed
    (slotsOf tableOf world) [] world (.inl hstart)
  have heffect := applyRedirections_effect (system_usesTable machine)
    (undoes_invariant first second (slotsOf tableOf world))
    (redirectionFrame_namesEither machine first second)
    (fun saved start source line => (undoes_at_of_keepsSlots (hsubstitution source line)
      (slotsOf tableOf world) saved start).consequence (fun _ => id) (fun _ _ => id)
      fun _ _ h => h.imp_left And.left)
    (fun source line => (hsubstitution source line).stays) redirections hnamed hstart world rfl
  rw [AppliedOrUndone]
  rcases hrun : exec (applyRedirections (shellFiles machine)
    (shellHost machine parse (executor machine knowledge parse fuel)) redirections []) world with
    ⟨failure | ⟨_ | error, saved⟩, world'⟩ <;> rw [hrun] at hnot
  · rw [hrun] at hundone
    exact (hundone.resolve_right hnot).undone
  · rw [hrun] at heffect
    exact heffect.resolve_right hnot rfl
  · rw [hrun] at hundone
    obtain ⟨hundoes, hnone⟩ := hundone.resolve_right hnot
    have hundone := hundoes.undone
    rwa [show saved = [] from hnone nofun] at hundone

/--
Redirections are undone exactly, by way of two free slots that neither they nor the
redirections of their command substitutions name.  `Apply` succeeds, each redirection
from left to right with its effect, or leaves every slot as it was; and so does a scope,
whatever it applied, when it ends.
-/
theorem redirections_undone {world : World (Members ω D P)} (hfree : TwoFree first second world) :
    (∀ redirections : List (Redirection HereDocument), NamesNeither first second redirections →
      ¬ NamesEither first second (exec (applyRedirections (shellFiles machine)
        (shellHost machine parse (executor machine knowledge parse fuel)) redirections [])
          world).2.outside →
        AppliedOrUndone (shellFiles machine)
          (shellHost machine parse (executor machine knowledge parse fuel)) redirections world) ∧
    ∀ steps : List (ScopeStep (Members ω D P)), (∀ step ∈ steps, step.KeepsSlots first second) →
      let ended := exec (runScope (shellFiles machine)
        (shellHost machine parse (executor machine knowledge parse fuel)) steps []) world
      ¬ NamesEither first second ended.2.outside →
        slotsOf tableOf ended.2 = slotsOf tableOf world := by
  refine ⟨fun redirections hnamed hnot => appliedOrUndone_applyRedirections machine knowledge parse
    fuel hnamed hfree hnot, fun steps hsteps => ?_⟩
  intro ended hnot
  have hended := undoes_runScope machine knowledge parse fuel (slotsOf tableOf world) steps []
    hsteps world (.inl ⟨hfree, nofun, rfl⟩)
  rcases hrun : ended with ⟨failure | _, world'⟩ <;>
    rw [hrun] at hnot <;> (replace hrun : exec _ world = _ := hrun) <;> rw [hrun] at hended
  · exact (hended.resolve_right hnot).undone
  · exact (hended.resolve_right hnot).undone

end

/-! ## A command substitution that fills both of the free slots -/

/-- A shell whose only free slots are 1 and 3. -/
def freeAroundError : World (Members Unit Nat Unit) where
  state := {}
  outside :=
    { files :=
        { descriptors :=
            { slots := some 0 :: none :: some 2 :: none :: List.replicate 1020 (some 3)
              bounded := by
                rw [List.length_cons, List.length_cons, List.length_cons, List.length_cons,
                  List.length_replicate]
                exact Nat.le_refl _ }
          outside := () } }

theorem freeAroundError_twoFree : TwoFree 1 3 freeAroundError where
  ne := by decide
  first := ⟨by decide, rfl⟩
  second := ⟨by decide, rfl⟩

/-- The duplication of slot 2 to slot 5. -/
def duplicateError : Redirection HereDocument :=
  { kind := .dupInput, fd := 5, target := { parts := [.literal (text "2")] } }

theorem duplicateError_undone :
    AppliedOrUndone (shellFiles idleMachine)
        (shellHost idleMachine (fun _ _ _ => {}) (executor idleMachine idleKnowledge
          (fun _ _ _ => {}) 1)) [duplicateError] freeAroundError ∧
      slotsOf tableOf (exec (runScope (shellFiles idleMachine)
        (shellHost idleMachine (fun _ _ _ => {}) (executor idleMachine idleKnowledge
          (fun _ _ _ => {}) 1)) [.apply [duplicateError], .apply [duplicateError]] [])
            freeAroundError).2 = slotsOf tableOf freeAroundError := by
  have hnamed : NamesNeither 1 3 [duplicateError] := by
    intro redirection hredirection fd hfd
    rw [List.mem_singleton.mp hredirection] at hfd
    rw [List.mem_singleton.mp hfd]
    decide
  have hundone := redirections_undone idleMachine idleKnowledge (fun _ _ _ => {}) 1
    freeAroundError_twoFree
  have hsteps : ∀ step ∈ [.apply [duplicateError], .apply [duplicateError]],
      ScopeStep.KeepsSlots (ω := Unit) (D := Nat) (P := Unit) 1 3 step := by
    intro step hstep
    rcases List.mem_pair.mp hstep with rfl | rfl
    · exact hnamed
    · exact hnamed
  refine ⟨hundone.1 _ hnamed ?_, hundone.2 _ hsteps ?_⟩
  · rw [NamesEither]
    decide +kernel
  · rw [NamesEither]
    decide +kernel

/-- A redirection of slot 5 to what the command substitution writes. -/
def inputSubstituted (source : Text) : Redirection HereDocument :=
  { kind := .input, fd := 5, target := { parts := [.commandSubstitution source false 1] } }

theorem slotsOf_inputSubstituted (parse : ParseText) (inner : Inner Unit Nat Unit) (source : Text)
    (world : World (Members Unit Nat Unit)) :
    (exec (applyRedirections (shellFiles idleMachine) (shellHost idleMachine parse inner)
      [inputSubstituted source] []) world).2.outside =
      (exec (runCommandSubstitution idleMachine parse inner source 1) world).2.outside := by
  rw [← commandSubstitution_outside idleMachine parse inner source 1 world]
  rw [applyRedirections, applyOne, inputSubstituted, expandToString, expandToKind, walkWord,
    walkWordInto, walkPart]
  rcases hrun : exec (commandSubstitution (shellHost idleMachine parse inner) source 1) world with
    ⟨failure | output, world'⟩
  · simp only [exec_bind, exec_tryCatch, hrun]
    rfl
  · simp only [exec_bind, exec_tryCatch, hrun, walkWordInto]
    rfl

def substitutionStarted (world : World (Members ω D P)) : World (Members ω D P) :=
  { world with
    outside :=
      { world.outside with
        substitutionCount := world.outside.substitutionCount + 1
        startInsteadOfWait := none } }

theorem files_runCommandSubstitution {parse : ParseText} (inner : Inner Unit Nat Unit)
    {source : Text} {line : Nat} {items : CommandList HereDocument Text}
    (hparse : parse false source line = { commands := [items] })
    (world : World (Members Unit Nat Unit)) :
    (exec (runCommandSubstitution idleMachine parse inner source line) world).2.outside.files =
      (exec (runSubshell idleMachine
        ((SubshellBody.substitution items 1025).run idleMachine inner))
        (substitutionStarted world)).2.outside.files := by
  have hset (f : Members Unit Nat Unit → Members Unit Nat Unit)
      (world : World (Members Unit Nat Unit)) :
      exec (modifyMembers f) world = (.ok (), ⟨world.state, f world.outside⟩) := rfl
  have hends (world : World (Members Unit Nat Unit)) :
      exec (perform (Members.onOutside idleMachine.createUnboundedPipe) : Sh Unit Nat Unit _) world =
        (.ok (1024, 1025), world) := rfl
  have hread (m : Sh Unit Nat Unit Int) (world : World (Members Unit Nat Unit)) :
      (exec (do
        let status ← m
        pure ({ output := ← readOutput idleMachine 1024, exitStatus := status } :
          CommandSubstitutionResult)) world).2 = (exec m world).2 := by
    rw [exec_bind]
    rcases exec m world with ⟨failure | status, ended⟩
    · rfl
    · rfl
  rw [runCommandSubstitution, exec_bind_ok (hset _ _), hparse]
  dsimp only
  rw [List.flatten_singleton, exec_bind_ok (hends _), hread, exec_withStartInsteadOfWait,
    substitutionStarted]

/-- Commands that fill slot 3, and make slot 0 what slot 2 is. -/
def fillsSlot : CommandList HereDocument Text :=
  execDuplicate (text "2") 3 ++ execDuplicate (text "2") 0

def parseFillsSlot : ParseText := fun _ _ _ => { commands := [fillsSlot] }

/--
No redirection names the two free slots but those of the command substitution, whose
output is in one of them.  With the other filled slot 0 is not put back: the redirection
fails, and slot 0 is another's.  The write end is let go of, so that the shell does not
wait for more output.
-/
theorem failedRedirection_leavesTrace :
    TwoFree 1 3 freeAroundError ∧ NamesNeither 1 3 [inputSubstituted (text "fill")] ∧
      slotsOf tableOf freeAroundError 0 = some 0 ∧
      let ended := (exec (applyRedirections (shellFiles idleMachine)
        (shellHost idleMachine parseFillsSlot
          (executor idleMachine idleKnowledge parseFillsSlot 3))
        [inputSubstituted (text "fill")] []) freeAroundError).2
      slotsOf tableOf ended 0 = some 2 ∧ ∀ fd, slotsOf tableOf ended fd ≠ some 1025 := by
  have hnamed : NamesNeither 1 3 [inputSubstituted (text "fill")] := by
    intro redirection hredirection fd hfd
    rw [List.mem_singleton.mp hredirection] at hfd
    rw [List.mem_singleton.mp hfd]
    decide
  refine ⟨freeAroundError_twoFree, hnamed, rfl, ?_⟩
  have hended : (tableOf (exec ((SubshellBody.substitution fillsSlot 1025).run idleMachine
      (executor idleMachine idleKnowledge parseFillsSlot 3))
        (subshellWorld (substitutionStarted freeAroundError))).2.outside).slots =
      some 2 :: some 1025 :: some 2 :: some 2 :: List.replicate 1020 (some 3) := by
    decide +kernel
  have hheld : ∀ fd < kMaxDescriptors, ∃ descriptor, slotsOf tableOf (exec
      ((SubshellBody.substitution fillsSlot 1025).run idleMachine
        (executor idleMachine idleKnowledge parseFillsSlot 3))
          (subshellWorld (substitutionStarted freeAroundError))).2 fd = some descriptor ∧
      (fd ≠ 1 → descriptor ≠ 1025) := by
    intro fd hlt
    rw [slotsOf, DescriptorTable.getDescriptor, hended]
    rw [kMaxDescriptors] at hlt
    rcases fd with _ | _ | _ | _ | fd
    · exact ⟨2, rfl, by decide⟩
    · exact ⟨1025, rfl, by decide⟩
    · exact ⟨2, rfl, by decide⟩
    · exact ⟨2, rfl, by decide⟩
    · refine ⟨3, ?_, fun _ => by decide⟩
      simp only [List.getElem?_cons_succ, List.getElem?_replicate]
      rw [if_pos (by omega)]
      rfl
  have hbefore (fd : Nat) :
      slotsOf tableOf (substitutionStarted freeAroundError) fd ≠ some 1025 := by
    rw [slotsOf]
    rcases fd with _ | _ | _ | _ | fd
    · decide
    · decide
    · decide
    · decide
    · change ((List.replicate 1020 (some 3))[fd]?).join ≠ some 1025
      rw [List.getElem?_replicate]
      split_ifs <;> simp
  obtain ⟨files, liveChildren, brokenPipe, hrun, hfree, -, hstays, -, hends⟩ :=
    exec_runSubshell idleMachine ((SubshellBody.substitution fillsSlot 1025).run idleMachine
      (executor idleMachine idleKnowledge parseFillsSlot 3)) (substitutionStarted freeAroundError)
  have hfull : ∀ fd < kMaxDescriptors, slotsOf tableOf (exec
      ((SubshellBody.substitution fillsSlot 1025).run idleMachine
        (executor idleMachine idleKnowledge parseFillsSlot 3))
          (subshellWorld (substitutionStarted freeAroundError))).2 fd ≠ none := by
    intro fd hlt
    obtain ⟨descriptor, hheld, -⟩ := hheld fd hlt
    rw [hheld]
    exact Option.some_ne_none _
  have hslots : slotsOf tableOf (exec (applyRedirections (shellFiles idleMachine)
      (shellHost idleMachine parseFillsSlot (executor idleMachine idleKnowledge parseFillsSlot 3))
      [inputSubstituted (text "fill")] []) freeAroundError).2 = files.descriptors.getDescriptor := by
    have hparse : parseFillsSlot false (text "fill") 1 = { commands := [fillsSlot] } := rfl
    rw [slotsOf, tableOf, slotsOf_inputSubstituted, files_runCommandSubstitution _ hparse, hrun]
  dsimp only
  rw [hslots]
  refine ⟨(hstays hfull (Option.some_ne_none _)).trans ?_, fun fd => ?_⟩
  · rw [slotsOf, DescriptorTable.getDescriptor, hended]
    rfl
  · by_cases hone : fd = 1
    · subst hone
      rw [hfree 1 ⟨by decide, rfl⟩]
      exact (Option.some_ne_none _).symm
    rcases hends fd with hends | hends
    · rw [hends]
      by_cases hlt : fd < kMaxDescriptors
      · obtain ⟨descriptor, hheld, hne⟩ := hheld fd hlt
        rw [hheld]
        exact fun heq => hne hone (Option.some.inj heq)
      · rw [slotsOf, DescriptorTable.getDescriptor_of_le (Nat.le_of_not_lt hlt)]
        exact (Option.some_ne_none _).symm
    · rw [hends]
      exact hbefore fd

end Haisos.Hsh.Shell
