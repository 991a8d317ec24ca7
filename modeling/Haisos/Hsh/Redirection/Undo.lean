import Haisos.Hsh.Redirection.Frame
import Haisos.Hsh.Redirection.Slots

/-!
# Redirections are undone

What `ApplyOne` does, told by the slots that it changes and by what it saves.
-/

namespace Haisos.Hsh

open StateExcept

variable {ω D : Type}

section

variable {table : ω → DescriptorTable D} {free : Nat → Prop}
  {J : SavedSlots D → World ω → Prop}

/-- What a part of `ApplyOne` comes to: an error, or its effect on the slots. -/
def Applies (table : ω → DescriptorTable D) (J : SavedSlots D → World ω → Prop)
    (saved : SavedSlots D) (m : Walk ω (Applied D)) (world : World ω)
    (effect : (Nat → Option D) → (Nat → Option D) → Prop) : Prop :=
  Triple (· = world) m
    (fun applied world' => J applied.2 world' ∧
      (applied.1 = none → effect (slotsOf table world) (slotsOf table world')))
    fun _ => J saved

theorem Applies.after {saved : SavedSlots D} {α : Type} {m : Walk ω α} {f : α → Walk ω (Applied D)}
    {world world' : World ω} {a : α} {effect : (Nat → Option D) → (Nat → Option D) → Prop}
    (hm : exec m world = (.ok a, world')) (hslots : slotsOf table world' = slotsOf table world)
    (hf : Applies table J saved (f a) world' effect) :
    Applies table J saved (m >>= f) world effect := by
  rw [Applies, hslots] at hf
  exact Triple.at_bind hm hf

theorem Applies.error {saved : SavedSlots D} {world : World ω} {message : Text}
    {effect : (Nat → Option D) → (Nat → Option D) → Prop} (h : J saved world) :
    Applies table J saved (pure (some message, saved)) world effect :=
  Triple.at_pure ⟨h, nofun⟩

theorem Applies.raise {saved : SavedSlots D} {world : World ω} {message : Text}
    {effect : (Nat → Option D) → (Nat → Option D) → Prop} (h : J saved world) :
    Applies table J saved (Hsh.raise message) world effect :=
  Triple.at_throw h

variable {io : FileIO ω D} (hio : io.UsesTable table) (hJ : ScopeInvariant table free J)

include hio hJ

theorem saveSlot_run {fd : Nat} {saved : SavedSlots D} {world : World ω} (hfd : ¬ free fd)
    (h : J saved world) :
    ∃ saved', exec (saveSlot io fd saved) world = (.ok saved', world) ∧ J saved' world ∧
      ∃ slot ∈ saved', slot.1 = fd := by
  refine ⟨_, exec_saveSlot hio fd saved world, ?_⟩
  split_ifs with hsaved
  · refine ⟨h, ?_⟩
    simpa using hsaved
  · exact ⟨hJ.save hfd h, _, List.mem_cons_self, rfl⟩

theorem placeSaved_run {fd : Nat} {saved : SavedSlots D} {world : World ω} (hfd : ¬ free fd)
    (h : J saved world) (hsaved : ∃ slot ∈ saved, slot.1 = fd) (descriptor : Option D) :
    ∃ outside, exec (placeDescriptor io fd descriptor) world =
        (.ok (descriptor.isNone || decide (fd < kMaxDescriptors)), { world with outside }) ∧
      J saved { world with outside } ∧
      slotsOf table { world with outside } = putSlot fd descriptor (slotsOf table world) := by
  obtain ⟨other, -, hfree⟩ := hJ.isFree h
  obtain ⟨outside, hrun, hslots⟩ := exec_placeDescriptor hio hfree fd descriptor
  exact ⟨outside, hrun, hJ.change hfd hsaved hslots h, hslots⟩

theorem saveAndPlace_applies {fd : Nat} {saved : SavedSlots D} {world : World ω}
    (hfd : ¬ free fd) (h : J saved world) (descriptor : D) :
    Applies table J saved (saveAndPlace io fd descriptor saved) world fun slots slots' =>
      fd < kMaxDescriptors ∧ slots' = putSlot fd (some descriptor) slots := by
  obtain ⟨saved', hsave, hsaved, hmem⟩ := saveSlot_run hio hJ hfd h
  obtain ⟨outside, hplace, hplaced, hslots⟩ :=
    placeSaved_run hio hJ hfd hsaved hmem (some descriptor)
  refine Triple.at_bind hsave (Triple.at_bind hplace ?_)
  split
  · rename_i hlt
    exact Triple.at_pure ⟨hplaced, fun _ => ⟨by simpa using hlt, hslots⟩⟩
  · exact Triple.at_pure ⟨hplaced, nofun⟩

theorem openAndPlace_applies {fd : Nat} {saved : SavedSlots D} {world : World ω}
    (hfd : ¬ free fd) (h : J saved world) (target : Text) (mode : OpenMode) (clobberCheck : Bool) :
    Applies table J saved (openAndPlace io fd target mode clobberCheck saved) world
      fun slots slots' => fd < kMaxDescriptors ∧
        Opened io fd mode target world.outside slots slots' := by
  rw [openAndPlace]
  refine Applies.after (exec_getState world) rfl (Applies.after (exec_look _ world) rfl ?_)
  split
  · exact Applies.error h
  · have hopened : slotsOf table { world with outside := (io.openFile target mode world.outside).2 } =
        slotsOf table world := by rw [slotsOf, hio.openFile, slotsOf]
    refine Applies.after (exec_perform _ world) hopened ?_
    split
    · exact Applies.after (exec_look _ _) rfl (Applies.error (hJ.same hopened h))
    · rename_i descriptor hdescriptor
      exact (saveAndPlace_applies hio hJ hfd (hJ.same hopened h) descriptor).consequence (fun _ => id)
        (fun _ _ hdone => ⟨hdone.1, fun hnone =>
          ⟨(hdone.2 hnone).1, descriptor, hdescriptor, (hdone.2 hnone).2⟩⟩) fun _ _ => id

/-- `<`: without the check of `set -C`. -/
theorem input_applies {fd : Nat} {saved : SavedSlots D} {world : World ω}
    (hfd : ¬ free fd) (h : J saved world) (target : Text) :
    Applies table J saved (do
      match ← perform (io.openFile target .readOnly) with
      | none =>
          let reason ← look (openFailureReason io target false)
          pure (some (text "cannot open " ++ target ++ text ": " ++ reason), saved)
      | some descriptor => saveAndPlace io fd descriptor saved) world
      (Opened io fd .readOnly target world.outside) := by
  have hopened : slotsOf table { world with outside := (io.openFile target .readOnly world.outside).2 } =
      slotsOf table world := by rw [slotsOf, hio.openFile, slotsOf]
  refine Applies.after (exec_perform _ world) hopened ?_
  split
  · exact Applies.after (exec_look _ _) rfl (Applies.error (hJ.same hopened h))
  · rename_i descriptor hdescriptor
    exact (saveAndPlace_applies hio hJ hfd (hJ.same hopened h) descriptor).consequence (fun _ => id)
      (fun _ _ hdone => ⟨hdone.1, fun hnone => ⟨descriptor, hdescriptor, (hdone.2 hnone).2⟩⟩)
      fun _ _ => id

omit hJ in
theorem writeAll_slots (descriptor : D) :
    ∀ fuel output, Respects (SameView (slotsOf table)) (writeAll io descriptor fuel output)
  | 0, output => by
      rw [writeAll]
      split
      · exact Respects.pure_intro _
      · exact Respects.throw_intro _
  | fuel + 1, output => by
      rw [writeAll]
      split
      · exact Respects.pure_intro _
      · refine Respects.bind_intro (Respects.modifyGet_intro fun world => ?_) fun result => ?_
        · rw [SameView, slotsOf, hio.write, slotsOf]
        · split
          · exact writeAll_slots descriptor fuel _
          · exact Respects.pure_intro _

theorem pipeInput_applies {fd : Nat} {saved : SavedSlots D} {world : World ω}
    (hfd : ¬ free fd) (h : J saved world) (input : Text) :
    Applies table J saved (pipeInput io fd input saved) world
      (Piped io fd input world.outside) := by
  obtain ⟨saved', hsave, hsaved, hmem⟩ := saveSlot_run hio hJ hfd h
  refine Triple.at_bind hsave ?_
  rcases slotsOf_createPipe hio (max input.length 1) world with
    ⟨hnone, hslots⟩ | ⟨readSlot, writeSlot, readEnd, writeEnd, piped, hpipe, hread, hwrite, hslots⟩
  · refine Triple.at_bind (exec_perform _ world) ?_
    rw [hnone]
    exact Triple.at_pure ⟨hJ.same hslots hsaved, nofun⟩
  · refine Triple.at_bind (exec_perform _ world) ?_
    simp only [hpipe]
    refine Triple.at_bind (exec_look _ _) (Triple.at_bind (exec_look _ _) ?_)
    refine Triple.at_bind (exec_perform _ _) (Triple.at_bind (exec_perform _ _) ?_)
    simp only [hio.getDescriptor, hread, hwrite]
    have hwritten : Triple (fun world' => slotsOf table world' = slotsOf table world)
        (writeAll io writeEnd input.length input)
        (fun _ world' => slotsOf table world' = slotsOf table world) fun _ => J saved :=
      (writeAll_slots hio writeEnd input.length input).triple
        (fun _ _ _ hpre hsame => hsame.trans hpre)
        (fun _ _ _ hpre hsame => hJ.same (hsame.trans hpre) h)
    refine Triple.bind_intro (hwritten.consequence (by rintro _ rfl; exact hslots) (fun _ _ => id)
      fun _ _ => id) fun _ => Triple.of_pre fun world' hworld' => ?_
    obtain ⟨outside, hplace, hplaced, hput⟩ :=
      placeSaved_run hio hJ hfd (hJ.same hworld' hsaved) hmem (some readEnd)
    refine Triple.at_bind hplace ?_
    split
    · exact Triple.at_pure ⟨hplaced, fun _ => ⟨readSlot, writeSlot, readEnd, piped, hpipe,
        by rw [hio.getDescriptor, hread], by rw [hput, hworld']⟩⟩
    · exact Triple.at_pure ⟨hplaced, nofun⟩

theorem duplicate_applies {fd : Nat} {saved : SavedSlots D} {world : World ω}
    (hfd : ¬ free fd) (h : J saved world) (target : Text) :
    Applies table J saved (duplicate io fd target saved) world
      fun slots slots' => Duplicated fd slots target slots' := by
  obtain ⟨saved', hsave, hsaved, hmem⟩ := saveSlot_run hio hJ hfd h
  rw [duplicate.eq_def]
  by_cases hclose : target = ['-']
  · rw [if_pos hclose]
    refine Triple.at_bind hsave (Triple.at_bind (exec_perform _ world) ?_)
    have hclosed := (slotsOf_close hio world fd).trans (putSlot_none world fd).symm
    refine Triple.at_pure ⟨hJ.change hfd hmem hclosed hsaved, fun _ => ?_⟩
    rw [hclose, hclosed]
    exact .close
  rw [if_neg hclose]
  rcases target with _ | ⟨digit, _ | ⟨_, _⟩⟩
  · exact Applies.raise h
  · dsimp only
    split
    · exact Applies.raise h
    rename_i hdigit
    have hnumbers : isDigit digit = true := by simpa using hdigit
    refine Applies.after (exec_look _ world) rfl ?_
    rw [hio.getDescriptor]
    split
    · exact Applies.error h
    rename_i hsource
    have hsome : (slotsOf table world (digit.toNat - '0'.toNat)).isSome := by
      simpa [slotsOf, Option.isSome_iff_ne_none] using hsource
    split
    · rename_i heq
      refine Triple.at_pure ⟨h, fun _ => ?_⟩
      have hcopied : Duplicated fd (slotsOf table world) [digit] _ := .copy hnumbers hsome
      rwa [heq, putSlot_self] at hcopied
    · obtain ⟨-, hdup⟩ := slotsOf_dup2 hio world fd hsome
      refine Triple.at_bind hsave (Triple.at_bind (exec_perform _ world) ?_)
      refine Triple.at_pure ⟨hJ.change hfd hmem hdup hsaved, fun _ => ?_⟩
      rw [hdup]
      exact .copy hnumbers hsome
  · exact Applies.raise h

theorem duplicateToError_applies (fd : Nat) {saved saved' : SavedSlots D} {world : World ω}
    (herror : ¬ free standardError) (h : J saved' world)
    (hfd : (slotsOf table world fd).isSome) :
    Applies table J saved (do
      let saved ← saveSlot io standardError saved'
      let _ ← perform (io.dup2 fd standardError)
      pure (none, saved)) world fun slots slots' =>
        slots' = putSlot standardError (slots fd) slots := by
  obtain ⟨saved'', hsave, hsaved, hmem⟩ := saveSlot_run hio hJ herror h
  obtain ⟨-, hdup⟩ := slotsOf_dup2 hio world standardError hfd
  refine Triple.at_bind hsave (Triple.at_bind (exec_perform _ world) ?_)
  exact Triple.at_pure ⟨hJ.change herror hmem hdup hsaved, fun _ => hdup⟩

/-- `&>`: the file is opened, and standard error is made what it is opened at. -/
theorem outputAndError_applies {fd : Nat} {saved : SavedSlots D} {world : World ω}
    (hfd : ¬ free fd) (herror : ¬ free standardError) (h : J saved world) (target : Text) :
    Applies table J saved (do
      match ← openAndPlace io fd target .writeCreateTruncate true saved with
      | (some error, saved) => pure (some error, saved)
      | (none, saved) => do
          let saved ← saveSlot io standardError saved
          let _ ← perform (io.dup2 fd standardError)
          pure (none, saved)) world
      fun slots slots' => ∃ between,
        Opened io fd .writeCreateTruncate target world.outside slots between ∧
          slots' = putSlot standardError (between fd) between := by
  refine Triple.bind_intro (openAndPlace_applies hio hJ hfd h target _ _) fun applied => ?_
  obtain ⟨_ | error, saved'⟩ := applied
  · refine Triple.of_pre fun world' hworld' => ?_
    obtain ⟨hlt, hopened⟩ := hworld'.2 rfl
    have hput_fd : (slotsOf table world' fd).isSome := by
      obtain ⟨descriptor, -, hput⟩ := hopened
      rw [hput, putSlot, if_pos hlt, Function.update_self]
      rfl
    exact (duplicateToError_applies hio hJ fd herror hworld'.1 hput_fd).consequence (fun _ => id)
      (fun _ _ hdone => ⟨hdone.1, fun hnone => ⟨_, hopened, hdone.2 hnone⟩⟩) fun _ _ => id
  · refine Triple.pure_intro fun _ hdone => ⟨hdone.1, ?_⟩
    rintro ⟨⟩

/-- What is left to show where `doom` holds: that it still does. -/
abbrev StaysDoomed (doom : ω → Prop) {α : Type} (m : Walk ω α) : Prop :=
  Triple (fun world => doom world.outside) m (fun _ world => doom world.outside)
    fun _ world => doom world.outside

/-- `m` keeps the invariant unless something dooms the run, after which nothing is promised. -/
abbrev KeepsUnless (doom : ω → Prop) (pre failed : World ω → Prop) {α : Type} (m : Walk ω α)
    (post : α → World ω → Prop) : Prop :=
  Triple (fun world => pre world ∨ doom world.outside) m
    (fun a world => post a world ∨ doom world.outside)
    fun _ world => failed world ∨ doom world.outside

variable {host : Host ω} {X : (Nat → Option D) → Prop} {doom : ω → Prop}
  (hdoom : RedirectionFrame io fun {_} (m : Walk ω _) => StaysDoomed doom m)

omit hio hJ

theorem Applies.of_expanded {saved : SavedSlots D} {world : World ω} {expand : Walk ω Text}
    {f : Text → Walk ω (Applied D)}
    (effect : Text → ω → (Nat → Option D) → (Nat → Option D) → Prop)
    (h : J saved world ∧ X (slotsOf table world))
    (hexpand : KeepsUnless doom (fun world => J saved world ∧ X (slotsOf table world)) (J saved)
      expand fun _ world => J saved world ∧ X (slotsOf table world))
    (hf : ∀ input expanded, J saved expanded →
      Applies table J saved (f input) expanded (effect input expanded.outside))
    (hdoomed : ∀ input, StaysDoomed doom (f input)) :
    Triple (· = world) (expand >>= f)
      (fun applied world' => (J applied.2 world' ∧ (applied.1 = none → ∃ start, X start ∧
        ∃ input expanded, exec expand world = (.ok input, expanded) ∧
          effect input expanded.outside start (slotsOf table world'))) ∨ doom world'.outside)
      fun _ world' => J saved world' ∨ doom world'.outside := by
  refine Triple.bind_intro (hexpand.at_state (.inl h)).with_run fun input => ?_
  refine Triple.of_pre fun expanded hexpanded => ?_
  obtain ⟨hrun, ⟨hkept, hslots⟩ | hdoomed'⟩ := hexpanded
  · exact (hf input expanded hkept).consequence (fun _ => id)
      (fun applied world' hdone => .inl ⟨hdone.1, fun hnone =>
        ⟨_, hslots, input, expanded, hrun, hdone.2 hnone⟩⟩) fun _ _ => .inl
  · exact (hdoomed input).consequence (by rintro _ rfl; exact hdoomed') (fun _ _ => .inr)
      fun _ _ => .inr

include hio hJ

variable (hhost : ∀ saved source line,
    KeepsUnless doom (fun world => J saved world ∧ X (slotsOf table world)) (J saved)
      (commandSubstitution host source line)
      fun _ world => J saved world ∧ X (slotsOf table world))

omit hio in
theorem expansionFrame_of_scope (saved : SavedSlots D) :
    ExpansionFrame fun {_} (m : Walk ω _) =>
      KeepsUnless doom (fun world => J saved world ∧ X (slotsOf table world)) (J saved) m
        fun _ world => J saved world ∧ X (slotsOf table world) := by
  refine expansionFrame_of_outside (fun world world' hsame h => ?_)
    fun _ h => h.imp_left And.left
  rw [hsame]
  refine h.imp_left fun h => ?_
  have hslots : slotsOf table world' = slotsOf table world := by rw [slotsOf, hsame, slotsOf]
  exact ⟨hJ.same hslots h.1, hslots ▸ h.2⟩

include hhost

omit hio in
theorem redirectionInput_keeps (redirection : Redirection HereDocument) (saved : SavedSlots D) :
    KeepsUnless doom (fun world => J saved world ∧ X (slotsOf table world)) (J saved)
      (redirectionInput host redirection)
      fun _ world => J saved world ∧ X (slotsOf table world) := by
  have hframe : ExpansionFrame fun {_} (m : Walk ω _) =>
      KeepsUnless doom (fun world => J saved world ∧ X (slotsOf table world)) (J saved) m
        fun _ world => J saved world ∧ X (slotsOf table world) := expansionFrame_of_scope hJ saved
  rw [redirectionInput]
  split
  · rw [hereDocBody]
    split
    · exact hframe.expandHereDocument fun _ _ => hhost saved
    · exact Triple.pure_intro fun _ h => h
  · exact hframe.expandToKind .string fun _ => hhost saved

include hdoom

/-- A redirection applied: what was saved undoes it, and if it succeeded it had its effect. -/
theorem applyOne_triple (redirection : Redirection HereDocument) {saved : SavedSlots D}
    (hnamed : ∀ fd ∈ namedSlots redirection, ¬ free fd) {world : World ω}
    (h : J saved world ∧ X (slotsOf table world)) :
    Triple (· = world) (applyOne io host redirection saved)
      (fun applied world' => (J applied.2 world' ∧ (applied.1 = none → ∃ start, X start ∧
        redirection.Effect io host world start (slotsOf table world'))) ∨ doom world'.outside)
      fun _ world' => J saved world' ∨ doom world'.outside := by
  have hfd : ¬ free redirection.fd := hnamed _ (fd_mem_namedSlots redirection)
  have hinput := redirectionInput_keeps hJ hhost redirection saved
  rw [applyOne]
  cases hkind : redirection.kind with
  | input =>
      simp only [Redirection.Effect, Redirection.EffectOn, redirectionInput, hkind] at hinput ⊢
      refine Applies.of_expanded (Opened io redirection.fd .readOnly) h hinput
        (fun target _ hkept => input_applies hio hJ hfd hkept target) fun target => ?_
      refine hdoom.bind (hdoom.openFile target _) fun opened => ?_
      split
      · exact hdoom.bind (hdoom.look _) fun _ => hdoom.pure _
      · exact hdoom.saveAndPlace _ _ saved
  | output | outputClobber | append | readWrite =>
      simp only [Redirection.Effect, Redirection.EffectOn, redirectionInput, hkind] at hinput ⊢
      refine Applies.of_expanded (Opened io redirection.fd _) h hinput
        (fun target _ hkept => ?_) fun target => hdoom.openAndPlace _ target _ _ saved
      exact (openAndPlace_applies hio hJ hfd hkept target _ _).consequence (fun _ => id)
        (fun _ _ hdone => ⟨hdone.1, fun hnone => (hdone.2 hnone).2⟩) fun _ _ => id
  | hereString =>
      simp only [Redirection.Effect, Redirection.EffectOn, redirectionInput, hkind] at hinput ⊢
      exact Applies.of_expanded (fun input => Piped io redirection.fd (input ++ ['\n'])) h hinput
        (fun _ _ hkept => pipeInput_applies hio hJ hfd hkept _)
        fun _ => hdoom.pipeInput _ _ saved
  | hereDoc =>
      simp only [Redirection.Effect, Redirection.EffectOn, redirectionInput, hkind] at hinput ⊢
      exact Applies.of_expanded (Piped io redirection.fd) h hinput
        (fun _ _ hkept => pipeInput_applies hio hJ hfd hkept _)
        fun _ => hdoom.pipeInput _ _ saved
  | dupInput | dupOutput =>
      simp only [Redirection.Effect, Redirection.EffectOn, redirectionInput, hkind] at hinput ⊢
      exact Applies.of_expanded
        (fun target _ slots slots' => Duplicated redirection.fd slots target slots') h hinput
        (fun target _ hkept => duplicate_applies hio hJ hfd hkept target)
        fun target => hdoom.duplicate _ target saved
  | outputAndError =>
      have herror : ¬ free standardError := hnamed _ (by rw [namedSlots, hkind]; simp)
      simp only [Redirection.Effect, Redirection.EffectOn, redirectionInput, hkind] at hinput ⊢
      refine Applies.of_expanded
        (fun target outside slots slots' => ∃ between,
          Opened io redirection.fd .writeCreateTruncate target outside slots between ∧
            slots' = putSlot standardError (between redirection.fd) between) h hinput
        (fun target _ hkept => outputAndError_applies hio hJ hfd herror hkept target) fun target => ?_
      refine hdoom.bind (hdoom.openAndPlace _ target _ _ saved) fun applied => ?_
      obtain ⟨_ | error, saved'⟩ := applied
      · refine hdoom.bind (hdoom.saveSlot _ saved') fun _ => ?_
        exact hdoom.bind (hdoom.dup2 _ _) fun _ => hdoom.pure _
      · exact hdoom.pure _

end

/-! ## All the redirections of a command -/

section

variable {io : FileIO ω D} {table : ω → DescriptorTable D} (hio : io.UsesTable table)
  {free : Nat → Prop} {J : SavedSlots D → World ω → Prop} (hJ : ScopeInvariant table free J)
  {host : Host ω} {doom : ω → Prop}
  (hdoom : RedirectionFrame io fun {_} (m : Walk ω _) => StaysDoomed doom m)

include hio hJ

theorem restoreSlots_triple (saved : SavedSlots D) {failed : Failure → World ω → Prop} :
    Triple (J saved) (restoreSlots io saved) (fun _ => J []) failed := by
  intro world h
  obtain ⟨fd, hfd, hfree⟩ := hJ.isFree h
  obtain ⟨outside, hrun, hslots⟩ := exec_restoreSlots hio hfree fun slot hslot heq =>
    hJ.saved h slot hslot (heq ▸ hfd)
  rw [hrun]
  exact hJ.undone hslots h

include hdoom

theorem restoreSlots_keepsUnless (saved : SavedSlots D) :
    KeepsUnless doom (J saved) (J []) (restoreSlots io saved) fun _ => J [] :=
  Triple.or_intro (restoreSlots_triple hio hJ saved) (hdoom.restoreSlots saved)

/-- Redirections applied: what failed is undone, and what is saved undoes what succeeded. -/
theorem applyRedirections_triple
    (hhost : ∀ saved source line,
      KeepsUnless doom (J saved) (J saved) (commandSubstitution host source line)
        fun _ => J saved)
    (hstays : ∀ source line, StaysDoomed doom (commandSubstitution host source line)) :
    ∀ (redirections : List (Redirection HereDocument)),
      (∀ redirection ∈ redirections, ∀ fd ∈ namedSlots redirection, ¬ free fd) →
      ∀ saved, KeepsUnless doom (J saved) (J []) (applyRedirections io host redirections saved)
        fun applied world => J applied.2 world ∧ (applied.1 ≠ none → applied.2 = [])
  | [], _, saved => Triple.pure_intro fun _ h => h.imp_left fun h => ⟨h, fun hne => absurd rfl hne⟩
  | redirection :: rest, hnamed, saved => by
      have hone : KeepsUnless doom (J saved) (J saved) (applyOne io host redirection saved)
          fun applied => J applied.2 := by
        refine Triple.of_pre fun world hworld => ?_
        rcases hworld with hworld | hdoomed
        · exact (applyOne_triple hio hJ hdoom (X := fun _ => True)
            (fun saved source line => (hhost saved source line).consequence
              (fun _ h => h.imp_left And.left) (fun _ _ h => h.imp_left fun h => ⟨h, trivial⟩)
              fun _ _ => id)
            redirection (hnamed redirection List.mem_cons_self) ⟨hworld, trivial⟩).consequence
            (fun _ => id) (fun _ _ h => h.imp_left And.left) fun _ _ => id
        · exact ((hdoom.applyOne (fun _ => hstays) saved).at_state hdoomed).consequence
            (fun _ => id) (fun _ _ => .inr) fun _ _ => .inr
      rw [applyRedirections]
      refine Triple.bind_intro (Triple.tryCatch_intro
        (fun _ world => J saved world ∨ doom world.outside) hone
        fun failure => ?_) fun applied => ?_
      · exact Triple.bind_intro (restoreSlots_keepsUnless hio hJ hdoom saved) fun _ =>
          Triple.throw_intro fun _ => id
      · obtain ⟨_ | error, saved'⟩ := applied
        · exact applyRedirections_triple hhost hstays rest
            (fun other hother => hnamed other (List.mem_cons_of_mem _ hother)) saved'
        · exact Triple.bind_intro (restoreSlots_keepsUnless hio hJ hdoom saved') fun _ =>
            Triple.pure_intro fun _ h => h.imp_left fun h => ⟨h, fun _ => rfl⟩

theorem applyRedirections_effect
    (hhost : ∀ saved start source line,
      KeepsUnless doom (fun world => J saved world ∧ slotsOf table world = start) (J saved)
        (commandSubstitution host source line)
        fun _ world => J saved world ∧ slotsOf table world = start)
    (hstays : ∀ source line, StaysDoomed doom (commandSubstitution host source line)) :
    ∀ (redirections : List (Redirection HereDocument)),
      (∀ redirection ∈ redirections, ∀ fd ∈ namedSlots redirection, ¬ free fd) →
      ∀ {saved world}, J saved world →
        Triple (· = world) (applyRedirections io host redirections saved)
          (fun applied world' => (applied.1 = none →
            EffectOfAll io table host redirections saved world world') ∨ doom world'.outside)
          fun _ _ => True := by
  intro redirections
  induction redirections with
  | nil => exact fun _ _ _ _ => Triple.at_pure (.inl fun _ => rfl)
  | cons redirection rest ih =>
      intro hnamed saved world h
      rw [applyRedirections]
      refine Triple.bind_intro (Triple.tryCatch_intro
        (fun _ world => J saved world ∨ doom world.outside)
        (applyOne_triple hio hJ hdoom (X := (· = slotsOf table world))
          (fun saved source line => hhost saved _ source line) redirection
          (hnamed redirection List.mem_cons_self) ⟨h, rfl⟩).with_run
        fun failure => ?_) fun applied => ?_
      · exact Triple.bind_intro ((restoreSlots_keepsUnless hio hJ hdoom saved).consequence
          (fun _ => id) (fun _ _ => id) fun _ _ _ => trivial) fun _ => Triple.throw_intro fun _ _ => trivial
      refine Triple.of_pre fun between hbetween => ?_
      obtain ⟨hrun, hbetween⟩ := hbetween
      obtain ⟨_ | error, saved'⟩ := applied
      · rcases hbetween with ⟨hkept, heffect⟩ | hdoomed
        · obtain ⟨_, rfl, heffect⟩ := heffect rfl
          exact (ih (fun other hother => hnamed other (List.mem_cons_of_mem _ hother))
            hkept).consequence (fun _ => id) (fun _ _ hrest => hrest.imp_left fun hrest hnone =>
              ⟨saved', between, hrun, heffect, hrest hnone⟩) fun _ _ => id
        · -- A doomed run is followed to its end from where it is doomed.
          exact ((hdoom.applyRedirections rest (fun _ => hstays) saved').at_state hdoomed).consequence
            (fun _ => id) (fun _ _ => .inr) fun _ _ _ => trivial
      · exact Triple.bind_intro (((restoreSlots_keepsUnless hio hJ hdoom saved').at_state
          (hbetween.imp_left And.left)).consequence (fun _ => id) (fun _ _ => id)
            fun _ _ _ => trivial) fun _ =>
              Triple.pure_intro fun _ _ => .inl fun hnone => absurd hnone (Option.some_ne_none error)

end

end Haisos.Hsh
