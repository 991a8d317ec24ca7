import Haisos.DescriptorTable
import Haisos.Hsh.Redirection

/-!
# Redirections and the slots of the table

A descriptor is placed by way of the lowest free slot, which is free again
afterwards.  What a scope has saved is undone from the latest change on.
-/

namespace Haisos.Hsh

open StateExcept

variable {ω D : Type}

/-- The descriptor operations of `io` are those of the table that `table` sees. -/
structure FileIO.UsesTable (io : FileIO ω D) (table : ω → DescriptorTable D) : Prop where
  getDescriptor : ∀ fd outside, io.getDescriptor fd outside = (table outside).getDescriptor fd
  addDescriptor : ∀ descriptor outside,
    ∃ outside', io.addDescriptor descriptor outside =
        (((table outside).addDescriptor descriptor).1, outside') ∧
      table outside' = ((table outside).addDescriptor descriptor).2
  dup2 : ∀ oldFd newFd outside,
    ∃ outside', io.dup2 oldFd newFd outside = (((table outside).dup2 oldFd newFd).1, outside') ∧
      table outside' = ((table outside).dup2 oldFd newFd).2
  closeDescriptor : ∀ fd outside,
    table (io.closeDescriptor fd outside) = (table outside).closeDescriptor fd
  createPipe : ∀ capacity outside, ∃ outside',
    (io.createPipe capacity outside = (none, outside') ∧ table outside' = table outside) ∨
      ∃ readEnd writeEnd,
        io.createPipe capacity outside =
          (((table outside).createPipe readEnd writeEnd).1, outside') ∧
        table outside' = ((table outside).createPipe readEnd writeEnd).2
  openFile : ∀ path mode outside, table (io.openFile path mode outside).2 = table outside
  write : ∀ descriptor output outside, table (io.write descriptor output outside).2 = table outside
  changeDirectory : ∀ path outside, table (io.changeDirectory path outside) = table outside

/-! ## Files that are a part of something larger -/

namespace FileIO

/-- `io` on a part of what is outside. -/
def within {ω' : Type} (io : FileIO ω D) (part : ω' → ω)
    (put : ω → ω' → ω') : FileIO ω' D where
  openFile path mode whole :=
    let opened := io.openFile path mode (part whole)
    (opened.1, put opened.2 whole)
  stat path whole := io.stat path (part whole)
  resolvePath path whole := io.resolvePath path (part whole)
  getDescriptor fd whole := io.getDescriptor fd (part whole)
  addDescriptor descriptor whole :=
    let added := io.addDescriptor descriptor (part whole)
    (added.1, put added.2 whole)
  dup2 oldFd newFd whole :=
    let duplicated := io.dup2 oldFd newFd (part whole)
    (duplicated.1, put duplicated.2 whole)
  closeDescriptor fd whole := put (io.closeDescriptor fd (part whole)) whole
  createPipe capacity whole :=
    let piped := io.createPipe capacity (part whole)
    (piped.1, put piped.2 whole)
  write descriptor output whole :=
    let written := io.write descriptor output (part whole)
    (written.1, put written.2 whole)
  getCurrentDirectory whole := io.getCurrentDirectory (part whole)
  changeDirectory path whole := put (io.changeDirectory path (part whole)) whole

theorem usesTable_within {ω' : Type} {io : FileIO ω D} {table : ω → DescriptorTable D}
    (hio : io.UsesTable table) {part : ω' → ω} {put : ω → ω' → ω'}
    (hput : ∀ inner whole, part (put inner whole) = inner) :
    (io.within part put).UsesTable fun whole => table (part whole) where
  getDescriptor fd whole := hio.getDescriptor fd (part whole)
  addDescriptor descriptor whole := by
    obtain ⟨inner, hrun, htable⟩ := hio.addDescriptor descriptor (part whole)
    exact ⟨put inner whole, by simp only [within, hrun], by rw [hput, htable]⟩
  dup2 oldFd newFd whole := by
    obtain ⟨inner, hrun, htable⟩ := hio.dup2 oldFd newFd (part whole)
    exact ⟨put inner whole, by simp only [within, hrun], by rw [hput, htable]⟩
  closeDescriptor fd whole := by
    simp only [within, hput]
    exact hio.closeDescriptor fd (part whole)
  createPipe capacity whole := by
    obtain ⟨inner, ⟨hrun, htable⟩ | ⟨readEnd, writeEnd, hrun, htable⟩⟩ :=
      hio.createPipe capacity (part whole)
    · exact ⟨put inner whole, .inl ⟨by simp only [within, hrun], by rw [hput, htable]⟩⟩
    · exact ⟨put inner whole, .inr
        ⟨readEnd, writeEnd, by simp only [within, hrun], by rw [hput, htable]⟩⟩
  openFile path mode whole := by
    simp only [within, hput]
    exact hio.openFile path mode (part whole)
  write descriptor output whole := by
    simp only [within, hput]
    exact hio.write descriptor output (part whole)
  changeDirectory path whole := by
    simp only [within, hput]
    exact hio.changeDirectory path (part whole)

end FileIO

/-! ## Runs of the operations -/

@[simp] theorem exec_perform {α : Type} (f : ω → α × ω) (world : World ω) :
    exec (perform f) world =
      (.ok (f world.outside).1, { world with outside := (f world.outside).2 }) := rfl

@[simp] theorem exec_look {α : Type} (f : ω → α) (world : World ω) :
    exec (look f) world = (.ok (f world.outside), world) := rfl

@[simp] theorem exec_raise {α : Type} (message : Text) (world : World ω) :
    exec (raise message : Walk ω α) world = (.error (.shellError { message }), world) := rfl

section

variable (table : ω → DescriptorTable D)

/-- What the slots hold. -/
def slotsOf (world : World ω) : Nat → Option D := (table world.outside).getDescriptor

/-- A free slot of the table. -/
structure IsFree (free : Nat) (world : World ω) : Prop where
  lt : free < kMaxDescriptors
  empty : slotsOf table world free = none

end

theorem IsFree.of_slots {table : ω → DescriptorTable D} {free : Nat} {world world' : World ω}
    (h : slotsOf table world' = slotsOf table world) (hfree : IsFree table free world) :
    IsFree table free world' := ⟨hfree.lt, (congrFun h free).trans hfree.empty⟩

/-- Slot `fd` filled, or emptied; there are no slots beyond the table's. -/
def putSlot (fd : Nat) (descriptor : Option D) (slots : Nat → Option D) : Nat → Option D :=
  if fd < kMaxDescriptors then Function.update slots fd descriptor else slots

theorem putSlot_of_ne {fd other : Nat} {descriptor : Option D} {slots : Nat → Option D}
    (h : other ≠ fd) : putSlot fd descriptor slots other = slots other := by
  rw [putSlot]
  split_ifs
  · exact Function.update_of_ne h _ _
  · rfl

theorem putSlot_idem (fd : Nat) (before after : Option D) (slots : Nat → Option D) :
    putSlot fd after (putSlot fd before slots) = putSlot fd after slots := by
  rw [putSlot, putSlot, putSlot]
  split_ifs
  · exact Function.update_idem _ _ _
  · rfl

theorem putSlot_self (fd : Nat) (slots : Nat → Option D) : putSlot fd (slots fd) slots = slots := by
  rw [putSlot]
  split_ifs
  · exact Function.update_eq_self fd slots
  · rfl

theorem putSlot_comm {fd fd' : Nat} (h : fd ≠ fd') (descriptor descriptor' : Option D)
    (slots : Nat → Option D) :
    putSlot fd descriptor (putSlot fd' descriptor' slots) =
      putSlot fd' descriptor' (putSlot fd descriptor slots) := by
  rw [putSlot, putSlot, putSlot, putSlot]
  split_ifs
  · exact Function.update_comm h.symm _ _ _
  all_goals rfl

section

variable {io : FileIO ω D} {table : ω → DescriptorTable D} (hio : io.UsesTable table)

include hio

theorem slotsOf_close (world : World ω) (fd : Nat) :
    slotsOf table { world with outside := io.closeDescriptor fd world.outside } =
      Function.update (slotsOf table world) fd none := by
  rw [slotsOf, hio.closeDescriptor, DescriptorTable.getDescriptor_closeDescriptor, slotsOf]

omit hio in
theorem putSlot_none (world : World ω) (fd : Nat) :
    putSlot fd none (slotsOf table world) = Function.update (slotsOf table world) fd none := by
  rw [putSlot]
  split_ifs with h
  · rfl
  · rw [slotsOf, eq_comm, Function.update_eq_self_iff,
      DescriptorTable.getDescriptor_of_le (Nat.le_of_not_lt h)]

theorem slotsOf_dup2 (world : World ω) {oldFd : Nat} (newFd : Nat)
    (h : (slotsOf table world oldFd).isSome) :
    (io.dup2 oldFd newFd world.outside).1 = decide (newFd < kMaxDescriptors) ∧
      slotsOf table { world with outside := (io.dup2 oldFd newFd world.outside).2 } =
        putSlot newFd (slotsOf table world oldFd) (slotsOf table world) := by
  obtain ⟨outside', hdup, htable⟩ := hio.dup2 oldFd newFd world.outside
  rw [slotsOf] at h
  rw [hdup]
  refine ⟨DescriptorTable.dup2_eq_true h, ?_⟩
  simp only [slotsOf, htable, DescriptorTable.getDescriptor_dup2, h, true_and, putSlot]

theorem exec_placeDescriptor {free : Nat} {world : World ω} (hfree : IsFree table free world)
    (fd : Nat) (descriptor : Option D) :
    ∃ outside, exec (placeDescriptor io fd descriptor) world =
        (.ok (descriptor.isNone || decide (fd < kMaxDescriptors)), { world with outside }) ∧
      slotsOf table { world with outside } = putSlot fd descriptor (slotsOf table world) := by
  rcases descriptor with _ | descriptor
  · exact ⟨_, rfl, by rw [putSlot_none, slotsOf_close hio]⟩
  obtain ⟨slot, hslot, hempty, hlt, hadded⟩ :=
    DescriptorTable.addDescriptor_of_free descriptor hfree.lt hfree.empty
  obtain ⟨outside, hadd, htable⟩ := hio.addDescriptor descriptor world.outside
  rw [hslot] at hadd
  set added : World ω := { world with outside } with hworld
  have hslots : slotsOf table added = putSlot slot (some descriptor) (slotsOf table world) := by
    rw [putSlot, if_pos hlt, slotsOf, hworld, htable, hadded]
    rfl
  have hexec : exec (placeDescriptor io fd (some descriptor)) world =
      exec (if slot = fd then pure true
        else do
          let placed ← perform (io.dup2 slot fd)
          perform fun outside => ((), io.closeDescriptor slot outside)
          pure placed : Walk ω Bool) added := by
    rw [placeDescriptor, exec_bind, exec_perform, hadd]
  rw [hexec]
  by_cases heq : slot = fd
  · subst heq
    rw [if_pos rfl]
    exact ⟨outside, by simp [hlt, hworld], hslots⟩
  · rw [if_neg heq]
    have hsome : slotsOf table added slot = some descriptor := by
      rw [hslots, putSlot, if_pos hlt, Function.update_self]
    obtain ⟨hplaced, hdup⟩ := slotsOf_dup2 hio added fd (by rw [hsome]; rfl)
    refine ⟨io.closeDescriptor slot (io.dup2 slot fd outside).2, ?_, ?_⟩
    · simp only [exec_bind, exec_perform, exec_pure, hworld] at hplaced ⊢
      rw [hplaced]
      simp
    · have hclose := slotsOf_close hio
        { world with outside := (io.dup2 slot fd outside).2 } slot
      rw [hclose, ← putSlot_none,
        show slotsOf table { world with outside := (io.dup2 slot fd outside).2 } = _ from hdup,
        hsome, hslots, putSlot_comm heq, putSlot_idem]
      congr 1
      rw [show (none : Option D) = slotsOf table world slot from hempty.symm, putSlot_self]

end

theorem slotsOf_createPipe {io : FileIO ω D} {table : ω → DescriptorTable D}
    (hio : io.UsesTable table) (capacity : Nat) (world : World ω) :
    ((io.createPipe capacity world.outside).1 = none ∧
        slotsOf table { world with outside := (io.createPipe capacity world.outside).2 } =
          slotsOf table world) ∨
      ∃ readSlot writeSlot readEnd writeEnd piped,
        io.createPipe capacity world.outside = (some (readSlot, writeSlot), piped) ∧
        (table piped).getDescriptor readSlot = some readEnd ∧
        (table piped).getDescriptor writeSlot = some writeEnd ∧
        slotsOf table { world with
            outside := io.closeDescriptor writeSlot (io.closeDescriptor readSlot piped) } =
          slotsOf table world := by
  obtain ⟨piped, ⟨hpipe, htable⟩ | ⟨readEnd, writeEnd, hpipe, htable⟩⟩ :=
    hio.createPipe capacity world.outside
  · rw [hpipe]
    exact .inl ⟨rfl, by rw [slotsOf, htable, slotsOf]⟩
  rcases DescriptorTable.createPipe_cases (table world.outside) readEnd writeEnd with
    hnone | ⟨readSlot, writeSlot, hsome, hne, hread, hwrite, hslots⟩
  · rw [hnone] at hpipe htable
    rw [hpipe]
    exact .inl ⟨rfl, by rw [slotsOf, htable, slotsOf]⟩
  · rw [hsome] at hpipe
    rw [← htable] at hslots
    refine .inr ⟨readSlot, writeSlot, readEnd, writeEnd, piped, hpipe, ?_, ?_, ?_⟩
    · rw [hslots, Function.update_of_ne hne, Function.update_self]
    · rw [hslots, Function.update_self]
    · have hclosed (outside : ω) (fd : Nat) :=
        slotsOf_close hio { world with outside } fd
      simp only at hclosed
      rw [hclosed, hclosed]
      simp only [slotsOf, hslots]
      funext fd
      simp only [Function.update_apply]
      split_ifs with h h' <;> first | (subst h; simp [hwrite]) | (subst h'; simp [hread]) | rfl

/-! ## What a scope has saved -/

/-- `RestoreFrom`, of the slots alone. -/
def undo : SavedSlots D → (Nat → Option D) → Nat → Option D
  | [], slots => slots
  | (fd, descriptor) :: rest, slots => undo rest (putSlot fd descriptor slots)

theorem undo_append (later earlier : SavedSlots D) (slots : Nat → Option D) :
    undo (later ++ earlier) slots = undo earlier (undo later slots) := by
  induction later generalizing slots with
  | nil => rfl
  | cons slot later ih => exact ih _

theorem undo_of_ne {saved : SavedSlots D} {fd : Nat} (h : ∀ slot ∈ saved, slot.1 ≠ fd)
    (slots : Nat → Option D) : undo saved slots fd = slots fd := by
  induction saved generalizing slots with
  | nil => rfl
  | cons slot saved ih =>
      rw [undo, ih fun other hother => h other (List.mem_cons_of_mem _ hother)]
      exact putSlot_of_ne (h slot List.mem_cons_self).symm

/-- What a saved slot holds does not matter: it is put back. -/
theorem undo_putSlot {saved : SavedSlots D} {fd : Nat} (h : ∃ slot ∈ saved, slot.1 = fd)
    (descriptor : Option D) (slots : Nat → Option D) :
    undo saved (putSlot fd descriptor slots) = undo saved slots := by
  induction saved generalizing slots with
  | nil => simp at h
  | cons slot saved ih =>
      obtain ⟨other, kept⟩ := slot
      rw [undo, undo]
      by_cases heq : other = fd
      · rw [heq, putSlot_idem]
      · rw [putSlot_comm heq]
        refine ih ?_ _
        obtain ⟨slot, hmem, hslot⟩ := h
        rcases List.mem_cons.mp hmem with rfl | hmem
        · exact absurd hslot heq
        · exact ⟨slot, hmem, hslot⟩

theorem exec_saveSlot {io : FileIO ω D} {table : ω → DescriptorTable D} (hio : io.UsesTable table)
    (fd : Nat) (saved : SavedSlots D) (world : World ω) :
    exec (saveSlot io fd saved) world =
      (.ok (if saved.any (·.1 = fd) then saved else (fd, slotsOf table world fd) :: saved),
        world) := by
  rw [saveSlot]
  split_ifs
  · rfl
  · simp only [exec_bind, exec_look, exec_pure, hio.getDescriptor, slotsOf]

theorem exec_restoreSlots {io : FileIO ω D} {table : ω → DescriptorTable D}
    (hio : io.UsesTable table) {free : Nat} :
    ∀ {saved : SavedSlots D} {world : World ω}, IsFree table free world →
      (∀ slot ∈ saved, slot.1 ≠ free) →
      ∃ outside, exec (restoreSlots io saved) world = (.ok ⟨⟩, { world with outside }) ∧
        slotsOf table { world with outside } = undo saved (slotsOf table world)
  | [], world, _, _ => ⟨world.outside, rfl, rfl⟩
  | (fd, descriptor) :: saved, world, hfree, hsaved => by
      obtain ⟨placed, hplaced, hslots⟩ := exec_placeDescriptor hio hfree fd descriptor
      have hstill : IsFree table free { world with outside := placed } :=
        ⟨hfree.lt, by
          rw [hslots, putSlot_of_ne (hsaved _ List.mem_cons_self).symm, hfree.empty]⟩
      obtain ⟨outside, hrest, hundo⟩ := exec_restoreSlots hio hstill fun slot hslot =>
        hsaved slot (List.mem_cons_of_mem _ hslot)
      refine ⟨outside, ?_, by rw [hundo, hslots, undo]⟩
      rw [restoreSlots, List.forM_cons]
      simp only [exec_bind, hplaced, exec_pure]
      exact hrest

/-! ## The redirections of a scope -/

def namedSlots {δ : Type} (redirection : Redirection δ) : List Nat :=
  match redirection.kind with
  | .outputAndError => [redirection.fd, standardError]
  | _ => [redirection.fd]

theorem fd_mem_namedSlots {δ : Type} (redirection : Redirection δ) :
    redirection.fd ∈ namedSlots redirection := by
  rw [namedSlots]
  split <;> exact List.mem_cons_self

/-- The slots after a duplication to slot `fd`: of a `-`, or of an open slot's digit. -/
inductive Duplicated (fd : Nat) (slots : Nat → Option D) : Text → (Nat → Option D) → Prop where
  | close : Duplicated fd slots ['-'] (putSlot fd none slots)
  | copy {digit : Char} (numbers : isDigit digit = true)
      (opened : (slots (digit.toNat - '0'.toNat)).isSome) :
      Duplicated fd slots [digit] (putSlot fd (slots (digit.toNat - '0'.toNat)) slots)

section

variable (io : FileIO ω D) (table : ω → DescriptorTable D) (host : Host ω)

/-- The file that is opened is put in slot `fd`. -/
def Opened (fd : Nat) (mode : OpenMode) (target : Text) (outside : ω)
    (slots slots' : Nat → Option D) : Prop :=
  ∃ descriptor, (io.openFile target mode outside).1 = some descriptor ∧
    slots' = putSlot fd (some descriptor) slots

/-- The read end of the pipe that is created is put in slot `fd`. -/
def Piped (fd : Nat) (input : Text) (outside : ω) (slots slots' : Nat → Option D) : Prop :=
  ∃ readSlot writeSlot readEnd piped,
    io.createPipe (max input.length 1) outside = (some (readSlot, writeSlot), piped) ∧
      io.getDescriptor readSlot piped = some readEnd ∧ slots' = putSlot fd (some readEnd) slots

/-- What a redirection that succeeds does to the slots, from what it is expanded to. -/
def Redirection.EffectOn {δ : Type} (redirection : Redirection δ) (input : Text) (outside : ω)
    (slots slots' : Nat → Option D) : Prop :=
  match redirection.kind with
  | .input => Opened io redirection.fd .readOnly input outside slots slots'
  | .output | .outputClobber =>
      Opened io redirection.fd .writeCreateTruncate input outside slots slots'
  | .append => Opened io redirection.fd .writeCreateAppend input outside slots slots'
  | .readWrite => Opened io redirection.fd .readWriteCreate input outside slots slots'
  | .outputAndError =>
      ∃ between, Opened io redirection.fd .writeCreateTruncate input outside slots between ∧
        slots' = putSlot standardError (between redirection.fd) between
  | .dupInput | .dupOutput => Duplicated redirection.fd slots input slots'
  | .hereDoc => Piped io redirection.fd input outside slots slots'
  | .hereString => Piped io redirection.fd (input ++ ['\n']) outside slots slots'

def redirectionInput (redirection : Redirection HereDocument) : Walk ω Text :=
  match redirection.kind with
  | .hereDoc => hereDocBody host redirection
  | _ => expandToString host redirection.target

/-- The effect of a redirection that succeeds: that of what it is expanded to in `world`. -/
def Redirection.Effect (redirection : Redirection HereDocument) (world : World ω)
    (slots slots' : Nat → Option D) : Prop :=
  ∃ input expanded, exec (redirectionInput host redirection) world = (.ok input, expanded) ∧
    redirection.EffectOn io input expanded.outside slots slots'

def EffectOfAll : List (Redirection HereDocument) → SavedSlots D → World ω → World ω → Prop
  | [], _, world, world' => world' = world
  | redirection :: rest, saved, world, world' =>
      ∃ saved' between,
        exec (applyOne io host redirection saved) world = (.ok (none, saved'), between) ∧
          redirection.Effect io host world (slotsOf table world) (slotsOf table between) ∧
          EffectOfAll rest saved' between world'

end

/-- An invariant of what a scope has saved and of the slots, while the slots `free` stay free. -/
structure ScopeInvariant (table : ω → DescriptorTable D) (free : Nat → Prop)
    (J : SavedSlots D → World ω → Prop) : Prop where
  isFree : ∀ {saved world}, J saved world → ∃ fd, free fd ∧ IsFree table fd world
  same : ∀ {saved world world'}, slotsOf table world' = slotsOf table world →
    J saved world → J saved world'
  save : ∀ {fd saved world}, ¬ free fd → J saved world →
    J ((fd, slotsOf table world fd) :: saved) world
  change : ∀ {fd descriptor saved world world'}, ¬ free fd → (∃ slot ∈ saved, slot.1 = fd) →
    slotsOf table world' = putSlot fd descriptor (slotsOf table world) →
    J saved world → J saved world'
  undone : ∀ {saved world world'}, slotsOf table world' = undo saved (slotsOf table world) →
    J saved world → J [] world'
  saved : ∀ {saved world}, J saved world → ∀ slot ∈ saved, ¬ free slot.1

end Haisos.Hsh
