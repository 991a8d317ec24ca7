import Haisos.Hsh.Redirection.Slots
import Haisos.Hsh.Stages

/-!
# Slots that are put back in order

The end of `SubshellScope`'s destructor: every slot that has changed is given what it
held, from the first on.  It needs a free slot to put a descriptor back.
-/

namespace Haisos.Hsh

open StateExcept

variable {ω D : Type} [DecidableEq D]

def putBackSlot (io : FileIO ω D) (slot : Nat × Option D) : Walk ω Unit := do
  if (← look (io.getDescriptor slot.1)) ≠ slot.2 then
    let _ ← placeDescriptor io slot.1 slot.2

def putBack (io : FileIO ω D) (slots : List (Nat × Option D)) : Walk ω Unit :=
  forM slots (putBackSlot io)

theorem exec_restoreSubshell {P : Type} (os : OperatingSystem ω D P) (state : ShellState)
    (directory : Text) (slots : List (Nat × Option D)) (world : World ω) :
    exec (restoreSubshell os state directory slots) world =
      exec (putBack os.toFileIO slots) ⟨state, os.changeDirectory directory world.outside⟩ := rfl

def slotsHeld (slots : Nat → Option D) : List (Nat × Option D) :=
  (List.range maxDescriptors).map fun fd => (fd, slots fd)

variable {io : FileIO ω D} {table : ω → DescriptorTable D} (hio : io.UsesTable table)

omit [DecidableEq D] in
theorem placeDescriptor_returns (io : FileIO ω D) (fd : Nat) (descriptor : Option D)
    (world : World ω) :
    ∃ placed outside,
      exec (placeDescriptor io fd descriptor) world = (.ok placed, { world with outside }) := by
  cases descriptor with
  | none => exact ⟨_, _, rfl⟩
  | some descriptor =>
      rw [placeDescriptor, exec_bind, exec_perform]
      dsimp only
      split
      · exact ⟨_, _, rfl⟩
      · split
        · exact ⟨_, _, rfl⟩
        · exact ⟨_, _, rfl⟩

omit [DecidableEq D] in
theorem restoreSlots_returns (io : FileIO ω D) :
    ∀ (saved : SavedSlots D) (world : World ω),
      ∃ outside, exec (restoreSlots io saved) world = (.ok ⟨⟩, { world with outside })
  | [], world => ⟨world.outside, rfl⟩
  | slot :: saved, world => by
      obtain ⟨placed, between, hslot⟩ := placeDescriptor_returns io slot.1 slot.2 world
      obtain ⟨outside, hrest⟩ := restoreSlots_returns io saved { world with outside := between }
      refine ⟨outside, ?_⟩
      rw [restoreSlots, List.forM_cons, exec_bind, exec_bind_ok hslot]
      exact hrest

theorem putBackSlot_returns (io : FileIO ω D) (slot : Nat × Option D) (world : World ω) :
    ∃ outside, exec (putBackSlot io slot) world = (.ok ⟨⟩, { world with outside }) := by
  rw [putBackSlot, exec_bind, exec_look]
  dsimp only
  split
  · obtain ⟨_, outside, hrun⟩ := placeDescriptor_returns io slot.1 slot.2 world
    exact ⟨outside, by rw [exec_bind, hrun]; rfl⟩
  · exact ⟨world.outside, rfl⟩

theorem putBack_returns (io : FileIO ω D) :
    ∀ (slots : List (Nat × Option D)) (world : World ω),
      ∃ outside, exec (putBack io slots) world = (.ok ⟨⟩, { world with outside })
  | [], world => ⟨world.outside, rfl⟩
  | slot :: slots, world => by
      obtain ⟨between, hslot⟩ := putBackSlot_returns io slot world
      obtain ⟨outside, hrest⟩ := putBack_returns io slots { world with outside := between }
      refine ⟨outside, ?_⟩
      rw [putBack, List.forM_cons, exec_bind_ok hslot]
      exact hrest

section

variable {related : World ω → World ω → Prop} [Std.Refl related] [IsTrans (World ω) related]
  (hadd : ∀ descriptor, Respects related (perform (io.addDescriptor descriptor)))
  (hdup : ∀ oldFd newFd, Respects related (perform (io.dup2 oldFd newFd)))
  (hclose : ∀ fd, Respects related (perform fun outside => ((), io.closeDescriptor fd outside)))

include hadd hdup hclose

omit [DecidableEq D] in
/-- What the operations on the table do, placing does. -/
theorem respects_placeDescriptor (fd : Nat) (descriptor : Option D) :
    Respects related (placeDescriptor io fd descriptor) := by
  cases descriptor with
  | none => exact Respects.bind_intro (hclose fd) fun _ => Respects.pure_intro _
  | some descriptor =>
      refine Respects.bind_intro (hadd descriptor) fun added => ?_
      split
      · exact Respects.pure_intro _
      · split
        · exact Respects.pure_intro _
        · refine Respects.bind_intro (hdup _ fd) fun _ => ?_
          exact Respects.bind_intro (hclose _) fun _ => Respects.pure_intro _

theorem respects_putBack (slots : List (Nat × Option D)) : Respects related (putBack io slots) := by
  refine Respects.forM_intro fun slot _ => ?_
  refine Respects.bind_intro (Respects.bind_intro Respects.get_intro fun _ =>
    Respects.pure_intro _) fun held => ?_
  split
  · exact Respects.bind_intro (respects_placeDescriptor hadd hdup hclose _ _) fun _ =>
      Respects.pure_intro _
  · exact Respects.pure_intro _

end

include hio

theorem exec_putBackSlot {free : Nat} {world : World ω} (hfree : IsFree table free world)
    (slot : Nat × Option D) :
    ∃ outside, exec (putBackSlot io slot) world = (.ok ⟨⟩, { world with outside }) ∧
      slotsOf table { world with outside } = putSlot slot.1 slot.2 (slotsOf table world) := by
  rw [putBackSlot, exec_bind, exec_look, hio.getDescriptor]
  dsimp only
  split
  · obtain ⟨outside, hrun, hslots⟩ := exec_placeDescriptor hio hfree slot.1 slot.2
    exact ⟨outside, by rw [exec_bind, hrun]; rfl, hslots⟩
  · rename_i hsame
    refine ⟨world.outside, rfl, ?_⟩
    rw [← Classical.not_not.mp hsame]
    exact (putSlot_self slot.1 _).symm

/-- With a free slot that was free before, too, every slot is put back. -/
theorem exec_putBack {free : Nat} :
    ∀ {slots : List (Nat × Option D)} {world : World ω}, IsFree table free world →
      (∀ slot ∈ slots, slot.1 = free → slot.2 = none) →
      ∃ outside, exec (putBack io slots) world = (.ok ⟨⟩, { world with outside }) ∧
        slotsOf table { world with outside } = undo slots (slotsOf table world)
  | [], world, _, _ => ⟨world.outside, rfl, rfl⟩
  | slot :: slots, world, hfree, hslots => by
      obtain ⟨between, hslot, hput⟩ := exec_putBackSlot hio hfree slot
      have hstill : IsFree table free { world with outside := between } := by
        refine ⟨hfree.lt, ?_⟩
        rw [hput]
        by_cases heq : slot.1 = free
        · rw [hslots slot List.mem_cons_self heq, heq, putSlot_none]
          exact Function.update_self _ _ _
        · rw [putSlot_of_ne (Ne.symm heq), hfree.empty]
      obtain ⟨outside, hrest, hundo⟩ := exec_putBack hstill fun other hother =>
        hslots other (List.mem_cons_of_mem _ hother)
      refine ⟨outside, ?_, by rw [hundo, hput, undo]⟩
      rw [putBack, List.forM_cons, exec_bind_ok hslot]
      exact hrest

theorem exec_putBackSlot_none (fd : Nat) (world : World ω) :
    ∃ outside, exec (putBackSlot io (fd, none)) world = (.ok ⟨⟩, { world with outside }) ∧
      slotsOf table { world with outside } = putSlot fd none (slotsOf table world) := by
  rw [putBackSlot, exec_bind, exec_look, hio.getDescriptor]
  dsimp only
  split
  · exact ⟨_, rfl, by rw [slotsOf_close hio, putSlot_none]⟩
  · rename_i hsame
    refine ⟨world.outside, rfl, ?_⟩
    rw [← Classical.not_not.mp hsame]
    exact (putSlot_self fd _).symm

theorem isFree_putBack {free : Nat} (hlt : free < kMaxDescriptors) :
    ∀ {slots : List (Nat × Option D)} (world : World ω),
      (∀ slot ∈ slots, slot.1 = free → slot.2 = none) →
      IsFree table free world ∨ (∃ slot ∈ slots, slot.1 = free) →
      IsFree table free (exec (putBack io slots) world).2
  | [], world, _, h => by
      rcases h with h | ⟨slot, hmem, -⟩
      · exact h
      · cases hmem
  | slot :: slots, world, hslots, h => by
      obtain ⟨between, hslot, hnext⟩ : ∃ between,
          exec (putBackSlot io slot) world = (.ok ⟨⟩, { world with outside := between }) ∧
          (IsFree table free { world with outside := between } ∨
            ∃ slot ∈ slots, slot.1 = free) := by
        by_cases heq : slot.1 = free
        · obtain ⟨fd, descriptor⟩ := slot
          obtain rfl : fd = free := heq
          obtain rfl : descriptor = none := hslots _ List.mem_cons_self rfl
          obtain ⟨between, hrun, hput⟩ := exec_putBackSlot_none hio fd world
          refine ⟨between, hrun, .inl ⟨hlt, ?_⟩⟩
          rw [hput, putSlot_none]
          exact Function.update_self _ _ _
        · rcases h with hfree | ⟨other, hmem, hother⟩
          · obtain ⟨between, hrun, hput⟩ := exec_putBackSlot hio hfree slot
            refine ⟨between, hrun, .inl ⟨hlt, ?_⟩⟩
            rw [hput, putSlot_of_ne (Ne.symm heq), hfree.empty]
          · obtain ⟨between, hrun⟩ := putBackSlot_returns io slot world
            refine ⟨between, hrun, .inr ⟨other, ?_, hother⟩⟩
            rcases List.mem_cons.mp hmem with rfl | hmem
            · exact absurd hother heq
            · exact hmem
      have hrest := isFree_putBack hlt { world with outside := between } (fun other hother =>
        hslots other (List.mem_cons_of_mem _ hother)) hnext
      rw [putBack, List.forM_cons, exec_bind_ok hslot]
      exact hrest

omit [DecidableEq D] in
/-- A slot keeps what it holds while a descriptor is placed in another, or is not. -/
theorem slotsOf_placeDescriptor_of_ne {fd other : Nat} (hne : fd ≠ other)
    (descriptor : Option D) (world : World ω) :
    slotsOf table (exec (placeDescriptor io other descriptor) world).2 fd =
      slotsOf table world fd := by
  by_cases hfree : ∃ free, IsFree table free world
  · obtain ⟨free, hfree⟩ := hfree
    obtain ⟨outside, hrun, hslots⟩ := exec_placeDescriptor hio hfree other descriptor
    rw [hrun, hslots, putSlot_of_ne hne]
  · cases descriptor with
    | none =>
        exact (congrFun (slotsOf_close hio world other) fd).trans (Function.update_of_ne hne _ _)
    | some descriptor =>
        obtain ⟨outside, hadd, htable⟩ := hio.addDescriptor descriptor world.outside
        rw [DescriptorTable.addDescriptor_of_full descriptor fun free hlt hempty =>
          hfree ⟨free, hlt, hempty⟩] at hadd htable
        rw [placeDescriptor, exec_bind, exec_perform, hadd]
        exact congrArg (fun table : DescriptorTable D => table.getDescriptor fd) htable

theorem slotsOf_putBack_of_ne {fd : Nat} :
    ∀ {slots : List (Nat × Option D)} (world : World ω), (∀ slot ∈ slots, fd ≠ slot.1) →
      slotsOf table (exec (putBack io slots) world).2 fd = slotsOf table world fd
  | [], _, _ => rfl
  | slot :: slots, world, hslots => by
      have hfirst : slotsOf table (exec (putBackSlot io slot) world).2 fd =
          slotsOf table world fd := by
        rw [putBackSlot, exec_bind, exec_look]
        dsimp only
        split
        · have hplaced := slotsOf_placeDescriptor_of_ne hio (hslots slot List.mem_cons_self)
            slot.2 world
          obtain ⟨_, outside, hrun⟩ := placeDescriptor_returns io slot.1 slot.2 world
          rw [hrun] at hplaced
          rw [exec_bind_ok hrun]
          exact hplaced
        · rfl
      obtain ⟨between, hslot⟩ := putBackSlot_returns io slot world
      rw [hslot] at hfirst
      have hrest := slotsOf_putBack_of_ne { world with outside := between }
        fun other hother => hslots other (List.mem_cons_of_mem _ hother)
      rw [putBack, List.forM_cons, exec_bind_ok hslot]
      exact hrest.trans hfirst

/-- In a full table the first slot is not put back, and what comes after leaves it so. -/
theorem slotsOf_putBack_of_full (world : World ω) (held : Nat → Option D)
    (hfull : ∀ fd < kMaxDescriptors, slotsOf table world fd ≠ none) (hheld : held 0 ≠ none) :
    slotsOf table (exec (putBack io (slotsHeld held)) world).2 0 = slotsOf table world 0 := by
  obtain ⟨first, hfirst⟩ := Option.ne_none_iff_exists'.mp hheld
  have hcons : slotsHeld held =
      (0, some first) :: ((List.range 1023).map Nat.succ).map fun fd => (fd, held fd) := by
    rw [slotsHeld, maxDescriptors, List.range_succ_eq_map, List.map_cons, hfirst]
  have hne : ∀ slot ∈ ((List.range 1023).map Nat.succ).map fun fd => (fd, held fd),
      0 ≠ slot.1 := by
    simp only [List.mem_map]
    rintro _ ⟨_, ⟨fd, -, rfl⟩, rfl⟩
    exact (Nat.succ_ne_zero fd).symm
  obtain ⟨between, hslot, hslots⟩ : ∃ between,
      exec (putBackSlot io (0, some first)) world = (.ok ⟨⟩, { world with outside := between }) ∧
      slotsOf table { world with outside := between } = slotsOf table world := by
    rw [putBackSlot, exec_bind, exec_look]
    dsimp only
    split
    · obtain ⟨outside, hadd, htable⟩ := hio.addDescriptor first world.outside
      rw [DescriptorTable.addDescriptor_of_full first hfull] at hadd htable
      refine ⟨outside, ?_, congrArg DescriptorTable.getDescriptor htable⟩
      rw [placeDescriptor]
      simp only [exec_bind, exec_perform, hadd]
      rfl
    · exact ⟨world.outside, rfl, rfl⟩
  have hrest := slotsOf_putBack_of_ne hio { world with outside := between } hne
  rw [hcons, putBack, List.forM_cons, exec_bind_ok hslot]
  exact hrest.trans (congrFun hslots 0)

omit [DecidableEq D] in
theorem slotsOf_placeDescriptor_or (fd : Nat) (descriptor : Option D) (world : World ω) :
    slotsOf table (exec (placeDescriptor io fd descriptor) world).2 fd = slotsOf table world fd ∨
      slotsOf table (exec (placeDescriptor io fd descriptor) world).2 fd = descriptor := by
  by_cases hfree : ∃ free, IsFree table free world
  · obtain ⟨free, hfree⟩ := hfree
    obtain ⟨outside, hrun, hslots⟩ := exec_placeDescriptor hio hfree fd descriptor
    rw [hrun, hslots, putSlot]
    split_ifs
    · exact .inr (Function.update_self _ _ _)
    · exact .inl rfl
  · cases descriptor with
    | none =>
        exact .inr ((congrFun (slotsOf_close hio world fd) fd).trans (Function.update_self _ _ _))
    | some descriptor =>
        obtain ⟨outside, hadd, htable⟩ := hio.addDescriptor descriptor world.outside
        rw [DescriptorTable.addDescriptor_of_full descriptor fun free hlt hempty =>
          hfree ⟨free, hlt, hempty⟩] at hadd htable
        rw [placeDescriptor, exec_bind, exec_perform, hadd]
        exact .inl (congrArg (fun table : DescriptorTable D => table.getDescriptor fd) htable)

theorem slotsOf_putBack_or (held : Nat → Option D) (fd : Nat) :
    ∀ {slots : List (Nat × Option D)} (world : World ω), (∀ slot ∈ slots, slot.2 = held slot.1) →
      slotsOf table (exec (putBack io slots) world).2 fd = slotsOf table world fd ∨
        slotsOf table (exec (putBack io slots) world).2 fd = held fd
  | [], _, _ => .inl rfl
  | slot :: slots, world, hslots => by
      have hfirst : slotsOf table (exec (putBackSlot io slot) world).2 fd =
          slotsOf table world fd ∨
            slotsOf table (exec (putBackSlot io slot) world).2 fd = held fd := by
        rw [putBackSlot, exec_bind, exec_look]
        dsimp only
        split
        · obtain ⟨_, outside, hrun⟩ := placeDescriptor_returns io slot.1 slot.2 world
          rw [exec_bind_ok hrun]
          by_cases heq : fd = slot.1
          · have hplaced := slotsOf_placeDescriptor_or hio slot.1 slot.2 world
            rw [hrun, hslots slot List.mem_cons_self] at hplaced
            rw [heq]
            exact hplaced
          · have hplaced := slotsOf_placeDescriptor_of_ne hio heq slot.2 world
            rw [hrun] at hplaced
            exact .inl hplaced
        · exact .inl rfl
      obtain ⟨between, hslot⟩ := putBackSlot_returns io slot world
      rw [hslot] at hfirst
      have hrest := slotsOf_putBack_or held fd { world with outside := between }
        fun other hother => hslots other (List.mem_cons_of_mem _ hother)
      rw [putBack, List.forM_cons, exec_bind_ok hslot]
      rcases hrest with hrest | hrest
      · exact hfirst.imp hrest.trans hrest.trans
      · exact .inr hrest

omit hio [DecidableEq D] in
theorem undo_slotsHeld {held slots : Nat → Option D}
    (hheld : ∀ fd, kMaxDescriptors ≤ fd → held fd = none)
    (hslots : ∀ fd, kMaxDescriptors ≤ fd → slots fd = none) :
    undo (slotsHeld held) slots = held := by
  have hundo (fds : List Nat) (slots : Nat → Option D) (fd : Nat) :
      undo (fds.map fun fd => (fd, held fd)) slots fd =
        if fd ∈ fds ∧ fd < kMaxDescriptors then held fd else slots fd := by
    induction fds generalizing slots with
    | nil => simp [undo]
    | cons other fds ih =>
        rw [List.map_cons, undo, ih]
        by_cases hmem : fd ∈ fds ∧ fd < kMaxDescriptors
        · rw [if_pos hmem, if_pos ⟨List.mem_cons_of_mem _ hmem.1, hmem.2⟩]
        · rw [if_neg hmem]
          by_cases heq : fd = other
          · subst heq
            by_cases hlt : fd < kMaxDescriptors
            · rw [if_pos ⟨List.mem_cons_self, hlt⟩, putSlot, if_pos hlt, Function.update_self]
            · rw [if_neg fun h => hlt h.2, putSlot, if_neg hlt]
          · rw [putSlot_of_ne heq, if_neg]
            rintro ⟨hin, hlt⟩
            exact hmem ⟨(List.mem_cons.mp hin).resolve_left heq, hlt⟩
  funext fd
  rw [slotsHeld, hundo]
  split_ifs with h
  · rfl
  · have hle : kMaxDescriptors ≤ fd := by
      by_contra hlt
      exact h ⟨List.mem_range.mpr (Nat.lt_of_not_le hlt), Nat.lt_of_not_le hlt⟩
    rw [hslots fd hle, hheld fd hle]

/-- A table in which slot `free` was free is put back if it is free again, or is the first. -/
theorem exec_putBack_slotsHeld {free : Nat} {held : Nat → Option D}
    (hlt : free < kMaxDescriptors) (hempty : held free = none)
    (hheld : ∀ fd, kMaxDescriptors ≤ fd → held fd = none) (world : World ω)
    (hfree : IsFree table free world ∨ free = 0) :
    ∃ outside, exec (putBack io (slotsHeld held)) world = (.ok ⟨⟩, { world with outside }) ∧
      slotsOf table { world with outside } = held := by
  have hnone : ∀ slot ∈ slotsHeld held, slot.1 = free → slot.2 = none := by
    intro slot hslot heq
    obtain ⟨fd, -, rfl⟩ := List.mem_map.mp hslot
    obtain rfl : fd = free := heq
    exact hempty
  have hbeyond (world : World ω) : ∀ fd, kMaxDescriptors ≤ fd → slotsOf table world fd = none :=
    fun _ h => DescriptorTable.getDescriptor_of_le h
  by_cases hnow : IsFree table free world
  · obtain ⟨outside, hrun, hslots⟩ := exec_putBack hio hnow hnone
    exact ⟨outside, hrun, hslots.trans (undo_slotsHeld hheld (hbeyond world))⟩
  · -- The first slot to be put back is the free one.
    obtain rfl : free = 0 := hfree.resolve_left hnow
    obtain ⟨rest, hrest⟩ : ∃ rest, slotsHeld held = (0, none) :: rest :=
      ⟨((List.range 1023).map Nat.succ).map fun fd => (fd, held fd), by
        rw [slotsHeld, maxDescriptors, List.range_succ_eq_map, List.map_cons, hempty]⟩
    obtain ⟨between, hslot, hput⟩ := exec_putBackSlot_none hio 0 world
    have hfirst : IsFree table 0 { world with outside := between } := by
      refine ⟨hlt, ?_⟩
      rw [hput, putSlot_none]
      exact Function.update_self _ _ _
    obtain ⟨outside, hrun, hslots⟩ := exec_putBack hio hfirst fun slot hslot =>
      hnone slot (by rw [hrest]; exact List.mem_cons_of_mem _ hslot)
    refine ⟨outside, ?_, ?_⟩
    · rw [hrest, putBack, List.forM_cons, exec_bind_ok hslot]
      exact hrun
    · rw [hslots, hput, ← undo_slotsHeld hheld (hbeyond world), hrest, undo]

end Haisos.Hsh
