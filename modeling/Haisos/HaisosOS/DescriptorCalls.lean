import Haisos.DescriptorTable
import Haisos.Transition

/-!
# The numbers of a process's open files

The calls of `ProcessFileIO` on its descriptor table, with the integers that a
program gives, answer as a map from the numbers below `kMaxDescriptors` does.
-/

namespace Haisos.ProcessFileIO

variable {D : Type}

/-- A call on the table. -/
inductive Call (D : Type) where
  | getDescriptor (fd : Int)
  | addDescriptor (descriptor : Option D)
  | dup (fd : Int)
  | dup2 (oldFd newFd : Int)
  | closeDescriptor (fd : Int)
  | installStandardStreams (input output error : Option D)
  | createPipe (ends : Option (D × D))
  | releaseAllDescriptors

inductive Reply (D : Type) where
  | descriptor (descriptor : Option D)
  | number (fd : Int)
  | installed (success : Bool)
  | pipe (slots : Option (Int × Int))
  | released

/-! ## The calls, on the table of slots -/

def getDescriptor (table : DescriptorTable D) (fd : Int) : Option D :=
  if fd < 0 then none else table.getDescriptor fd.toNat

/-- `AddDescriptorLocked`: the slot, or -1. -/
def addDescriptorLocked (table : DescriptorTable D) (descriptor : D) : Int × DescriptorTable D :=
  match table.addDescriptor descriptor with
  | (some slot, table') => (slot, table')
  | (none, table') => (-1, table')

def addDescriptor (table : DescriptorTable D) (descriptor : Option D) : Int × DescriptorTable D :=
  match descriptor with
  | none => (-1, table)
  | some descriptor => addDescriptorLocked table descriptor

def dup (table : DescriptorTable D) (fd : Int) : Int × DescriptorTable D :=
  match getDescriptor table fd with
  | none => (-1, table)
  | some descriptor => addDescriptorLocked table descriptor

def dup2 (table : DescriptorTable D) (oldFd newFd : Int) : Int × DescriptorTable D :=
  match getDescriptor table oldFd with
  | none => (-1, table)
  | some _ =>
      if newFd < 0 then (-1, table)
      else
        match table.dup2 oldFd.toNat newFd.toNat with
        | (true, table') => (newFd, table')
        | (false, table') => (-1, table')

def closeDescriptor (table : DescriptorTable D) (fd : Int) : Int × DescriptorTable D :=
  match getDescriptor table fd with
  | none => (-1, table)
  | some _ => (0, table.closeDescriptor fd.toNat)

def installStandardStreams (table : DescriptorTable D) (input output error : Option D) :
    Bool × DescriptorTable D :=
  match input, output, error with
  | some input, some output, some error =>
      if table.slots.any Option.isSome then (false, table)
      else (true, ⟨[some input, some output, some error], by simp [kMaxDescriptors]⟩)
  | _, _, _ => (false, table)

def createPipe (table : DescriptorTable D) (ends : Option (D × D)) :
    Option (Int × Int) × DescriptorTable D :=
  match ends with
  | none => (none, table)
  | some (readEnd, writeEnd) =>
      match table.createPipe readEnd writeEnd with
      | (some (readSlot, writeSlot), table') => (some (readSlot, writeSlot), table')
      | (none, table') => (none, table')

def call (c : Call D) (table : DescriptorTable D) : Reply D × DescriptorTable D :=
  match c with
  | .getDescriptor fd => (.descriptor (getDescriptor table fd), table)
  | .addDescriptor descriptor => (addDescriptor table descriptor).map .number id
  | .dup fd => (dup table fd).map .number id
  | .dup2 oldFd newFd => (dup2 table oldFd newFd).map .number id
  | .closeDescriptor fd => (closeDescriptor table fd).map .number id
  | .installStandardStreams input output error =>
      (installStandardStreams table input output error).map .installed id
  | .createPipe ends => (createPipe table ends).map .pipe id
  | .releaseAllDescriptors => (.released, .empty)

/-- The replies of the calls in their order, and the table they leave. -/
def run : List (Call D) → DescriptorTable D → List (Reply D) × DescriptorTable D
  | [], table => ([], table)
  | c :: rest, table =>
      let reply := call c table
      let replies := run rest reply.2
      (reply.1 :: replies.1, replies.2)

/-! ## The open files by number -/

/-- What each number stands for. -/
abbrev FileNumbers (D : Type) := Fin kMaxDescriptors → Option D

namespace FileNumbers

instance : NeZero kMaxDescriptors := ⟨by decide⟩

/-- What an integer stands for: nothing, if it is no number of a file. -/
def held (files : FileNumbers D) (fd : Int) : Option D :=
  if h : 0 ≤ fd ∧ fd < kMaxDescriptors then files ⟨fd.toNat, by omega⟩ else none

def LowestFree (files : FileNumbers D) (n : Fin kMaxDescriptors) : Prop :=
  files n = none ∧ ∀ m, files m = none → n ≤ m

def Full (files : FileNumbers D) : Prop := ∀ n, files n ≠ none

def TwoLowestFree (files : FileNumbers D) (n m : Fin kMaxDescriptors) : Prop :=
  LowestFree files n ∧ n < m ∧ files m = none ∧ ∀ k, files k = none → k = n ∨ m ≤ k

def TooFew (files : FileNumbers D) : Prop := ∀ n m, files n = none → files m = none → n = m

inductive Answers (files : FileNumbers D) : Call D → Reply D → FileNumbers D → Prop
  | getDescriptor {fd : Int} : Answers files (.getDescriptor fd) (.descriptor (files.held fd)) files
  | addDescriptor {n : Fin kMaxDescriptors} {descriptor : D} (lowest : files.LowestFree n) :
      Answers files (.addDescriptor (some descriptor)) (.number n)
        (Function.update files n (some descriptor))
  | addDescriptor_full {descriptor : D} (full : files.Full) :
      Answers files (.addDescriptor (some descriptor)) (.number (-1)) files
  | addDescriptor_null : Answers files (.addDescriptor none) (.number (-1)) files
  | dup {fd : Int} {n : Fin kMaxDescriptors} {descriptor : D}
      (held : files.held fd = some descriptor) (lowest : files.LowestFree n) :
      Answers files (.dup fd) (.number n) (Function.update files n (some descriptor))
  | dup_full {fd : Int} {descriptor : D} (held : files.held fd = some descriptor)
      (full : files.Full) : Answers files (.dup fd) (.number (-1)) files
  | dup_empty {fd : Int} (empty : files.held fd = none) :
      Answers files (.dup fd) (.number (-1)) files
  | dup2 {oldFd newFd : Int} {n : Fin kMaxDescriptors} {descriptor : D} (other : oldFd ≠ newFd)
      (held : files.held oldFd = some descriptor) (inside : newFd = n) :
      Answers files (.dup2 oldFd newFd) (.number newFd) (Function.update files n (some descriptor))
  | dup2_self {oldFd newFd : Int} {descriptor : D} (self : oldFd = newFd)
      (held : files.held oldFd = some descriptor) :
      Answers files (.dup2 oldFd newFd) (.number newFd) files
  | dup2_empty {oldFd newFd : Int} (empty : files.held oldFd = none) :
      Answers files (.dup2 oldFd newFd) (.number (-1)) files
  | dup2_outside {oldFd newFd : Int} (outside : newFd < 0 ∨ (kMaxDescriptors : Int) ≤ newFd) :
      Answers files (.dup2 oldFd newFd) (.number (-1)) files
  | closeDescriptor {fd : Int} {n : Fin kMaxDescriptors} {descriptor : D} (inside : fd = n)
      (held : files n = some descriptor) :
      Answers files (.closeDescriptor fd) (.number 0) (Function.update files n none)
  | closeDescriptor_empty {fd : Int} (empty : files.held fd = none) :
      Answers files (.closeDescriptor fd) (.number (-1)) files
  | installStandardStreams {input output error : D} (empty : ∀ n, files n = none) :
      Answers files (.installStandardStreams (some input) (some output) (some error))
        (.installed true)
        (Function.update (Function.update (Function.update files 0 (some input)) 1 (some output)) 2
          (some error))
  | installStandardStreams_null {input output error : Option D}
      (missing : input = none ∨ output = none ∨ error = none) :
      Answers files (.installStandardStreams input output error) (.installed false) files
  | installStandardStreams_occupied {n : Fin kMaxDescriptors} {input output error : Option D}
      (occupied : files n ≠ none) :
      Answers files (.installStandardStreams input output error) (.installed false) files
  | createPipe {n m : Fin kMaxDescriptors} {readEnd writeEnd : D}
      (free : files.TwoLowestFree n m) :
      Answers files (.createPipe (some (readEnd, writeEnd))) (.pipe (some (n, m)))
        (Function.update (Function.update files n (some readEnd)) m (some writeEnd))
  | createPipe_tooFew {readEnd writeEnd : D} (tooFew : files.TooFew) :
      Answers files (.createPipe (some (readEnd, writeEnd))) (.pipe none) files
  | createPipe_refused : Answers files (.createPipe none) (.pipe none) files
  | releaseAllDescriptors : Answers files .releaseAllDescriptors .released fun _ => none

/-- The calls in their order, each with its reply. -/
inductive Run : FileNumbers D → List (Call D) → List (Reply D) → FileNumbers D → Prop
  | nil {files : FileNumbers D} : Run files [] [] files
  | cons {files files' last : FileNumbers D} {c : Call D} {calls : List (Call D)} {reply : Reply D}
      {replies : List (Reply D)} (first : Answers files c reply files')
      (rest : Run files' calls replies last) : Run files (c :: calls) (reply :: replies) last

variable {files : FileNumbers D} {n m k l : Fin kMaxDescriptors} {fd : Int}

theorem LowestFree.unique (hn : files.LowestFree n) (hm : files.LowestFree m) : n = m :=
  le_antisymm (hn.2 m hm.1) (hm.2 n hn.1)

theorem TwoLowestFree.unique (h : files.TwoLowestFree n m) (h' : files.TwoLowestFree k l) :
    n = k ∧ m = l := by
  obtain ⟨hn, hlt, hm, hbelow⟩ := h
  obtain ⟨hk, hlt', hl, hbelow'⟩ := h'
  obtain rfl := hn.unique hk
  constructor
  · rfl
  · apply le_antisymm
    · exact (hbelow l hl).resolve_left hlt'.ne'
    · exact (hbelow' m hm).resolve_left hlt.ne'

theorem TwoLowestFree.not_tooFew (h : files.TwoLowestFree n m) : ¬ files.TooFew := by
  intro htooFew
  exact h.2.1.ne (htooFew n m h.1.1 h.2.2.1)

@[simp]
theorem held_coe (files : FileNumbers D) (n : Fin kMaxDescriptors) : files.held n = files n := by
  rw [held, dif_pos (by omega)]
  rfl

theorem held_outside (h : fd < 0 ∨ (kMaxDescriptors : Int) ≤ fd) : files.held fd = none := by
  rw [held, dif_neg (by omega)]

theorem exists_coe_of_held {descriptor : D} (h : files.held fd = some descriptor) :
    ∃ n : Fin kMaxDescriptors, fd = n ∧ files n = some descriptor := by
  by_cases hinside : 0 ≤ fd ∧ fd < kMaxDescriptors
  · rw [held, dif_pos hinside] at h
    exact ⟨_, (Int.toNat_of_nonneg hinside.1).symm, h⟩
  · rw [held, dif_neg hinside] at h
    cases h

/-! ## One answer -/

section

variable {reply reply' : Reply D} {files' files'' : FileNumbers D}

theorem Answers.unique_addDescriptor {descriptor : Option D}
    (h : Answers files (.addDescriptor descriptor) reply files')
    (h' : Answers files (.addDescriptor descriptor) reply' files'') :
    reply = reply' ∧ files' = files'' := by
  cases h with
  | addDescriptor_null =>
      cases h'
      constructor <;> rfl
  | addDescriptor lowest =>
      cases h' with
      | addDescriptor lowest' =>
          obtain rfl := lowest.unique lowest'
          constructor <;> rfl
      | addDescriptor_full full => exact absurd lowest.1 (full _)
  | addDescriptor_full full =>
      cases h' with
      | addDescriptor lowest => exact absurd lowest.1 (full _)
      | addDescriptor_full => constructor <;> rfl

theorem Answers.unique_dup (h : Answers files (.dup fd) reply files')
    (h' : Answers files (.dup fd) reply' files'') : reply = reply' ∧ files' = files'' := by
  cases h with
  | dup held lowest =>
      cases h' with
      | dup held' lowest' =>
          obtain rfl := lowest.unique lowest'
          obtain rfl := Option.some.inj (held.symm.trans held')
          constructor <;> rfl
      | dup_full _ full => exact absurd lowest.1 (full _)
      | dup_empty empty => exact absurd (held.symm.trans empty) (Option.some_ne_none _)
  | dup_full held full =>
      cases h' with
      | dup _ lowest => exact absurd lowest.1 (full _)
      | dup_full => constructor <;> rfl
      | dup_empty empty => constructor <;> rfl
  | dup_empty empty =>
      cases h' with
      | dup held => exact absurd (held.symm.trans empty) (Option.some_ne_none _)
      | dup_full => constructor <;> rfl
      | dup_empty => constructor <;> rfl

theorem Answers.unique_dup2 {newFd : Int} (h : Answers files (.dup2 fd newFd) reply files')
    (h' : Answers files (.dup2 fd newFd) reply' files'') :
    reply = reply' ∧ files' = files'' := by
  cases h with
  | dup2 other held inside =>
      subst inside
      cases h' with
      | dup2 _ held' inside' =>
          obtain rfl := Fin.ext (Int.ofNat_inj.mp inside')
          obtain rfl := Option.some.inj (held.symm.trans held')
          constructor <;> rfl
      | dup2_self self => exact absurd self other
      | dup2_empty empty => exact absurd (held.symm.trans empty) (Option.some_ne_none _)
      | dup2_outside outside => omega
  | dup2_self self held =>
      subst self
      cases h' with
      | dup2 other => exact absurd rfl other
      | dup2_self => constructor <;> rfl
      | dup2_empty empty => exact absurd (held.symm.trans empty) (Option.some_ne_none _)
      | dup2_outside outside =>
          exact absurd (held.symm.trans (held_outside outside)) (Option.some_ne_none _)
  | dup2_empty empty =>
      cases h' with
      | dup2 _ held => exact absurd (held.symm.trans empty) (Option.some_ne_none _)
      | dup2_self _ held => exact absurd (held.symm.trans empty) (Option.some_ne_none _)
      | dup2_empty => constructor <;> rfl
      | dup2_outside => constructor <;> rfl
  | dup2_outside outside =>
      cases h' with
      | dup2 _ _ inside => omega
      | dup2_self self held =>
          subst self
          exact absurd (held.symm.trans (held_outside outside)) (Option.some_ne_none _)
      | dup2_empty => constructor <;> rfl
      | dup2_outside => constructor <;> rfl

theorem Answers.unique_closeDescriptor (h : Answers files (.closeDescriptor fd) reply files')
    (h' : Answers files (.closeDescriptor fd) reply' files'') :
    reply = reply' ∧ files' = files'' := by
  cases h with
  | closeDescriptor inside held =>
      subst inside
      cases h' with
      | closeDescriptor inside' =>
          obtain rfl := Fin.ext (Int.ofNat_inj.mp inside')
          constructor <;> rfl
      | closeDescriptor_empty empty =>
          rw [held_coe] at empty
          exact absurd (held.symm.trans empty) (Option.some_ne_none _)
  | closeDescriptor_empty empty =>
      cases h' with
      | closeDescriptor inside held =>
          subst inside
          rw [held_coe] at empty
          exact absurd (held.symm.trans empty) (Option.some_ne_none _)
      | closeDescriptor_empty => constructor <;> rfl

theorem Answers.unique_installStandardStreams {input output error : Option D}
    (h : Answers files (.installStandardStreams input output error) reply files')
    (h' : Answers files (.installStandardStreams input output error) reply' files'') :
    reply = reply' ∧ files' = files'' := by
  cases h with
  | installStandardStreams empty =>
      cases h' with
      | installStandardStreams => constructor <;> rfl
      | installStandardStreams_null missing => simp at missing
      | installStandardStreams_occupied occupied => exact absurd (empty _) occupied
  | installStandardStreams_null missing =>
      cases h' with
      | installStandardStreams => simp at missing
      | installStandardStreams_null => constructor <;> rfl
      | installStandardStreams_occupied => constructor <;> rfl
  | installStandardStreams_occupied occupied =>
      cases h' with
      | installStandardStreams empty => exact absurd (empty _) occupied
      | installStandardStreams_null => constructor <;> rfl
      | installStandardStreams_occupied => constructor <;> rfl

theorem Answers.unique_createPipe {ends : Option (D × D)}
    (h : Answers files (.createPipe ends) reply files')
    (h' : Answers files (.createPipe ends) reply' files'') :
    reply = reply' ∧ files' = files'' := by
  cases h with
  | createPipe_refused =>
      cases h'
      constructor <;> rfl
  | createPipe free =>
      cases h' with
      | createPipe free' =>
          obtain ⟨rfl, rfl⟩ := free.unique free'
          constructor <;> rfl
      | createPipe_tooFew tooFew => exact absurd tooFew free.not_tooFew
  | createPipe_tooFew tooFew =>
      cases h' with
      | createPipe free => exact absurd tooFew free.not_tooFew
      | createPipe_tooFew => constructor <;> rfl

theorem Answers.unique {c : Call D} (h : Answers files c reply files')
    (h' : Answers files c reply' files'') : reply = reply' ∧ files' = files'' := by
  cases c with
  | getDescriptor | releaseAllDescriptors =>
      cases h
      cases h'
      constructor <;> rfl
  | addDescriptor => exact h.unique_addDescriptor h'
  | dup => exact h.unique_dup h'
  | dup2 => exact h.unique_dup2 h'
  | closeDescriptor => exact h.unique_closeDescriptor h'
  | installStandardStreams => exact h.unique_installStandardStreams h'
  | createPipe => exact h.unique_createPipe h'

end

theorem Run.unique {calls : List (Call D)} {replies replies' : List (Reply D)}
    {last last' : FileNumbers D} (h : Run files calls replies last)
    (h' : Run files calls replies' last') : replies = replies' ∧ last = last' := by
  induction h generalizing replies' last' with
  | nil =>
      cases h'
      constructor <;> rfl
  | cons first rest ih =>
      cases h' with
      | cons first' rest' =>
          obtain ⟨rfl, rfl⟩ := first.unique first'
          obtain ⟨rfl, rfl⟩ := ih rest'
          constructor <;> rfl

end FileNumbers

/-! ## The table of slots, as the open files by number -/

def numbers (table : DescriptorTable D) : FileNumbers D := fun n => table.getDescriptor n

variable {table : DescriptorTable D}

theorem numbers_update {table' : DescriptorTable D} {slot : Nat} {descriptor : Option D}
    (hslot : slot < kMaxDescriptors)
    (h : table'.getDescriptor = Function.update table.getDescriptor slot descriptor) :
    numbers table' = Function.update (numbers table) ⟨slot, hslot⟩ descriptor := by
  funext n
  rw [numbers, h, Function.update_apply, Function.update_apply, numbers]
  simp only [Fin.ext_iff]

theorem held_numbers (table : DescriptorTable D) (fd : Int) :
    (numbers table).held fd = getDescriptor table fd := by
  rw [FileNumbers.held, getDescriptor]
  split_ifs with hinside hnegative hnegative
  · omega
  · rfl
  · rfl
  · rw [DescriptorTable.getDescriptor_of_le (by omega)]

theorem lowestFree_of_nextFreeSlot {slot : Nat} (h : table.nextFreeSlot 0 = some slot) :
    (numbers table).LowestFree ⟨slot, DescriptorTable.nextFreeSlot_lt h⟩ := by
  constructor
  · exact (DescriptorTable.getDescriptor_nextFreeSlot h).2
  · intro m hfree
    exact DescriptorTable.nextFreeSlot_le h (Nat.zero_le _) hfree

theorem full_of_nextFreeSlot (h : table.nextFreeSlot 0 = none) : (numbers table).Full := by
  intro n hfree
  obtain ⟨slot, hslot⟩ := DescriptorTable.nextFreeSlot_isSome (Nat.zero_le _) n.isLt hfree
  cases h.symm.trans hslot

theorem addDescriptorLocked_cases (table : DescriptorTable D) (descriptor : D) :
    (∃ n, (numbers table).LowestFree n ∧ (addDescriptorLocked table descriptor).1 = n ∧
      numbers (addDescriptorLocked table descriptor).2 =
        Function.update (numbers table) n (some descriptor)) ∨
    ((numbers table).Full ∧ addDescriptorLocked table descriptor = (-1, table)) := by
  cases hslot : table.nextFreeSlot 0 with
  | none =>
      right
      have hfull := full_of_nextFreeSlot hslot
      constructor
      · exact hfull
      · rw [addDescriptorLocked,
          DescriptorTable.addDescriptor_of_full descriptor fun fd hlt => hfull ⟨fd, hlt⟩]
  | some slot =>
      left
      refine ⟨_, lowestFree_of_nextFreeSlot hslot, ?_⟩
      rw [addDescriptorLocked, DescriptorTable.addDescriptor_of_nextFreeSlot descriptor hslot]
      constructor
      · rfl
      · exact numbers_update _ (DescriptorTable.getDescriptor_fill descriptor hslot)

theorem dup2_of_inside {oldFd : Int} (newFd : Fin kMaxDescriptors) {descriptor : D}
    (held : (numbers table).held oldFd = some descriptor) :
    (dup2 table oldFd newFd).1 = newFd ∧
      numbers (dup2 table oldFd newFd).2 =
        Function.update (numbers table) newFd (some descriptor) := by
  have hold := held
  rw [held_numbers] at hold
  obtain ⟨old, rfl, hheld⟩ := FileNumbers.exists_coe_of_held held
  have hsuccess : (table.dup2 old newFd).1 = true := by
    rw [DescriptorTable.dup2_eq_true (Option.isSome_of_eq_some hheld)]
    simp
  have hslots := DescriptorTable.getDescriptor_dup2 table old newFd
  rw [if_pos ⟨Option.isSome_of_eq_some hheld, newFd.isLt⟩] at hslots
  rcases hdup : table.dup2 old newFd with ⟨success, table'⟩
  rw [hdup] at hsuccess hslots
  subst hsuccess
  have hrun : dup2 table old newFd = ((newFd : Int), table') := by
    rw [dup2, hold]
    simp [hdup]
  rw [hrun]
  constructor
  · rfl
  · rw [numbers_update newFd.isLt hslots]
    exact congrArg _ hheld

theorem dup2_self {fd : Int} {descriptor : D} (held : (numbers table).held fd = some descriptor) :
    dup2 table fd fd = (fd, table) := by
  have hold := held
  rw [held_numbers] at hold
  obtain ⟨n, rfl, hheld⟩ := FileNumbers.exists_coe_of_held held
  have hslot : table.getDescriptor n = some descriptor := hheld
  have hdup : table.dup2 n n = (true, table) := by
    rw [DescriptorTable.dup2]
    split
    · rename_i hnone
      exact absurd (hslot.symm.trans hnone) (Option.some_ne_none _)
    · simp
  rw [dup2, hold]
  simp [hdup]

theorem dup2_outside {oldFd newFd : Int} (h : newFd < 0 ∨ (kMaxDescriptors : Int) ≤ newFd) :
    dup2 table oldFd newFd = (-1, table) := by
  rw [dup2]
  split
  · rfl
  · rename_i descriptor hold
    split_ifs with hnegative
    · rfl
    · have hle : ¬ newFd.toNat < kMaxDescriptors := by omega
      rw [← held_numbers] at hold
      obtain ⟨old, rfl, hheld⟩ := FileNumbers.exists_coe_of_held hold
      have hslot : table.getDescriptor old = some descriptor := hheld
      have hdup : table.dup2 old newFd.toNat = (false, table) := by
        rw [DescriptorTable.dup2]
        split
        · rfl
        · rw [dif_neg hle]
      simp [hdup]

theorem numbers_closeDescriptor (table : DescriptorTable D) (n : Fin kMaxDescriptors) :
    numbers (table.closeDescriptor n) = Function.update (numbers table) n none :=
  numbers_update n.isLt (DescriptorTable.getDescriptor_closeDescriptor table n)

theorem exists_occupied (h : table.slots.any Option.isSome = true) :
    ∃ n, numbers table n ≠ none := by
  obtain ⟨slot, hmem, hsome⟩ := List.any_eq_true.mp h
  obtain ⟨i, hi, rfl⟩ := List.getElem_of_mem hmem
  refine ⟨⟨i, Nat.lt_of_lt_of_le hi table.bounded⟩, ?_⟩
  rw [numbers, DescriptorTable.getDescriptor, List.getElem?_eq_getElem hi]
  exact Option.isSome_iff_ne_none.mp hsome

theorem numbers_eq_none (h : ¬ table.slots.any Option.isSome = true) (n : Fin kMaxDescriptors) :
    numbers table n = none := by
  rw [numbers, DescriptorTable.getDescriptor]
  by_cases hlt : n < table.slots.length
  · rw [List.getElem?_eq_getElem hlt]
    by_contra hheld
    apply h
    exact List.any_eq_true.mpr ⟨_, List.getElem_mem hlt, Option.isSome_iff_ne_none.mpr hheld⟩
  · rw [List.getElem?_eq_none (by omega)]
    rfl

theorem answers_installStandardStreams (table : DescriptorTable D)
    (input output error : Option D) :
    (numbers table).Answers (.installStandardStreams input output error)
      (.installed (installStandardStreams table input output error).1)
      (numbers (installStandardStreams table input output error).2) := by
  rcases input with _ | input
  · exact .installStandardStreams_null (.inl rfl)
  rcases output with _ | output
  · exact .installStandardStreams_null (.inr (.inl rfl))
  rcases error with _ | error
  · exact .installStandardStreams_null (.inr (.inr rfl))
  rw [installStandardStreams]
  split_ifs with hoccupied
  · obtain ⟨n, hn⟩ := exists_occupied hoccupied
    exact .installStandardStreams_occupied hn
  · have hempty := numbers_eq_none hoccupied
    have hslots : numbers ⟨[some input, some output, some error], by simp [kMaxDescriptors]⟩ =
        Function.update (Function.update (Function.update (numbers table) 0 (some input)) 1
          (some output)) 2 (some error) := by
      funext n
      have hother := hempty n
      rcases n with ⟨_ | _ | _ | n, hn⟩
      · rfl
      · rfl
      · rfl
      · have hone : (1 : Fin kMaxDescriptors).val = 1 := rfl
        have htwo : (2 : Fin kMaxDescriptors).val = 2 := rfl
        simp only [Function.update_apply, Fin.ext_iff, hone, htwo, hother]
        simp [numbers, DescriptorTable.getDescriptor]
    rw [hslots]
    exact .installStandardStreams hempty

theorem answers_createPipe (table : DescriptorTable D) (ends : Option (D × D)) :
    (numbers table).Answers (.createPipe ends) (.pipe (createPipe table ends).1)
      (numbers (createPipe table ends).2) := by
  rcases ends with _ | ⟨readEnd, writeEnd⟩
  · exact .createPipe_refused
  cases hfirst : table.nextFreeSlot 0 with
  | none =>
      have hfull := full_of_nextFreeSlot hfirst
      have hpipe : table.createPipe readEnd writeEnd = (none, table) := by
        rw [DescriptorTable.createPipe, hfirst]
        rfl
      rw [createPipe, hpipe]
      exact .createPipe_tooFew fun n m hn => absurd hn (hfull n)
  | some first =>
      have hlowest := lowestFree_of_nextFreeSlot hfirst
      cases hsecond : table.nextFreeSlot (first + 1) with
      | none =>
          have hpipe : table.createPipe readEnd writeEnd = (none, table) := by
            rw [DescriptorTable.createPipe, hfirst, Option.bind_some, hsecond]
          rw [createPipe, hpipe]
          have honly (n : Fin kMaxDescriptors) (hn : numbers table n = none) : n = first := by
            by_contra hne
            have hle : first ≤ n := hlowest.2 n hn
            have habove : first + 1 ≤ n := by omega
            obtain ⟨slot, hslot⟩ := DescriptorTable.nextFreeSlot_isSome habove n.isLt hn
            cases hsecond.symm.trans hslot
          exact .createPipe_tooFew fun n m hn hm => Fin.ext ((honly n hn).trans (honly m hm).symm)
      | some second =>
          obtain ⟨hplaced, hslots⟩ :=
            DescriptorTable.createPipe_of_free readEnd writeEnd hfirst hsecond
          obtain ⟨hle, hfree⟩ := DescriptorTable.getDescriptor_nextFreeSlot hsecond
          have hfirstLt := DescriptorTable.nextFreeSlot_lt hfirst
          have hsecondLt := DescriptorTable.nextFreeSlot_lt hsecond
          have hlowestTwo : (numbers table).TwoLowestFree ⟨first, hfirstLt⟩ ⟨second, hsecondLt⟩ := by
            refine ⟨hlowest, Fin.mk_lt_mk.mpr (by omega), hfree, ?_⟩
            intro k hk
            by_cases hsame : k = ⟨first, hfirstLt⟩
            · exact .inl hsame
            · right
              have habove : first ≤ k := hlowest.2 k hk
              have hne : (k : Nat) ≠ first := fun heq => hsame (Fin.ext heq)
              exact DescriptorTable.nextFreeSlot_le hsecond (by omega) hk
          rcases hpipe : table.createPipe readEnd writeEnd with ⟨slots, table'⟩
          rw [hpipe] at hplaced hslots
          subst hplaced
          rw [createPipe, hpipe]
          have hnumbers : numbers table' =
              Function.update (Function.update (numbers table) ⟨first, hfirstLt⟩ (some readEnd))
                ⟨second, hsecondLt⟩ (some writeEnd) := by
            funext n
            simp only [numbers, hslots, Function.update_apply, Fin.ext_iff]
          rw [hnumbers]
          exact .createPipe hlowestTwo

/-- Each call answers as the open files by number do. -/
theorem answers_call (c : Call D) (table : DescriptorTable D) :
    (numbers table).Answers c (call c table).1 (numbers (call c table).2) := by
  cases c with
  | getDescriptor fd =>
      rw [call, ← held_numbers]
      exact .getDescriptor
  | addDescriptor descriptor =>
      rcases descriptor with _ | descriptor
      · exact .addDescriptor_null
      · rcases addDescriptorLocked_cases table descriptor with
          ⟨n, hlowest, hnumber, hslots⟩ | ⟨hfull, hrun⟩
        · simp only [call, addDescriptor, Prod.map, hnumber, id_eq, hslots]
          exact .addDescriptor hlowest
        · simp only [call, addDescriptor, Prod.map, hrun, id_eq]
          exact .addDescriptor_full hfull
  | dup fd =>
      cases hheld : getDescriptor table fd with
      | none =>
          simp only [call, dup, hheld, Prod.map, id_eq]
          exact .dup_empty ((held_numbers table fd).trans hheld)
      | some descriptor =>
          have held := (held_numbers table fd).trans hheld
          rcases addDescriptorLocked_cases table descriptor with
            ⟨n, hlowest, hnumber, hslots⟩ | ⟨hfull, hrun⟩
          · simp only [call, dup, hheld, Prod.map, hnumber, id_eq, hslots]
            exact .dup held hlowest
          · simp only [call, dup, hheld, Prod.map, hrun, id_eq]
            exact .dup_full held hfull
  | dup2 oldFd newFd =>
      by_cases houtside : newFd < 0 ∨ (kMaxDescriptors : Int) ≤ newFd
      · simp only [call, dup2_outside houtside, Prod.map, id_eq]
        exact .dup2_outside houtside
      cases hheld : getDescriptor table oldFd with
      | none =>
          simp only [call, dup2, hheld, Prod.map, id_eq]
          exact .dup2_empty ((held_numbers table oldFd).trans hheld)
      | some descriptor =>
          have held := (held_numbers table oldFd).trans hheld
          by_cases hself : oldFd = newFd
          · subst hself
            simp only [call, dup2_self held, Prod.map, id_eq]
            exact .dup2_self rfl held
          · obtain ⟨n, rfl⟩ : ∃ n : Fin kMaxDescriptors, newFd = n :=
              ⟨⟨newFd.toNat, by omega⟩, by simp; omega⟩
            obtain ⟨hnumber, hslots⟩ := dup2_of_inside n held
            simp only [call, Prod.map, hnumber, id_eq, hslots]
            exact .dup2 hself held rfl
  | closeDescriptor fd =>
      cases hheld : getDescriptor table fd with
      | none =>
          simp only [call, closeDescriptor, hheld, Prod.map, id_eq]
          exact .closeDescriptor_empty ((held_numbers table fd).trans hheld)
      | some descriptor =>
          obtain ⟨n, rfl, held⟩ :=
            FileNumbers.exists_coe_of_held ((held_numbers table fd).trans hheld)
          simp only [call, closeDescriptor, hheld, Prod.map, id_eq, Int.toNat_natCast,
            numbers_closeDescriptor]
          exact .closeDescriptor rfl held
  | installStandardStreams input output error =>
      exact answers_installStandardStreams table input output error
  | createPipe ends => exact answers_createPipe table ends
  | releaseAllDescriptors => exact .releaseAllDescriptors

theorem run_run (calls : List (Call D)) (table : DescriptorTable D) :
    (numbers table).Run calls (run calls table).1 (numbers (run calls table).2) := by
  induction calls generalizing table with
  | nil => exact .nil
  | cons c calls ih => exact .cons (answers_call c table) (ih _)

/-- Whatever calls a process makes, its table answers them as its open files by number do. -/
theorem run_answers_iff (calls : List (Call D)) (replies : List (Reply D)) (table : DescriptorTable D)
    (last : FileNumbers D) :
    (numbers table).Run calls replies last ↔
      replies = (run calls table).1 ∧ last = numbers (run calls table).2 := by
  constructor
  · intro hrun
    exact hrun.unique (run_run calls table)
  · rintro ⟨rfl, rfl⟩
    exact run_run calls table

/-- A number that holds nothing is not duplicated, however many numbers are free. -/
theorem dup_of_nothing :
    (numbers (.empty : DescriptorTable Nat)).LowestFree 0 ∧
      (dup (.empty : DescriptorTable Nat) 0).1 = -1 := by
  constructor
  · have hslot : (.empty : DescriptorTable Nat).nextFreeSlot 0 = some 0 := rfl
    exact lowestFree_of_nextFreeSlot hslot
  · rfl

end Haisos.ProcessFileIO
