import Mathlib.Data.List.Basic
import Mathlib.Logic.Function.Basic

/-!
# Descriptors

What `Read` and `Write` of a descriptor return on failure, anything else being a number
of bytes; and the table of `ProcessFileIO.cpp`, for descriptors of type `D`: it grows up
to `kMaxDescriptors` slots, and a descriptor that is added takes the lowest free one.
What each operation does is said of the slots as a function.
-/

namespace Haisos

def kIOError : Int := -1

def kIOBrokenPipe : Int := -2

def kIOInterrupted : Int := -3

def kMaxDescriptors : Nat := 1024

/-- `m_descriptors`. -/
structure DescriptorTable (D : Type) where
  slots : List (Option D)
  bounded : slots.length ≤ kMaxDescriptors

namespace DescriptorTable

variable {D : Type}

def empty : DescriptorTable D := ⟨[], Nat.zero_le _⟩

def getDescriptor (table : DescriptorTable D) (fd : Nat) : Option D := table.slots[fd]?.join

/-- `NextFreeSlotLocked`: a hole, or the slot the table may still grow by. -/
def nextFreeSlot (table : DescriptorTable D) (start : Nat) : Option Nat :=
  match (table.slots.drop start).findIdx? Option.isNone with
  | some i => some (start + i)
  | none =>
      if max start table.slots.length < kMaxDescriptors then some (max start table.slots.length)
      else none

theorem nextFreeSlot_lt {table : DescriptorTable D} {start slot : Nat}
    (h : table.nextFreeSlot start = some slot) : slot < kMaxDescriptors := by
  rw [nextFreeSlot] at h
  split at h
  · rename_i i hi
    have hlt := (List.findIdx?_eq_some_iff_findIdx_eq.mp hi).1
    have hbounded := table.bounded
    simp only [List.length_drop] at hlt
    cases h
    omega
  · split at h
    · cases h
      assumption
    · cases h

theorem getDescriptor_nextFreeSlot {table : DescriptorTable D} {start slot : Nat}
    (h : table.nextFreeSlot start = some slot) :
    start ≤ slot ∧ table.getDescriptor slot = none := by
  rw [nextFreeSlot] at h
  split at h
  · rename_i i hi
    cases h
    obtain ⟨hlt, hnone, -⟩ := List.findIdx?_eq_some_iff_getElem.mp hi
    refine ⟨Nat.le_add_right start i, ?_⟩
    rw [List.getElem_drop, Option.isNone_iff_eq_none] at hnone
    rw [List.length_drop] at hlt
    rw [getDescriptor, List.getElem?_eq_getElem (by omega), hnone]
    rfl
  · split at h
    · cases h
      refine ⟨Nat.le_max_left _ _, ?_⟩
      rw [getDescriptor, List.getElem?_eq_none (Nat.le_max_right _ _)]
      rfl
    · cases h

theorem getDescriptor_of_noHole {table : DescriptorTable D} {start fd : Nat}
    (h : (table.slots.drop start).findIdx? Option.isNone = none) (hstart : start ≤ fd)
    (hlt : fd < table.slots.length) : table.getDescriptor fd ≠ none := by
  intro hfree
  rw [List.findIdx?_eq_none_iff] at h
  have hmem : table.slots[fd] ∈ table.slots.drop start := by
    rw [List.mem_drop_iff_getElem]
    exact ⟨fd - start, by omega, by congr 1; omega⟩
  have hheld := h _ hmem
  rw [getDescriptor, List.getElem?_eq_getElem hlt] at hfree
  rw [show table.slots[fd] = none from hfree] at hheld
  cases hheld

theorem nextFreeSlot_isSome {table : DescriptorTable D} {start free : Nat} (hstart : start ≤ free)
    (hfree : free < kMaxDescriptors) (h : table.getDescriptor free = none) :
    ∃ slot, table.nextFreeSlot start = some slot := by
  rw [nextFreeSlot]
  split
  · exact ⟨_, rfl⟩
  · rename_i hnone
    have hlen : table.slots.length ≤ free := by
      by_contra hlt
      exact getDescriptor_of_noHole hnone hstart (Nat.lt_of_not_le hlt) h
    rw [if_pos (by omega)]
    exact ⟨_, rfl⟩

theorem nextFreeSlot_le {table : DescriptorTable D} {start slot free : Nat}
    (h : table.nextFreeSlot start = some slot) (hstart : start ≤ free)
    (hfree : table.getDescriptor free = none) : slot ≤ free := by
  rw [nextFreeSlot] at h
  split at h
  · rename_i i hi
    cases h
    obtain ⟨hlt, -, hbelow⟩ := List.findIdx?_eq_some_iff_getElem.mp hi
    by_contra hle
    have hindex : free - start < i := by omega
    have hheld := hbelow (free - start) hindex
    have hlength : free < table.slots.length := by
      rw [List.length_drop] at hlt
      omega
    have hslot : table.slots[start + (free - start)] = table.slots[free] := by
      congr 1
      omega
    rw [List.getElem_drop, hslot] at hheld
    rw [getDescriptor, List.getElem?_eq_getElem hlength] at hfree
    rw [show table.slots[free] = none from hfree] at hheld
    exact hheld rfl
  · rename_i hnone
    split at h
    · cases h
      by_contra hlt
      exact getDescriptor_of_noHole hnone hstart (by omega) hfree
    · cases h

/-- The slot of a new descriptor is filled, by the end of the table or in a hole. -/
def fill (table : DescriptorTable D) (slot : Nat) (descriptor : D) (h : slot < kMaxDescriptors) :
    DescriptorTable D where
  slots :=
    if slot = table.slots.length then table.slots ++ [some descriptor]
    else table.slots.set slot (some descriptor)
  bounded := by
    split
    · rw [List.length_append, List.length_singleton]
      omega
    · rw [List.length_set]
      exact table.bounded

/-- `AddDescriptorLocked`. -/
def addDescriptor (table : DescriptorTable D) (descriptor : D) : Option Nat × DescriptorTable D :=
  match h : table.nextFreeSlot 0 with
  | none => (none, table)
  | some slot => (some slot, table.fill slot descriptor (nextFreeSlot_lt h))

/-- `Dup2`: `false` for an empty slot and for a slot that the table does not have. -/
def dup2 (table : DescriptorTable D) (oldFd newFd : Nat) : Bool × DescriptorTable D :=
  match table.getDescriptor oldFd with
  | none => (false, table)
  | some descriptor =>
      if h : newFd < kMaxDescriptors then
        if oldFd = newFd then (true, table)
        else
          (true,
            { slots :=
                (table.slots ++ List.replicate (newFd + 1 - table.slots.length) none).set newFd
                  (some descriptor)
              bounded := by
                have hbounded := table.bounded
                rw [List.length_set, List.length_append, List.length_replicate]
                omega })
      else (false, table)

def closeDescriptor (table : DescriptorTable D) (fd : Nat) : DescriptorTable D where
  slots := table.slots.set fd none
  bounded := by
    rw [List.length_set]
    exact table.bounded

/-- `CreatePipe`, of the ends of a pipe: a table without two free slots is left untouched. -/
def createPipe (table : DescriptorTable D) (readEnd writeEnd : D) :
    Option (Nat × Nat) × DescriptorTable D :=
  match (table.nextFreeSlot 0).bind fun slot => table.nextFreeSlot (slot + 1) with
  | none => (none, table)
  | some _ =>
      let read := table.addDescriptor readEnd
      let write := read.2.addDescriptor writeEnd
      match read.1, write.1 with
      | some readSlot, some writeSlot => (some (readSlot, writeSlot), write.2)
      | _, _ => (none, write.2)

/-! ## The slots -/

theorem getDescriptor_closeDescriptor (table : DescriptorTable D) (fd : Nat) :
    (table.closeDescriptor fd).getDescriptor = Function.update table.getDescriptor fd none := by
  funext other
  rw [getDescriptor, closeDescriptor, List.getElem?_set, Function.update_apply]
  split_ifs <;> first | rfl | omega

theorem nextFreeSlot_zero_le {table : DescriptorTable D} {slot : Nat}
    (h : table.nextFreeSlot 0 = some slot) : slot ≤ table.slots.length := by
  rw [nextFreeSlot] at h
  split at h
  · rename_i i hi
    have hlt := (List.findIdx?_eq_some_iff_findIdx_eq.mp hi).1
    simp only [List.drop_zero] at hlt
    cases h
    omega
  · split at h
    · cases h
      exact Nat.le_of_eq (Nat.zero_max _)
    · cases h

theorem getDescriptor_fill {table : DescriptorTable D} {slot : Nat} (descriptor : D)
    (h : table.nextFreeSlot 0 = some slot) :
    (table.fill slot descriptor (nextFreeSlot_lt h)).getDescriptor =
      Function.update table.getDescriptor slot (some descriptor) := by
  have hle := nextFreeSlot_zero_le h
  funext other
  simp only [getDescriptor, fill, Function.update_apply]
  split_ifs with hgrown hother hother
  · rw [hother, hgrown, List.getElem?_append_right (Nat.le_refl _), Nat.sub_self]
    rfl
  · by_cases hlt : other < table.slots.length
    · rw [List.getElem?_append_left hlt]
    · rw [List.getElem?_eq_none (by simp; omega), List.getElem?_eq_none (by omega)]
  · rw [hother, List.getElem?_set_self (by omega)]
    rfl
  · rw [List.getElem?_set_ne (Ne.symm hother)]

theorem addDescriptor_of_nextFreeSlot {table : DescriptorTable D} {slot : Nat} (descriptor : D)
    (h : table.nextFreeSlot 0 = some slot) :
    table.addDescriptor descriptor =
      (some slot, table.fill slot descriptor (nextFreeSlot_lt h)) := by
  rw [addDescriptor]
  split
  · rename_i hnone
    rw [h] at hnone
    cases hnone
  · rename_i other hother
    obtain rfl : slot = other := Option.some.inj (h.symm.trans hother)
    rfl

theorem addDescriptor_of_free {table : DescriptorTable D} {free : Nat} (descriptor : D)
    (hfree : free < kMaxDescriptors) (h : table.getDescriptor free = none) :
    ∃ slot, (table.addDescriptor descriptor).1 = some slot ∧ table.getDescriptor slot = none ∧
      slot < kMaxDescriptors ∧
      (table.addDescriptor descriptor).2.getDescriptor =
        Function.update table.getDescriptor slot (some descriptor) := by
  obtain ⟨slot, hslot⟩ := nextFreeSlot_isSome (Nat.zero_le _) hfree h
  rw [addDescriptor_of_nextFreeSlot descriptor hslot]
  exact ⟨slot, rfl, (getDescriptor_nextFreeSlot hslot).2, nextFreeSlot_lt hslot,
    getDescriptor_fill descriptor hslot⟩

theorem addDescriptor_of_full {table : DescriptorTable D} (descriptor : D)
    (h : ∀ fd < kMaxDescriptors, table.getDescriptor fd ≠ none) :
    table.addDescriptor descriptor = (none, table) := by
  rw [addDescriptor]
  split
  · rfl
  · rename_i slot hslot
    exact absurd (getDescriptor_nextFreeSlot hslot).2 (h slot (nextFreeSlot_lt hslot))

theorem getDescriptor_dup2 (table : DescriptorTable D) (oldFd newFd : Nat) :
    (table.dup2 oldFd newFd).2.getDescriptor =
      if (table.getDescriptor oldFd).isSome ∧ newFd < kMaxDescriptors then
        Function.update table.getDescriptor newFd (table.getDescriptor oldFd)
      else table.getDescriptor := by
  rw [dup2]
  rcases hold : table.getDescriptor oldFd with _ | descriptor
  · rfl
  · by_cases hlt : newFd < kMaxDescriptors
    · simp only [hlt, ↓reduceDIte, Option.isSome_some, and_self, ↓reduceIte]
      split_ifs with heq
      · rw [← heq, ← hold, Function.update_eq_self]
      · funext other
        simp only [getDescriptor, Function.update_apply]
        split_ifs with hother
        · rw [hother, List.getElem?_set_self]
          · rfl
          · simp only [List.length_append, List.length_replicate]
            omega
        · rw [List.getElem?_set_ne (Ne.symm hother), List.getElem?_append]
          split_ifs with hin
          · rfl
          · rw [List.getElem?_eq_none (l := table.slots) (by omega), List.getElem?_replicate]
            split_ifs <;> rfl
    · simp [hlt]

theorem dup2_eq_true {table : DescriptorTable D} {oldFd newFd : Nat}
    (h : (table.getDescriptor oldFd).isSome) :
    (table.dup2 oldFd newFd).1 = decide (newFd < kMaxDescriptors) := by
  obtain ⟨descriptor, hold⟩ := Option.isSome_iff_exists.mp h
  rw [dup2, hold]
  split
  · simp_all
  · rename_i _ hsome
    split_ifs with hlt heq <;> simp [hlt]

theorem getDescriptor_of_le {table : DescriptorTable D} {fd : Nat} (h : kMaxDescriptors ≤ fd) :
    table.getDescriptor fd = none := by
  rw [getDescriptor, List.getElem?_eq_none (Nat.le_trans table.bounded h)]
  rfl

theorem createPipe_of_free {table : DescriptorTable D} {first second : Nat} (readEnd writeEnd : D)
    (hfirst : table.nextFreeSlot 0 = some first)
    (hsecond : table.nextFreeSlot (first + 1) = some second) :
    (table.createPipe readEnd writeEnd).1 = some (first, second) ∧
      (table.createPipe readEnd writeEnd).2.getDescriptor =
        Function.update (Function.update table.getDescriptor first (some readEnd)) second
          (some writeEnd) := by
  have hread := addDescriptor_of_nextFreeSlot readEnd hfirst
  have hslots := getDescriptor_fill readEnd hfirst
  obtain ⟨hle, hsecondFree⟩ := getDescriptor_nextFreeSlot hsecond
  obtain ⟨other, hother⟩ : ∃ other,
      (table.fill first readEnd (nextFreeSlot_lt hfirst)).nextFreeSlot 0 = some other :=
    nextFreeSlot_isSome (Nat.zero_le second) (nextFreeSlot_lt hsecond) <| by
      rw [hslots, Function.update_of_ne (by omega), hsecondFree]
  have hsame : other = second := by
    have hfree := (getDescriptor_nextFreeSlot hother).2
    rw [hslots] at hfree
    have hne : other ≠ first := by
      rintro rfl
      rw [Function.update_self] at hfree
      cases hfree
    rw [Function.update_of_ne hne] at hfree
    have hlower := nextFreeSlot_le hfirst (Nat.zero_le other) hfree
    apply Nat.le_antisymm
    · apply nextFreeSlot_le hother (Nat.zero_le second)
      rw [hslots, Function.update_of_ne (by omega), hsecondFree]
    · exact nextFreeSlot_le hsecond (by omega) hfree
  subst hsame
  have hwrite := addDescriptor_of_nextFreeSlot writeEnd hother
  have hpipe : table.createPipe readEnd writeEnd =
      (some (first, other),
        (table.fill first readEnd (nextFreeSlot_lt hfirst)).fill other writeEnd
          (nextFreeSlot_lt hother)) := by
    rw [createPipe, hfirst, Option.bind_some, hsecond]
    simp only [hread, hwrite]
  rw [hpipe, getDescriptor_fill writeEnd hother, hslots]
  constructor <;> rfl

theorem createPipe_cases (table : DescriptorTable D) (readEnd writeEnd : D) :
    table.createPipe readEnd writeEnd = (none, table) ∨
      ∃ readSlot writeSlot, (table.createPipe readEnd writeEnd).1 = some (readSlot, writeSlot) ∧
        readSlot ≠ writeSlot ∧ table.getDescriptor readSlot = none ∧
        table.getDescriptor writeSlot = none ∧
        (table.createPipe readEnd writeEnd).2.getDescriptor =
          Function.update (Function.update table.getDescriptor readSlot (some readEnd)) writeSlot
            (some writeEnd) := by
  rcases hfirst : table.nextFreeSlot 0 with _ | first
  · left
    rw [createPipe, hfirst]
    rfl
  rcases hsecond : table.nextFreeSlot (first + 1) with _ | second
  · left
    rw [createPipe, hfirst, Option.bind_some, hsecond]
  right
  obtain ⟨hresult, hslots⟩ := createPipe_of_free readEnd writeEnd hfirst hsecond
  obtain ⟨hle, hsecondFree⟩ := getDescriptor_nextFreeSlot hsecond
  exact ⟨first, second, hresult, by omega, (getDescriptor_nextFreeSlot hfirst).2, hsecondFree,
    hslots⟩

end DescriptorTable

end Haisos
