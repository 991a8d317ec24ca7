import Haisos.RingBuffer
import Haisos.DescriptorTable

/-!
# The buffer of a pipe

`PipeBuffer` is the ring the two ends of a pipe share.  `Read` and `Write` are
loops around a wait; `readPass` and `writePass` are one pass of each, all of it
under the pipe's mutex.
-/

namespace Haisos.PipeService

def kPipeAtomicWriteSize : Nat := 4096

structure PipeBuffer where
  storage : List UInt8 := []
  head : Nat := 0
  size : Nat := 0
  readEndOpen : Bool := true
  writeEndOpen : Bool := true
  capacity : Nat
  deriving DecidableEq, Repr

/-- `out` is what the caller's buffer holds when the call returns. -/
inductive ReadPass where
  | returned (result : Int) (out : List UInt8)
  | waits
  deriving DecidableEq, Repr

/-- `written` is the local count of `Write` after the pass. -/
inductive WritePass where
  | returned (written : Nat) (result : Int)
  | continued (written : Nat)
  | waits
  deriving DecidableEq, Repr

namespace PipeBuffer

def create (capacity : Nat) : PipeBuffer := { capacity := capacity }

/-- The bytes written and not yet read, oldest first. -/
def buffered (pipe : PipeBuffer) : List UInt8 :=
  RingBuffer.contents pipe.storage pipe.head pipe.size

def readPass (pipe : PipeBuffer) (count : Nat) (stopRequested : Bool) :
    ReadPass × PipeBuffer :=
  if pipe.size > 0 then
    let n := min count pipe.size
    (.returned n (RingBuffer.copyOut pipe.storage pipe.head n),
      { pipe with
        head := (pipe.head + n) % pipe.storage.length
        size := pipe.size - n })
  else if !pipe.writeEndOpen then
    (.returned 0 [], pipe)
  else if stopRequested then
    (.returned kIOInterrupted [], pipe)
  else
    (.waits, pipe)

/-- Whether a write of `count` bytes is copied in one piece or not at all. -/
def isAtomic (pipe : PipeBuffer) (count : Nat) : Bool :=
  decide (count ≤ min kPipeAtomicWriteSize pipe.capacity)

/-- The room a write of `count` bytes waits for. -/
def need (pipe : PipeBuffer) (count : Nat) : Nat :=
  if pipe.isAtomic count then count else 1

def room (pipe : PipeBuffer) : Nat := pipe.capacity - pipe.size

def allocated (pipe : PipeBuffer) : List UInt8 :=
  if pipe.storage.isEmpty then List.replicate pipe.capacity 0 else pipe.storage

def copyIn (pipe : PipeBuffer) (bytes : List UInt8) : PipeBuffer :=
  { pipe with
    storage := RingBuffer.copyIn pipe.allocated
      ((pipe.head + pipe.size) % pipe.allocated.length) bytes
    size := pipe.size + bytes.length }

def writePass (pipe : PipeBuffer) (buf : List UInt8) (written : Nat)
    (stopRequested : Bool) : WritePass × PipeBuffer :=
  if !pipe.readEndOpen then
    (.returned written (if written > 0 then written else kIOBrokenPipe), pipe)
  else if pipe.room ≥ pipe.need buf.length then
    let n := min pipe.room (buf.length - written)
    let pipe := pipe.copyIn ((buf.drop written).take n)
    let written := written + n
    if written = buf.length then
      (.returned written written, pipe)
    else
      -- the pipe is now full; the next pass waits
      (.continued written, pipe)
  else if stopRequested then
    (.returned written (if written > 0 then written else kIOInterrupted), pipe)
  else
    (.waits, pipe)

/-- Nobody can read the buffered bytes any more: they are dropped with the ring. -/
def closeReadEnd (pipe : PipeBuffer) : PipeBuffer :=
  { pipe with readEndOpen := false, storage := [], head := 0, size := 0 }

def closeWriteEnd (pipe : PipeBuffer) : PipeBuffer :=
  { pipe with writeEndOpen := false }

/-! ## The ring is well formed -/

/-- The ring is not allocated, or as long as the capacity with its head inside. -/
structure Sound (pipe : PipeBuffer) : Prop where
  size_le : pipe.size ≤ pipe.capacity
  ring : pipe.storage = [] ∧ pipe.head = 0 ∧ pipe.size = 0 ∨
    pipe.storage.length = pipe.capacity ∧ pipe.head < pipe.capacity
  closed : pipe.readEndOpen = false → pipe.storage = []

structure SameEnds (pipe pipe' : PipeBuffer) : Prop where
  readEndOpen : pipe'.readEndOpen = pipe.readEndOpen
  writeEndOpen : pipe'.writeEndOpen = pipe.writeEndOpen
  capacity : pipe'.capacity = pipe.capacity

theorem SameEnds.rfl {pipe : PipeBuffer} : SameEnds pipe pipe := ⟨.refl _, .refl _, .refl _⟩

theorem sound_create (capacity : Nat) : (create capacity).Sound :=
  ⟨Nat.zero_le _, .inl ⟨rfl, rfl, rfl⟩, fun h => nomatch h⟩

@[simp]
theorem buffered_create (capacity : Nat) : (create capacity).buffered = [] :=
  RingBuffer.contents_zero _ _

theorem Sound.size_le_length {pipe : PipeBuffer} (h : pipe.Sound) :
    pipe.size ≤ pipe.storage.length := by
  rcases h.ring with ⟨-, -, hsize⟩ | ⟨hlength, -⟩
  · omega
  · exact hlength ▸ h.size_le

theorem Sound.length_buffered {pipe : PipeBuffer} (h : pipe.Sound) :
    pipe.buffered.length = pipe.size :=
  RingBuffer.length_contents _ h.size_le_length

theorem Sound.buffered_eq_nil {pipe : PipeBuffer} (h : pipe.Sound) (hsize : pipe.size = 0) :
    pipe.buffered = [] :=
  List.eq_nil_of_length_eq_zero (h.length_buffered.trans hsize)

theorem Sound.closeReadEnd {pipe : PipeBuffer} (_ : pipe.Sound) : pipe.closeReadEnd.Sound :=
  ⟨Nat.zero_le _, .inl ⟨rfl, rfl, rfl⟩, fun _ => rfl⟩

theorem Sound.closeWriteEnd {pipe : PipeBuffer} (h : pipe.Sound) : pipe.closeWriteEnd.Sound :=
  ⟨h.size_le, h.ring, h.closed⟩

@[simp]
theorem buffered_closeWriteEnd (pipe : PipeBuffer) :
    pipe.closeWriteEnd.buffered = pipe.buffered := rfl

@[simp]
theorem buffered_closeReadEnd (pipe : PipeBuffer) : pipe.closeReadEnd.buffered = [] :=
  RingBuffer.contents_zero _ _

/-! ## What one pass does -/

structure Took (pipe pipe' : PipeBuffer) (count : Nat) (out : List UInt8) : Prop where
  nonempty : 0 < pipe.size
  length : out.length = min count pipe.size
  front : pipe.buffered = out ++ pipe'.buffered
  sound : pipe'.Sound
  ends : SameEnds pipe pipe'

theorem readPass_took {pipe : PipeBuffer} (h : pipe.Sound) (count : Nat)
    (stopRequested : Bool) (hsize : 0 < pipe.size) :
    ∃ out, (pipe.readPass count stopRequested).1 = .returned out.length out ∧
      Took pipe (pipe.readPass count stopRequested).2 count out := by
  obtain ⟨hlength, hhead⟩ : pipe.storage.length = pipe.capacity ∧
      pipe.head < pipe.capacity := by
    rcases h.ring with ⟨-, -, hzero⟩ | hring
    · omega
    · exact hring
  have hle := h.size_le
  have hn : min count pipe.size ≤ pipe.size := Nat.min_le_right _ _
  have hout : (RingBuffer.copyOut pipe.storage pipe.head (min count pipe.size)).length =
      min count pipe.size :=
    RingBuffer.length_copyOut (by omega) (by omega)
  refine ⟨RingBuffer.copyOut pipe.storage pipe.head (min count pipe.size), ?_, hsize, hout,
    ?_, ?_, ?_⟩
  · simp [readPass, hsize, hout]
  · simp only [readPass, if_pos hsize]
    exact RingBuffer.contents_eq_copyOut_append (by omega) hn (by omega)
  · simp only [readPass, if_pos hsize]
    exact ⟨(Nat.sub_le _ _).trans hle,
      .inr ⟨hlength, hlength ▸ Nat.mod_lt _ (by omega)⟩, h.closed⟩
  · simp only [readPass, if_pos hsize]
    exact ⟨rfl, rfl, rfl⟩

theorem readPass_cases {pipe : PipeBuffer} (h : pipe.Sound) (count : Nat)
    (stopRequested : Bool) :
    (∃ out pipe', pipe.readPass count stopRequested = (.returned out.length out, pipe') ∧
      Took pipe pipe' count out) ∨
    (pipe.readPass count stopRequested = (.returned 0 [], pipe) ∧ pipe.size = 0 ∧
      pipe.writeEndOpen = false) ∨
    (pipe.readPass count stopRequested = (.returned kIOInterrupted [], pipe) ∧
      pipe.size = 0 ∧ pipe.writeEndOpen = true ∧ stopRequested = true) ∨
    (pipe.readPass count stopRequested = (.waits, pipe) ∧ pipe.size = 0 ∧
      pipe.writeEndOpen = true ∧ stopRequested = false) := by
  rcases Nat.eq_zero_or_pos pipe.size with hzero | hpos
  · right
    cases hopen : pipe.writeEndOpen <;> cases stopRequested <;>
      simp [readPass, hzero, hopen]
  · left
    obtain ⟨out, hresult, htook⟩ := readPass_took h count stopRequested hpos
    exact ⟨out, (pipe.readPass count stopRequested).2, Prod.ext hresult rfl, htook⟩

/-- Bytes added to the back of a pipe that has room for them. -/
structure Put (pipe pipe' : PipeBuffer) (bytes : List UInt8) : Prop where
  back : pipe'.buffered = pipe.buffered ++ bytes
  sound : pipe'.Sound
  ends : SameEnds pipe pipe'

theorem buffered_allocated {pipe : PipeBuffer} (h : pipe.Sound) :
    RingBuffer.contents pipe.allocated pipe.head pipe.size = pipe.buffered := by
  rcases h.ring with ⟨-, -, hsize⟩ | ⟨hlength, hhead⟩
  · simp [buffered, hsize]
  · have hne : pipe.storage ≠ [] := List.ne_nil_of_length_pos (by omega)
    simp [buffered, allocated, hne]

theorem length_allocated {pipe : PipeBuffer} (h : pipe.Sound) :
    pipe.allocated.length = pipe.capacity := by
  rcases h.ring with ⟨hstorage, -, -⟩ | ⟨hlength, hhead⟩
  · simp [allocated, hstorage]
  · have hne : pipe.storage ≠ [] := List.ne_nil_of_length_pos (by omega)
    simp [allocated, hne, hlength]

theorem put_copyIn {pipe : PipeBuffer} (h : pipe.Sound) (hopen : pipe.readEndOpen = true)
    (hcapacity : 1 ≤ pipe.capacity) {bytes : List UInt8}
    (hroom : bytes.length ≤ pipe.room) : Put pipe (pipe.copyIn bytes) bytes := by
  have hlength := length_allocated h
  have hle := h.size_le
  have hfit : pipe.size + bytes.length ≤ pipe.capacity := by
    rw [room] at hroom
    omega
  have hhead : pipe.head < pipe.capacity := by
    rcases h.ring with ⟨-, hzero, -⟩ | ⟨-, hhead⟩
    · omega
    · exact hhead
  have hcopied : (RingBuffer.copyIn pipe.allocated
      ((pipe.head + pipe.size) % pipe.allocated.length) bytes).length = pipe.capacity := by
    rw [RingBuffer.length_copyIn _ (Nat.mod_lt _ (by omega)) (by omega), hlength]
  refine ⟨?_, ⟨hfit, .inr ⟨hcopied, hhead⟩, fun hclosed => ?_⟩, rfl, rfl, rfl⟩
  · rw [← buffered_allocated h]
    exact RingBuffer.contents_copyIn (by omega) (by omega)
  · exact absurd (hopen.symm.trans hclosed) (by decide)

/-- The part of `buf` a pass copies in when `written` bytes of it are written. -/
def nextPart (pipe : PipeBuffer) (buf : List UInt8) (written : Nat) : List UInt8 :=
  (buf.drop written).take (min pipe.room (buf.length - written))

theorem length_nextPart (pipe : PipeBuffer) (buf : List UInt8) (written : Nat) :
    (pipe.nextPart buf written).length = min pipe.room (buf.length - written) := by
  simp [nextPart]

theorem writePass_cases {pipe : PipeBuffer} (h : pipe.Sound)
    (hcapacity : 1 ≤ pipe.capacity) (buf : List UInt8) (written : Nat)
    (stopRequested : Bool) :
    (pipe.writePass buf written stopRequested =
        (.returned written (if written > 0 then written else kIOBrokenPipe), pipe) ∧
      pipe.readEndOpen = false) ∨
    (∃ pipe', pipe.writePass buf written stopRequested =
        (if written + (pipe.nextPart buf written).length = buf.length then
          .returned buf.length buf.length
        else .continued (written + (pipe.nextPart buf written).length), pipe') ∧
      pipe.readEndOpen = true ∧ pipe.need buf.length ≤ pipe.room ∧
      Put pipe pipe' (pipe.nextPart buf written)) ∨
    (pipe.writePass buf written stopRequested =
        (.returned written (if written > 0 then written else kIOInterrupted), pipe) ∧
      pipe.readEndOpen = true ∧ pipe.room < pipe.need buf.length ∧
      stopRequested = true) ∨
    (pipe.writePass buf written stopRequested = (.waits, pipe) ∧
      pipe.readEndOpen = true ∧ pipe.room < pipe.need buf.length ∧
      stopRequested = false) := by
  cases hopen : pipe.readEndOpen with
  | false => simp [writePass, hopen]
  | true =>
      right
      rcases Nat.lt_or_ge pipe.room (pipe.need buf.length) with hroom | hroom
      · right
        have hnot : ¬ pipe.need buf.length ≤ pipe.room := by omega
        cases stopRequested <;> simp [writePass, hopen, hnot, hroom]
      · left
        refine ⟨pipe.copyIn (pipe.nextPart buf written), ?_, rfl, hroom,
          put_copyIn h hopen hcapacity ?_⟩
        · have hpart : (buf.drop written).take (pipe.nextPart buf written).length =
              pipe.nextPart buf written := by
            rw [length_nextPart, nextPart]
          simp only [writePass, hopen, hroom, Bool.not_true, Bool.false_eq_true,
            if_false, if_true, hpart, ← length_nextPart pipe buf written]
          split
          · rename_i hall
            simp only [hall]
          · rfl
        · rw [length_nextPart]
          exact Nat.min_le_left _ _

end PipeBuffer

end Haisos.PipeService
