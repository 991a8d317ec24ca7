import Haisos.PipeService.Pipe

/-!
# A pipe without a capacity

`UnboundedPipeBuffer` of `HshUnboundedPipe.cpp` holds its bytes in a string, with
the offset of the first that is not read, and drops what is read from time to
time.  A queue of bytes is what this pipe and the ring of `PipeBuffer` both are.
-/

namespace Haisos.Hsh

open PipeService

def kCompactionThreshold : Nat := 64 * 1024

structure UnboundedPipeBuffer where
  bytes : List UInt8 := []
  readOffset : Nat := 0
  readEndOpen : Bool := true
  writeEndOpen : Bool := true
  offset_le : readOffset ≤ bytes.length := by decide

/-- What is done under the mutex of a pipe; `stopRequested` is what the token of the caller says. -/
inductive PipeStep where
  | read (count : Nat) (stopRequested : Bool)
  | write (buf : List UInt8) (stopRequested : Bool)
  | closeReadEnd
  | closeWriteEnd

inductive PipeReply where
  | read (pass : ReadPass)
  | wrote (result : Option Int)
  | closed

def PipeReply.bytesWritten : PipeReply → Nat
  | .wrote (some result) => result.toNat
  | _ => 0

/-- The replies to the steps in their order, and the pipe they leave. -/
def pipeRun {π : Type} (step : PipeStep → π → PipeReply × π) :
    List PipeStep → π → List PipeReply × π
  | [], pipe => ([], pipe)
  | s :: rest, pipe =>
      let first := step s pipe
      let replies := pipeRun step rest first.2
      (first.1 :: replies.1, replies.2)

namespace UnboundedPipeBuffer

def create : UnboundedPipeBuffer := {}

/-- One pass of the loop of `Read`. -/
def readPass (pipe : UnboundedPipeBuffer) (count : Nat) (stopRequested : Bool) :
    ReadPass × UnboundedPipeBuffer :=
  if pipe.bytes.length > pipe.readOffset then
    let n := min count (pipe.bytes.length - pipe.readOffset)
    let out := (pipe.bytes.drop pipe.readOffset).take n
    if pipe.readOffset + n = pipe.bytes.length then
      (.returned n out, { pipe with bytes := [], readOffset := 0, offset_le := Nat.le_refl 0 })
    else if pipe.readOffset + n ≥ kCompactionThreshold ∧
        pipe.readOffset + n > pipe.bytes.length / 2 then
      (.returned n out,
        { pipe with
          bytes := pipe.bytes.drop (pipe.readOffset + n)
          readOffset := 0
          offset_le := Nat.zero_le _ })
    else
      (.returned n out,
        { pipe with readOffset := pipe.readOffset + n, offset_le := by have := pipe.offset_le; omega })
  else if !pipe.writeEndOpen then
    (.returned 0 [], pipe)
  else if stopRequested then
    (.returned kIOInterrupted [], pipe)
  else
    (.waits, pipe)

def write (pipe : UnboundedPipeBuffer) (buf : List UInt8) : Int × UnboundedPipeBuffer :=
  if !pipe.readEndOpen then
    (kIOBrokenPipe, pipe)
  else
    (buf.length,
      { pipe with
        bytes := pipe.bytes ++ buf
        offset_le := by
          have := pipe.offset_le
          rw [List.length_append]
          omega })

def closeReadEnd (pipe : UnboundedPipeBuffer) : UnboundedPipeBuffer :=
  { pipe with readEndOpen := false, bytes := [], readOffset := 0, offset_le := Nat.le_refl 0 }

def closeWriteEnd (pipe : UnboundedPipeBuffer) : UnboundedPipeBuffer :=
  { pipe with writeEndOpen := false }

def step (s : PipeStep) (pipe : UnboundedPipeBuffer) : PipeReply × UnboundedPipeBuffer :=
  match s with
  | .read count stopRequested =>
      if count = 0 then (.read (.returned 0 []), pipe)
      else (pipe.readPass count stopRequested).map .read id
  | .write buf _ =>
      if buf.length = 0 then (.wrote (some 0), pipe)
      else (pipe.write buf).map (fun result => .wrote (some result)) id
  | .closeReadEnd => (.closed, pipe.closeReadEnd)
  | .closeWriteEnd => (.closed, pipe.closeWriteEnd)

end UnboundedPipeBuffer

/-- The same steps of a pipe with a capacity. -/
def boundedStep (s : PipeStep) (pipe : PipeBuffer) : PipeReply × PipeBuffer :=
  match s with
  | .read count stopRequested =>
      if count = 0 then (.read (.returned 0 []), pipe)
      else (pipe.readPass count stopRequested).map .read id
  | .write buf stopRequested =>
      if buf.length = 0 then (.wrote (some 0), pipe)
      else
        match pipe.writePass buf 0 stopRequested with
        | (.returned _ result, pipe') => (.wrote (some result), pipe')
        | (.continued _, pipe') => (.wrote none, pipe')
        | (.waits, pipe') => (.wrote none, pipe')
  | .closeReadEnd => (.closed, pipe.closeReadEnd)
  | .closeWriteEnd => (.closed, pipe.closeWriteEnd)

/-! ## A queue of bytes -/

structure ByteQueue where
  bytes : List UInt8 := []
  readEndOpen : Bool := true
  writeEndOpen : Bool := true

namespace ByteQueue

def read (queue : ByteQueue) (count : Nat) (stopRequested : Bool) : ReadPass :=
  if queue.bytes ≠ [] then .returned (queue.bytes.take count).length (queue.bytes.take count)
  else if !queue.writeEndOpen then .returned 0 []
  else if stopRequested then .returned kIOInterrupted []
  else .waits

def step (s : PipeStep) (queue : ByteQueue) : PipeReply × ByteQueue :=
  match s with
  | .read count stopRequested =>
      if count = 0 then (.read (.returned 0 []), queue)
      else
        (.read (queue.read count stopRequested), { queue with bytes := queue.bytes.drop count })
  | .write buf _ =>
      if buf.length = 0 then (.wrote (some 0), queue)
      else if queue.readEndOpen then
        (.wrote (some buf.length), { queue with bytes := queue.bytes ++ buf })
      else (.wrote (some kIOBrokenPipe), queue)
  | .closeReadEnd => (.closed, { queue with readEndOpen := false, bytes := [] })
  | .closeWriteEnd => (.closed, { queue with writeEndOpen := false })

theorem length_step (s : PipeStep) (queue : ByteQueue) :
    (step s queue).2.bytes.length ≤ queue.bytes.length + (step s queue).1.bytesWritten := by
  cases s with
  | read count stopRequested =>
      rw [step]
      split_ifs
      · exact Nat.le_add_right _ _
      · simp only [List.length_drop]
        omega
  | write buf stopRequested =>
      rw [step]
      split_ifs
      · exact Nat.le_add_right _ _
      · simp [PipeReply.bytesWritten]
      · exact Nat.le_add_right _ _
  | closeReadEnd => exact Nat.zero_le _
  | closeWriteEnd => exact Nat.le_add_right _ _

end ByteQueue

/-! ## The string with a read offset is a queue -/

namespace UnboundedPipeBuffer

/-- The bytes after `m_readOffset`. -/
def queued (pipe : UnboundedPipeBuffer) : List UInt8 := pipe.bytes.drop pipe.readOffset

def toQueue (pipe : UnboundedPipeBuffer) : ByteQueue :=
  ⟨pipe.queued, pipe.readEndOpen, pipe.writeEndOpen⟩

theorem length_queued (pipe : UnboundedPipeBuffer) :
    pipe.queued.length = pipe.bytes.length - pipe.readOffset := by
  rw [queued, List.length_drop]

theorem readPass_toQueue (pipe : UnboundedPipeBuffer) (count : Nat) (stopRequested : Bool) :
    (pipe.readPass count stopRequested).1 = pipe.toQueue.read count stopRequested ∧
      (pipe.readPass count stopRequested).2.toQueue =
        { pipe.toQueue with bytes := pipe.queued.drop count } := by
  have hoffset := pipe.offset_le
  rw [readPass, ByteQueue.read]
  by_cases hsome : pipe.bytes.length > pipe.readOffset
  · have hne : pipe.toQueue.bytes ≠ [] := by
      apply List.ne_nil_of_length_pos
      have hlength := length_queued pipe
      simp only [toQueue]
      omega
    have hout : (pipe.bytes.drop pipe.readOffset).take
        (min count (pipe.bytes.length - pipe.readOffset)) = pipe.queued.take count := by
      rw [← length_queued, queued, ← List.take_eq_take_min]
    have hcount : min count (pipe.bytes.length - pipe.readOffset) =
        (pipe.queued.take count).length := by
      rw [List.length_take, length_queued]
    have hleft : pipe.bytes.drop
        (pipe.readOffset + min count (pipe.bytes.length - pipe.readOffset)) =
          pipe.queued.drop count := by
      rw [queued, List.drop_drop, ← List.drop_drop, ← List.drop_drop, ← length_queued]
      exact (List.drop_eq_drop_min ..).symm
    rw [if_pos hsome, if_pos hne]
    rw [hcount] at hout hleft
    simp only [hcount, hout]
    split_ifs with hdrained hdominates
    · constructor
      · rfl
      · rw [hdrained, List.drop_length] at hleft
        simp [toQueue, queued] at hleft ⊢
        exact hleft
    · constructor
      · rfl
      · simp only [toQueue, ← hleft]
        rfl
    · constructor
      · rfl
      · simp only [toQueue, ← hleft]
        rfl
  · have hnil : pipe.queued = [] := by
      apply List.drop_eq_nil_of_le
      omega
    have hbytes : ¬ pipe.toQueue.bytes ≠ [] := by simp [toQueue, hnil]
    rw [if_neg hsome, if_neg hbytes]
    have hsame : pipe.toQueue = { pipe.toQueue with bytes := pipe.queued.drop count } := by
      simp [toQueue, hnil]
    split_ifs <;> first | exact ⟨rfl, hsame⟩ | simp_all [toQueue]

theorem step_toQueue (s : PipeStep) (pipe : UnboundedPipeBuffer) :
    ByteQueue.step s pipe.toQueue = (step s pipe).map id toQueue := by
  cases s with
  | read count stopRequested =>
      rw [step, ByteQueue.step]
      split_ifs
      · rfl
      · obtain ⟨hpass, hleft⟩ := readPass_toQueue pipe count stopRequested
        simp only [Prod.map, id_eq, hpass, hleft]
        rfl
  | write buf stopRequested =>
      rw [step, ByteQueue.step, write]
      by_cases hnil : buf.length = 0
      · rw [if_pos hnil, if_pos hnil]
        rfl
      · rw [if_neg hnil, if_neg hnil]
        cases hopen : pipe.readEndOpen with
        | false => simp [toQueue, hopen]
        | true => simp [toQueue, queued, hopen, List.drop_append_of_le_length pipe.offset_le]
  | closeReadEnd => rfl
  | closeWriteEnd => rfl

theorem run_toQueue (steps : List PipeStep) (pipe : UnboundedPipeBuffer) :
    pipeRun ByteQueue.step steps pipe.toQueue = (pipeRun step steps pipe).map id toQueue := by
  induction steps generalizing pipe with
  | nil => rfl
  | cons s rest ih =>
      have hstep := step_toQueue s pipe
      simp only [pipeRun, hstep, Prod.map, id_eq, ih]

end UnboundedPipeBuffer

/-! ## The ring is a queue while it has room -/

structure HoldsQueue (pipe : PipeBuffer) (queue : ByteQueue) : Prop where
  sound : pipe.Sound
  bytes : pipe.buffered = queue.bytes
  readEndOpen : pipe.readEndOpen = queue.readEndOpen
  writeEndOpen : pipe.writeEndOpen = queue.writeEndOpen

namespace HoldsQueue

variable {pipe pipe' : PipeBuffer} {queue : ByteQueue}

theorem size_eq (h : HoldsQueue pipe queue) : pipe.size = queue.bytes.length := by
  rw [← h.sound.length_buffered, h.bytes]

theorem of_ends (h : HoldsQueue pipe queue) {bytes : List UInt8} (hsound : pipe'.Sound)
    (hbytes : pipe'.buffered = bytes) (hends : PipeBuffer.SameEnds pipe pipe') :
    HoldsQueue pipe' { queue with bytes } where
  sound := hsound
  bytes := hbytes
  readEndOpen := hends.readEndOpen.trans h.readEndOpen
  writeEndOpen := hends.writeEndOpen.trans h.writeEndOpen

theorem readPass (h : HoldsQueue pipe queue) (count : Nat) (stopRequested : Bool) :
    (pipe.readPass count stopRequested).1 = queue.read count stopRequested ∧
      (pipe.readPass count stopRequested).2.capacity = pipe.capacity ∧
      HoldsQueue (pipe.readPass count stopRequested).2
        { queue with bytes := queue.bytes.drop count } := by
  have hsize := h.size_eq
  have hwriteEnd := h.writeEndOpen
  have hsame (hzero : pipe.size = 0) :
      HoldsQueue pipe { queue with bytes := queue.bytes.drop count } := by
    have hnil : queue.bytes = [] := List.eq_nil_of_length_eq_zero (hsize.symm.trans hzero)
    apply h.of_ends h.sound _ .rfl
    rw [h.bytes, hnil, List.drop_nil]
  have hempty (hzero : pipe.size = 0) : ¬ queue.bytes ≠ [] := by
    simp [List.eq_nil_of_length_eq_zero (hsize.symm.trans hzero)]
  rcases PipeBuffer.readPass_cases h.sound count stopRequested with
    ⟨out, pipe', hpass, htook⟩ | ⟨hpass, hzero, hclosed⟩ | ⟨hpass, hzero, hopen, hstop⟩ |
    ⟨hpass, hzero, hopen, hstop⟩
  · have hfront := htook.front
    rw [h.bytes] at hfront
    have hlength : out.length = min count queue.bytes.length := by rw [htook.length, hsize]
    have hout : queue.bytes.take count = out := by
      rw [List.take_eq_take_min, ← hlength, hfront, List.take_left]
    have hleft : pipe'.buffered = queue.bytes.drop count := by
      rw [List.drop_eq_drop_min, ← hlength, hfront, List.drop_left]
    have hne : queue.bytes ≠ [] := by
      apply List.ne_nil_of_length_pos
      have hpos := htook.nonempty
      omega
    rw [hpass, ByteQueue.read, if_pos hne, hout]
    exact ⟨rfl, htook.ends.capacity, h.of_ends htook.sound hleft htook.ends⟩
  · rw [hpass, ByteQueue.read, if_neg (hempty hzero), if_pos (by simp [← hwriteEnd, hclosed])]
    exact ⟨rfl, rfl, hsame hzero⟩
  · rw [hpass, ByteQueue.read, if_neg (hempty hzero), if_neg (by simp [← hwriteEnd, hopen]),
      if_pos hstop]
    exact ⟨rfl, rfl, hsame hzero⟩
  · rw [hpass, ByteQueue.read, if_neg (hempty hzero), if_neg (by simp [← hwriteEnd, hopen]),
      if_neg (by simp [hstop])]
    exact ⟨rfl, rfl, hsame hzero⟩

theorem writePass (h : HoldsQueue pipe queue) {buf : List UInt8}
    (hopen : queue.readEndOpen = true)
    (hroom : queue.bytes.length + buf.length < pipe.capacity) (stopRequested : Bool) :
    ∃ pipe', pipe.writePass buf 0 stopRequested = (.returned buf.length buf.length, pipe') ∧
      pipe'.capacity = pipe.capacity ∧
      HoldsQueue pipe' { queue with bytes := queue.bytes ++ buf } := by
  have hsize := h.size_eq
  have hreadEnd : pipe.readEndOpen = true := h.readEndOpen.trans hopen
  have hneed : pipe.need buf.length ≤ pipe.room := by
    rw [PipeBuffer.need, PipeBuffer.room]
    split_ifs <;> omega
  have hpart : pipe.nextPart buf 0 = buf := by
    rw [PipeBuffer.nextPart, List.drop_zero, List.take_of_length_le]
    rw [PipeBuffer.room]
    omega
  rcases PipeBuffer.writePass_cases h.sound (by omega) buf 0 stopRequested with
    ⟨-, hclosed⟩ | ⟨pipe', hpass, -, -, hput⟩ | ⟨-, -, hfull, -⟩ | ⟨-, -, hfull, -⟩
  · cases hreadEnd.symm.trans hclosed
  · rw [hpart, if_pos (Nat.zero_add _)] at hpass
    rw [hpart] at hput
    refine ⟨pipe', hpass, hput.ends.capacity, h.of_ends hput.sound ?_ hput.ends⟩
    rw [hput.back, h.bytes]
  · omega
  · omega

/-- While the ring has room for what is written, it does what the queue does. -/
theorem step (h : HoldsQueue pipe queue) (s : PipeStep)
    (hroom : queue.bytes.length + (ByteQueue.step s queue).1.bytesWritten < pipe.capacity) :
    (boundedStep s pipe).1 = (ByteQueue.step s queue).1 ∧
      (boundedStep s pipe).2.capacity = pipe.capacity ∧
      HoldsQueue (boundedStep s pipe).2 (ByteQueue.step s queue).2 := by
  cases s with
  | read count stopRequested =>
      rw [boundedStep, ByteQueue.step]
      split_ifs with hzero
      · exact ⟨rfl, rfl, h⟩
      · obtain ⟨hpass, hcapacity, hholds⟩ := h.readPass count stopRequested
        exact ⟨congrArg PipeReply.read hpass, hcapacity, hholds⟩
  | write buf stopRequested =>
      rw [ByteQueue.step] at hroom ⊢
      rw [boundedStep]
      split_ifs at hroom ⊢ with hnil hopen
      · exact ⟨rfl, rfl, h⟩
      · have hwritten : queue.bytes.length + buf.length < pipe.capacity := by
          simpa [PipeReply.bytesWritten] using hroom
        obtain ⟨pipe', hpass, hcapacity, hholds⟩ := h.writePass hopen hwritten stopRequested
        rw [hpass]
        exact ⟨rfl, hcapacity, hholds⟩
      · have hclosed : pipe.readEndOpen = false := by
          rw [h.readEndOpen]
          simpa using hopen
        have hpass : pipe.writePass buf 0 stopRequested = (.returned 0 kIOBrokenPipe, pipe) := by
          simp [PipeBuffer.writePass, hclosed]
        rw [hpass]
        exact ⟨rfl, rfl, h⟩
  | closeReadEnd =>
      refine ⟨rfl, rfl, h.sound.closeReadEnd, ?_, rfl, h.writeEndOpen⟩
      exact PipeBuffer.buffered_closeReadEnd pipe
  | closeWriteEnd => exact ⟨rfl, rfl, h.sound.closeWriteEnd, h.bytes, h.readEndOpen, rfl⟩

theorem run (h : HoldsQueue pipe queue) (steps : List PipeStep)
    (hroom : queue.bytes.length +
      ((pipeRun ByteQueue.step steps queue).1.map PipeReply.bytesWritten).sum < pipe.capacity) :
    (pipeRun boundedStep steps pipe).1 = (pipeRun ByteQueue.step steps queue).1 ∧
      HoldsQueue (pipeRun boundedStep steps pipe).2 (pipeRun ByteQueue.step steps queue).2 := by
  induction steps generalizing pipe queue with
  | nil => exact ⟨rfl, h⟩
  | cons s rest ih =>
      simp only [pipeRun, List.map_cons, List.sum_cons] at hroom ⊢
      have hgrows := ByteQueue.length_step s queue
      obtain ⟨hreply, hcapacity, hholds⟩ := h.step s (by omega)
      obtain ⟨hreplies, hlast⟩ := ih hholds (by omega)
      rw [hreply, hreplies]
      exact ⟨rfl, hlast⟩

end HoldsQueue

/-- The bytes that all the steps of a run wrote. -/
def totalWritten (replies : List PipeReply) : Nat := (replies.map PipeReply.bytesWritten).sum

/-- Through any steps, a pipe without a capacity and a ring that is larger than all that is
written answer as a queue does, and hold its bytes. -/
theorem run_eq_boundedRun (capacity : Nat) (steps : List PipeStep)
    (hroom : totalWritten (pipeRun UnboundedPipeBuffer.step steps .create).1 < capacity) :
    (pipeRun UnboundedPipeBuffer.step steps .create).1 =
        (pipeRun boundedStep steps (.create capacity)).1 ∧
      (pipeRun UnboundedPipeBuffer.step steps .create).2.queued =
        (pipeRun boundedStep steps (.create capacity)).2.buffered ∧
      (pipeRun ByteQueue.step steps {}).1 = (pipeRun UnboundedPipeBuffer.step steps .create).1 ∧
      (pipeRun ByteQueue.step steps {}).2 =
        (pipeRun UnboundedPipeBuffer.step steps .create).2.toQueue := by
  have hqueue : pipeRun ByteQueue.step steps {} =
      (pipeRun UnboundedPipeBuffer.step steps .create).map id UnboundedPipeBuffer.toQueue :=
    UnboundedPipeBuffer.run_toQueue steps .create
  have hfresh : HoldsQueue (.create capacity) {} :=
    ⟨PipeBuffer.sound_create capacity, PipeBuffer.buffered_create capacity, rfl, rfl⟩
  obtain ⟨hreplies, hlast⟩ := hfresh.run steps <| by
    rw [hqueue]
    simpa [totalWritten, PipeBuffer.create] using hroom
  rw [hreplies, hlast.bytes, hqueue]
  exact ⟨rfl, rfl, rfl, rfl⟩

theorem run_eq_boundedRun_three :
    (pipeRun UnboundedPipeBuffer.step
        [.write [1, 2, 3] false, .read 2 true, .closeWriteEnd, .read 9 false, .read 1 true]
        .create).1 =
      (pipeRun boundedStep
        [.write [1, 2, 3] false, .read 2 true, .closeWriteEnd, .read 9 false, .read 1 true]
        (.create 4)).1 :=
  (run_eq_boundedRun 4
    [.write [1, 2, 3] false, .read 2 true, .closeWriteEnd, .read 9 false, .read 1 true]
    (by decide)).1

end Haisos.Hsh
