import Haisos.PipeService.Pipe
import Haisos.Transition

/-!
# The parties around a pipe

Any number of threads call `Read` and `Write` on one pipe.  A step is one pass of
one thread's call, the close of an end, or a stop request.  The bytes each write
had accepted are kept as a journal of pieces, and every call that has returned is
kept with its result.
-/

namespace Haisos.PipeService

/-! ## Journals -/

/-- Pieces of bytes in the order they were accepted, each under its call. -/
abbrev Journal := List (Nat × List UInt8)

namespace Journal

def bytes (journal : Journal) : List UInt8 := journal.flatMap (·.2)

def pieces (journal : Journal) (id : Nat) : List (List UInt8) :=
  (journal.filter (·.1 == id)).map (·.2)

def bytesOf (journal : Journal) (id : Nat) : List UInt8 := (journal.pieces id).flatten

@[simp]
theorem bytes_append (journal : Journal) (id : Nat) (part : List UInt8) :
    bytes (journal ++ [(id, part)]) = bytes journal ++ part := by
  simp [bytes]

@[simp]
theorem pieces_append_self (journal : Journal) (id : Nat) (part : List UInt8) :
    pieces (journal ++ [(id, part)]) id = pieces journal id ++ [part] := by
  simp [pieces]

theorem pieces_append_of_ne (journal : Journal) {id other : Nat} (h : other ≠ id)
    (part : List UInt8) : pieces (journal ++ [(id, part)]) other = pieces journal other := by
  simp [pieces, h.symm]

theorem bytesOf_append_self (journal : Journal) (id : Nat) (part : List UInt8) :
    bytesOf (journal ++ [(id, part)]) id = bytesOf journal id ++ part := by
  simp [bytesOf]

theorem pieces_eq_nil {journal : Journal} {id : Nat} (h : ∀ p ∈ journal, p.1 ≠ id) :
    journal.pieces id = [] := by
  simpa [pieces, List.filter_eq_nil_iff] using h

end Journal

/-! ## Threads, calls and steps -/

/-- A call that has not returned; `written` is the local count of `Write`. -/
inductive Call where
  | read (count : Nat)
  | write (buf : List UInt8) (written : Nat)
  deriving DecidableEq, Repr

inductive Returned where
  | read (id count : Nat) (result : Int) (out : List UInt8)
  | write (id : Nat) (buf : List UInt8) (result : Int)
  deriving DecidableEq, Repr

def Returned.bytes : Returned → List UInt8
  | .read _ _ _ out => out
  | .write _ _ _ => []

/-- Threads `ι` with stop tokens `τ`, around one pipe. -/
structure Parties (ι τ : Type*) where
  pipe : PipeBuffer
  call : ι → Option (Nat × Call) := fun _ => none
  stopRequested : τ → Bool := fun _ => false
  nextCall : Nat := 0
  accepted : Journal := []
  returned : List Returned := []

inductive Action (ι τ : Type*) where
  | read (thread : ι) (count : Nat)
  | write (thread : ι) (buf : List UInt8)
  | pass (thread : ι)
  | requestStop (token : τ)
  | closeReadEnd
  | closeWriteEnd

namespace Parties

variable {ι τ : Type*} [DecidableEq ι] [DecidableEq τ]

def initial (ι τ : Type*) (capacity : Nat) : Parties ι τ :=
  { pipe := .create capacity }

/-- The bytes returned by all reads so far, in order. -/
def returnedBytes (s : Parties ι τ) : List UInt8 := s.returned.flatMap Returned.bytes

/-- A thread that carries no token is never interrupted. -/
def stopSeen (s : Parties ι τ) : Option τ → Bool
  | some token => s.stopRequested token
  | none => false

def enter (s : Parties ι τ) (thread : ι) (call : Call) : Parties ι τ :=
  { s with
    call := Function.update s.call thread (some (s.nextCall, call))
    nextCall := s.nextCall + 1 }

def returnAtOnce (s : Parties ι τ) (returned : Returned) : Parties ι τ :=
  { s with returned := s.returned ++ [returned], nextCall := s.nextCall + 1 }

def leave (s : Parties ι τ) (thread : ι) (returned : Returned) : Parties ι τ :=
  { s with
    call := Function.update s.call thread none
    returned := s.returned ++ [returned] }

/-- The journal after call `id` went from `written` to `written'` bytes of `buf`. -/
def accept (journal : Journal) (id : Nat) (buf : List UInt8) (written written' : Nat) :
    Journal :=
  if written = written' then journal
  else journal ++ [(id, (buf.drop written).take (written' - written))]

def readStep (s : Parties ι τ) (thread : ι) (id count : Nat) (stop : Bool) : Parties ι τ :=
  match s.pipe.readPass count stop with
  | (.returned result out, pipe) =>
      { s with pipe := pipe }.leave thread (.read id count result out)
  | (.waits, pipe) => { s with pipe := pipe }

def writeStep (s : Parties ι τ) (thread : ι) (id : Nat) (buf : List UInt8)
    (written : Nat) (stop : Bool) : Parties ι τ :=
  match s.pipe.writePass buf written stop with
  | (.returned written' result, pipe) =>
      { s with pipe := pipe, accepted := accept s.accepted id buf written written' }.leave
        thread (.write id buf result)
  | (.continued written', pipe) =>
      { s with
        pipe := pipe
        accepted := accept s.accepted id buf written written'
        call := Function.update s.call thread (some (id, .write buf written')) }
  | (.waits, pipe) => { s with pipe := pipe }

/-- `token` tells which stop token each thread carries, if any. -/
def step (token : ι → Option τ) : Action ι τ → Parties ι τ → Option (Parties ι τ)
  | .read thread count, s =>
      if (s.call thread).isSome then none
      else if count = 0 then some (s.returnAtOnce (.read s.nextCall 0 0 []))
      else some (s.enter thread (.read count))
  | .write thread buf, s =>
      if (s.call thread).isSome then none
      else if buf.length = 0 then some (s.returnAtOnce (.write s.nextCall [] 0))
      else some (s.enter thread (.write buf 0))
  | .pass thread, s =>
      match s.call thread with
      | none => none
      | some (id, .read count) =>
          some (s.readStep thread id count (s.stopSeen (token thread)))
      | some (id, .write buf written) =>
          some (s.writeStep thread id buf written (s.stopSeen (token thread)))
  | .requestStop stopped, s =>
      some { s with stopRequested := Function.update s.stopRequested stopped true }
  | .closeReadEnd, s => some { s with pipe := s.pipe.closeReadEnd }
  | .closeWriteEnd, s => some { s with pipe := s.pipe.closeWriteEnd }

end Parties

end Haisos.PipeService
