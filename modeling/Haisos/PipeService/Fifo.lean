import Haisos.PipeService.Parties

/-!
# A pipe is a bounded first-in first-out queue

What holds in every state the parties around a pipe can reach, by one step lemma
and an induction over the run, and what each returned call tells about the state
it returned in.
-/

namespace Haisos.PipeService

open PipeBuffer

variable {ι τ : Type*}

/--
Call `id` has had the first `n` bytes of `buf` accepted, in one piece if the
write is a small one.
-/
structure Accounted (capacity : Nat) (accepted : Journal) (id : Nat) (buf : List UInt8)
    (n : Nat) : Prop where
  bytes : accepted.bytesOf id = buf.take n
  le : n ≤ buf.length
  atomic : buf.length ≤ min kPipeAtomicWriteSize capacity →
    accepted.pieces id = [] ∧ n = 0 ∨ accepted.pieces id = [buf] ∧ n = buf.length

structure Coherent (s : Parties ι τ) : Prop where
  sound : s.pipe.Sound
  capacity : 1 ≤ s.pipe.capacity
  fifo : s.pipe.readEndOpen = true →
    s.returnedBytes ++ s.pipe.buffered = s.accepted.bytes
  call_lt : ∀ i id c, s.call i = some (id, c) → id < s.nextCall
  call_unique : ∀ i j id c d, s.call i = some (id, c) → s.call j = some (id, d) → i = j
  accepted_lt : ∀ piece ∈ s.accepted, piece.1 < s.nextCall
  reading : ∀ i id count, s.call i = some (id, .read count) → 0 < count
  writing : ∀ i id buf written, s.call i = some (id, .write buf written) →
    written < buf.length ∧ Accounted s.pipe.capacity s.accepted id buf written
  returned_lt : ∀ id buf result, .write id buf result ∈ s.returned → id < s.nextCall
  returned_left : ∀ id buf result, .write id buf result ∈ s.returned →
    ∀ i c, s.call i ≠ some (id, c)
  written : ∀ id buf result, .write id buf result ∈ s.returned →
    Accounted s.pipe.capacity s.accepted id buf result.toNat ∧
      (result < 0 → result = kIOBrokenPipe ∨ result = kIOInterrupted)

/-! ## The journal of one call -/

namespace Accounted

variable {capacity : Nat} {accepted : Journal} {id : Nat} {buf : List UInt8} {n : Nat}

theorem none (h : accepted.pieces id = []) : Accounted capacity accepted id buf 0 :=
  ⟨by simp [Journal.bytesOf, h], Nat.zero_le _, fun _ => .inl ⟨h, rfl⟩⟩

/-- Another call's piece changes nothing for this one. -/
theorem append_of_ne (h : Accounted capacity accepted id buf n) {other : Nat}
    (hne : id ≠ other) (part : List UInt8) :
    Accounted capacity (accepted ++ [(other, part)]) id buf n := by
  have hpieces := accepted.pieces_append_of_ne hne part
  refine ⟨?_, h.le, ?_⟩
  · rw [Journal.bytesOf, hpieces, ← Journal.bytesOf, h.bytes]
  · rw [hpieces]
    exact h.atomic

theorem accept_of_ne (h : Accounted capacity accepted id buf n) {other : Nat}
    (hne : id ≠ other) (buf' : List UInt8) (written written' : Nat) :
    Accounted capacity (Parties.accept accepted other buf' written written') id buf n := by
  unfold Parties.accept
  split
  · exact h
  · exact h.append_of_ne hne _

/-- The next part of a large write, or the whole of a small one. -/
theorem accept_self (h : Accounted capacity accepted id buf n) {n' : Nat} (hlt : n < n')
    (hle : n' ≤ buf.length)
    (hwhole : buf.length ≤ min kPipeAtomicWriteSize capacity → n' = n + buf.length) :
    Accounted capacity (Parties.accept accepted id buf n n') id buf n' := by
  rw [Parties.accept, if_neg hlt.ne]
  refine ⟨?_, hle, fun hsmall => ?_⟩
  · rw [Journal.bytesOf_append_self, h.bytes, ← List.drop_take]
    have htaken : buf.take n = (buf.take n').take n := by
      rw [List.take_take, Nat.min_eq_left hlt.le]
    rw [htaken, List.take_append_drop]
  · have hn' := hwhole hsmall
    rcases h.atomic hsmall with ⟨hpieces, hzero⟩ | ⟨-, hfull⟩
    · right
      subst hzero
      rw [Journal.pieces_append_self, hpieces]
      simp [hn']
    · omega

end Accounted

theorem bytes_accept (accepted : Journal) (id : Nat) (buf : List UInt8)
    (written written' : Nat) :
    (Parties.accept accepted id buf written written').bytes =
      accepted.bytes ++ (buf.drop written).take (written' - written) := by
  unfold Parties.accept
  split
  · rename_i h
    simp [h]
  · exact Journal.bytes_append _ _ _

theorem mem_accept {accepted : Journal} {id : Nat} {buf : List UInt8}
    {written written' : Nat} {piece : Nat × List UInt8}
    (h : piece ∈ Parties.accept accepted id buf written written') :
    piece ∈ accepted ∨ piece.1 = id := by
  unfold Parties.accept at h
  split at h
  · exact .inl h
  · rcases List.mem_append.1 h with hin | hnew
    · exact .inl hin
    · rw [List.mem_singleton.1 hnew]
      exact .inr rfl

/-! ## The steps keep it -/

theorem coherent_initial (ι τ : Type*) {capacity : Nat} (hcapacity : 1 ≤ capacity) :
    Coherent (Parties.initial ι τ capacity) where
  sound := sound_create capacity
  capacity := hcapacity
  fifo _ := by simp [Parties.initial, Parties.returnedBytes, Journal.bytes]
  call_lt _ _ _ h := nomatch h
  call_unique _ _ _ _ _ h := nomatch h
  accepted_lt _ h := nomatch h
  reading _ _ _ h := nomatch h
  writing _ _ _ _ h := nomatch h
  returned_lt _ _ _ h := nomatch h
  returned_left _ _ _ h := nomatch h
  written _ _ _ h := nomatch h

section
variable {s : Parties ι τ}

theorem Coherent.setPipe (h : Coherent s) {pipe : PipeBuffer} (hsound : pipe.Sound)
    (hcapacity : pipe.capacity = s.pipe.capacity)
    (hfifo : pipe.readEndOpen = true →
      s.returnedBytes ++ pipe.buffered = s.accepted.bytes) :
    Coherent { s with pipe := pipe } :=
  { h with
    sound := hsound
    capacity := hcapacity ▸ h.capacity
    fifo := hfifo
    writing := by
      simp only [hcapacity]
      exact h.writing
    written := by
      simp only [hcapacity]
      exact h.written }

theorem Coherent.closeReadEnd (h : Coherent s) :
    Coherent { s with pipe := s.pipe.closeReadEnd } :=
  h.setPipe h.sound.closeReadEnd rfl fun hopen => nomatch hopen

theorem Coherent.closeWriteEnd (h : Coherent s) :
    Coherent { s with pipe := s.pipe.closeWriteEnd } :=
  h.setPipe h.sound.closeWriteEnd rfl h.fifo

theorem Coherent.pieces_nextCall (h : Coherent s) : s.accepted.pieces s.nextCall = [] :=
  Journal.pieces_eq_nil fun piece hin => (h.accepted_lt piece hin).ne

theorem Coherent.returnAtOnce (h : Coherent s) {returned : Returned}
    (hbytes : returned.bytes = [])
    (hwrite : ∀ id buf result, returned = .write id buf result →
      id = s.nextCall ∧ buf = [] ∧ result = 0) :
    Coherent (s.returnAtOnce returned) where
  sound := h.sound
  capacity := h.capacity
  fifo hopen := by
    have hfifo := h.fifo hopen
    simpa [Parties.returnedBytes, Parties.returnAtOnce, hbytes] using hfifo
  call_lt i id c hcall := Nat.lt_succ_of_lt (h.call_lt i id c hcall)
  call_unique := h.call_unique
  accepted_lt piece hin := Nat.lt_succ_of_lt (h.accepted_lt piece hin)
  reading := h.reading
  writing := h.writing
  returned_lt id buf result hin := by
    rcases List.mem_append.1 hin with hin | hnew
    · exact Nat.lt_succ_of_lt (h.returned_lt id buf result hin)
    · obtain ⟨rfl, -, -⟩ := hwrite id buf result (List.mem_singleton.1 hnew).symm
      exact Nat.lt_succ_self _
  returned_left id buf result hin := by
    rcases List.mem_append.1 hin with hin | hnew
    · exact h.returned_left id buf result hin
    · obtain ⟨rfl, -, -⟩ := hwrite id buf result (List.mem_singleton.1 hnew).symm
      intro i c hcall
      exact (h.call_lt i _ c hcall).ne rfl
  written id buf result hin := by
    rcases List.mem_append.1 hin with hin | hnew
    · exact h.written id buf result hin
    · obtain ⟨rfl, rfl, rfl⟩ := hwrite id buf result (List.mem_singleton.1 hnew).symm
      exact ⟨.none h.pieces_nextCall, fun hneg => absurd hneg (by decide)⟩

variable [DecidableEq ι]

theorem call_enter {thread i : ι} {call c : Call} {id : Nat}
    (h : (s.enter thread call).call i = some (id, c)) :
    (i = thread ∧ id = s.nextCall ∧ c = call) ∨ s.call i = some (id, c) := by
  rcases eq_or_ne i thread with rfl | hne
  · left
    have hnew : (s.nextCall, call) = (id, c) := by simpa [Parties.enter] using h
    cases hnew
    exact ⟨rfl, rfl, rfl⟩
  · right
    simpa [Parties.enter, hne] using h

theorem call_leave {thread i : ι} {returned : Returned} {c : Call} {id : Nat}
    (h : (s.leave thread returned).call i = some (id, c)) :
    i ≠ thread ∧ s.call i = some (id, c) := by
  rcases eq_or_ne i thread with rfl | hne
  · simp [Parties.leave] at h
  · exact ⟨hne, by simpa [Parties.leave, hne] using h⟩

theorem Coherent.enter (h : Coherent s) {thread : ι} {call : Call}
    (hread : ∀ count, call = .read count → 0 < count)
    (hwrite : ∀ buf written, call = .write buf written → written = 0 ∧ 0 < buf.length) :
    Coherent (s.enter thread call) where
  sound := h.sound
  capacity := h.capacity
  fifo := h.fifo
  call_lt i id c hcall := by
    rcases call_enter hcall with ⟨-, rfl, -⟩ | hold
    · exact Nat.lt_succ_self _
    · exact Nat.lt_succ_of_lt (h.call_lt i id c hold)
  call_unique i j id c d hi hj := by
    rcases call_enter hi with ⟨rfl, rfl, -⟩ | hiold <;>
      rcases call_enter hj with ⟨rfl, hid, -⟩ | hjold
    · rfl
    · exact absurd (h.call_lt j _ d hjold) (lt_irrefl _)
    · exact absurd (h.call_lt i id c hiold) (by omega)
    · exact h.call_unique i j id c d hiold hjold
  accepted_lt piece hin := Nat.lt_succ_of_lt (h.accepted_lt piece hin)
  reading i id count hcall := by
    rcases call_enter hcall with ⟨-, -, hnew⟩ | hold
    · exact hread count hnew.symm
    · exact h.reading i id count hold
  writing i id buf written hcall := by
    rcases call_enter hcall with ⟨-, rfl, hnew⟩ | hold
    · obtain ⟨rfl, hpos⟩ := hwrite buf written hnew.symm
      exact ⟨hpos, .none h.pieces_nextCall⟩
    · exact h.writing i id buf written hold
  returned_lt id buf result hin := Nat.lt_succ_of_lt (h.returned_lt id buf result hin)
  returned_left id buf result hin i c hcall := by
    rcases call_enter hcall with ⟨-, rfl, -⟩ | hold
    · exact (h.returned_lt _ buf result hin).ne rfl
    · exact h.returned_left id buf result hin i c hold
  written := h.written

theorem Coherent.leaveRead (h : Coherent s) {thread : ι} {id count : Nat} {result : Int}
    {out : List UInt8} {pipe : PipeBuffer} (hsound : pipe.Sound)
    (hends : SameEnds s.pipe pipe) (hfront : s.pipe.buffered = out ++ pipe.buffered) :
    Coherent ({ s with pipe := pipe }.leave thread (.read id count result out)) where
  sound := hsound
  capacity := hends.capacity ▸ h.capacity
  fifo hopen := by
    have hfifo := h.fifo (hends.readEndOpen ▸ hopen)
    simpa [Parties.returnedBytes, Parties.leave, Returned.bytes, hfront] using hfifo
  call_lt i id c hcall := h.call_lt i id c (call_leave hcall).2
  call_unique i j id c d hi hj :=
    h.call_unique i j id c d (call_leave hi).2 (call_leave hj).2
  accepted_lt := h.accepted_lt
  reading i id count hcall := h.reading i id count (call_leave hcall).2
  writing i id buf written hcall := by
    have hold := h.writing i id buf written (call_leave hcall).2
    rw [← hends.capacity] at hold
    exact hold
  returned_lt id buf result hin := by
    rcases List.mem_append.1 hin with hin | hnew
    · exact h.returned_lt id buf result hin
    · exact nomatch List.mem_singleton.1 hnew
  returned_left id buf result hin i c hcall := by
    rcases List.mem_append.1 hin with hin | hnew
    · exact h.returned_left id buf result hin i c (call_leave hcall).2
    · exact nomatch List.mem_singleton.1 hnew
  written id buf result hin := by
    rcases List.mem_append.1 hin with hin | hnew
    · have hold := h.written id buf result hin
      rw [← hends.capacity] at hold
      exact hold
    · exact nomatch List.mem_singleton.1 hnew

theorem coherent_readStep (h : Coherent s) {thread : ι} {id count : Nat} (stop : Bool) :
    Coherent (s.readStep thread id count stop) := by
  unfold Parties.readStep
  rcases readPass_cases h.sound count stop with
    ⟨out, pipe, hpass, htook⟩ | ⟨hpass, -, -⟩ | ⟨hpass, -, -, -⟩ | ⟨hpass, -, -, -⟩ <;>
    rw [hpass]
  · exact h.leaveRead htook.sound htook.ends htook.front
  · exact h.leaveRead h.sound .rfl rfl
  · exact h.leaveRead h.sound .rfl rfl
  · exact h

/--
A pass of write `id` took the bytes of `buf` from `written` to `written'` into the
pipe, which is now `pipe`.
-/
structure Advanced (s : Parties ι τ) (thread : ι) (id : Nat) (buf : List UInt8)
    (written written' : Nat) (pipe : PipeBuffer) : Prop where
  call : s.call thread = some (id, .write buf written)
  sound : pipe.Sound
  ends : SameEnds s.pipe pipe
  back : pipe.buffered =
    s.pipe.buffered ++ (buf.drop written).take (written' - written)

namespace Advanced

variable {thread : ι} {id : Nat} {buf : List UInt8} {written written' : Nat}
  {pipe : PipeBuffer}

omit [DecidableEq ι] in
theorem fifo (a : Advanced s thread id buf written written' pipe) (h : Coherent s)
    (hopen : pipe.readEndOpen = true) :
    s.returnedBytes ++ pipe.buffered =
      (Parties.accept s.accepted id buf written written').bytes := by
  rw [bytes_accept, a.back, ← h.fifo (a.ends.readEndOpen ▸ hopen), List.append_assoc]

omit [DecidableEq ι] in
theorem accepted_lt (a : Advanced s thread id buf written written' pipe) (h : Coherent s) :
    ∀ piece ∈ Parties.accept s.accepted id buf written written', piece.1 < s.nextCall := by
  intro piece hin
  rcases mem_accept hin with hold | rfl
  · exact h.accepted_lt piece hold
  · exact h.call_lt thread _ _ a.call

omit [DecidableEq ι] in
theorem inFlight (a : Advanced s thread id buf written written' pipe) (h : Coherent s)
    {i : ι} {other : Nat} {buf' : List UInt8} {n : Nat} (hne : i ≠ thread)
    (hcall : s.call i = some (other, .write buf' n)) :
    n < buf'.length ∧ Accounted pipe.capacity
      (Parties.accept s.accepted id buf written written') other buf' n := by
  have hother : other ≠ id := by
    rintro rfl
    exact hne (h.call_unique i thread other _ _ hcall a.call)
  obtain ⟨hlt, haccounted⟩ := h.writing i other buf' n hcall
  exact ⟨hlt, a.ends.capacity ▸ haccounted.accept_of_ne hother _ _ _⟩

omit [DecidableEq ι] in
theorem alreadyReturned (a : Advanced s thread id buf written written' pipe) (h : Coherent s)
    {other : Nat} {buf' : List UInt8} {result : Int}
    (hin : .write other buf' result ∈ s.returned) :
    Accounted pipe.capacity (Parties.accept s.accepted id buf written written')
        other buf' result.toNat ∧
      (result < 0 → result = kIOBrokenPipe ∨ result = kIOInterrupted) := by
  have hother : other ≠ id := by
    rintro rfl
    exact h.returned_left other buf' result hin thread _ a.call
  obtain ⟨haccounted, hneg⟩ := h.written other buf' result hin
  exact ⟨a.ends.capacity ▸ haccounted.accept_of_ne hother _ _ _, hneg⟩

theorem coherent_continued (a : Advanced s thread id buf written written' pipe)
    (h : Coherent s) (hlt : written' < buf.length)
    (haccounted : Accounted pipe.capacity
      (Parties.accept s.accepted id buf written written') id buf written') :
    Coherent { s with
      pipe := pipe
      accepted := Parties.accept s.accepted id buf written written'
      call := Function.update s.call thread (some (id, .write buf written')) } := by
  have hcases : ∀ {i : ι} {other : Nat} {c : Call},
      Function.update s.call thread (some (id, .write buf written')) i = some (other, c) →
      (i = thread ∧ other = id ∧ c = .write buf written') ∨
        (i ≠ thread ∧ s.call i = some (other, c)) := by
    intro i other c hcall
    rcases eq_or_ne i thread with rfl | hne
    · left
      have hnew : (id, Call.write buf written') = (other, c) := by simpa using hcall
      cases hnew
      exact ⟨rfl, rfl, rfl⟩
    · right
      exact ⟨hne, by simpa [hne] using hcall⟩
  exact {
    sound := a.sound
    capacity := a.ends.capacity ▸ h.capacity
    fifo := a.fifo h
    call_lt := by
      intro i other c hcall
      rcases hcases hcall with ⟨rfl, rfl, -⟩ | ⟨-, hold⟩
      · exact h.call_lt i _ _ a.call
      · exact h.call_lt i other c hold
    call_unique := by
      intro i j other c d hi hj
      rcases hcases hi with ⟨rfl, rfl, -⟩ | ⟨hine, hiold⟩ <;>
        rcases hcases hj with ⟨rfl, hid, -⟩ | ⟨hjne, hjold⟩
      · rfl
      · exact absurd (h.call_unique _ _ _ _ _ hjold a.call) hjne
      · exact absurd (h.call_unique _ _ _ _ _ hiold (hid ▸ a.call)) hine
      · exact h.call_unique i j other c d hiold hjold
    accepted_lt := a.accepted_lt h
    reading := by
      intro i other count hcall
      rcases hcases hcall with ⟨-, -, hnew⟩ | ⟨-, hold⟩
      · exact nomatch hnew
      · exact h.reading i other count hold
    writing := by
      intro i other buf' n hcall
      rcases hcases hcall with ⟨-, rfl, hnew⟩ | ⟨hne, hold⟩
      · cases hnew
        exact ⟨hlt, haccounted⟩
      · exact a.inFlight h hne hold
    returned_lt := h.returned_lt
    returned_left := by
      intro other buf' result hin i c hcall
      rcases hcases hcall with ⟨rfl, rfl, -⟩ | ⟨-, hold⟩
      · exact h.returned_left _ buf' result hin i _ a.call
      · exact h.returned_left other buf' result hin i c hold
    written := fun other buf' result hin => a.alreadyReturned h hin }

theorem coherent_returned (a : Advanced s thread id buf written written' pipe)
    (h : Coherent s) (result : Int)
    (haccounted : Accounted pipe.capacity
      (Parties.accept s.accepted id buf written written') id buf result.toNat)
    (hneg : result < 0 → result = kIOBrokenPipe ∨ result = kIOInterrupted) :
    Coherent ({ s with
      pipe := pipe
      accepted := Parties.accept s.accepted id buf written written' }.leave thread
        (.write id buf result)) where
  sound := a.sound
  capacity := a.ends.capacity ▸ h.capacity
  fifo hopen := by
    have hfifo := a.fifo h hopen
    simpa [Parties.returnedBytes, Parties.leave, Returned.bytes] using hfifo
  call_lt i other c hcall := h.call_lt i other c (call_leave hcall).2
  call_unique i j other c d hi hj :=
    h.call_unique i j other c d (call_leave hi).2 (call_leave hj).2
  accepted_lt := a.accepted_lt h
  reading i other count hcall := h.reading i other count (call_leave hcall).2
  writing i other buf' n hcall := a.inFlight h (call_leave hcall).1 (call_leave hcall).2
  returned_lt other buf' r hin := by
    rcases List.mem_append.1 hin with hin | hnew
    · exact h.returned_lt other buf' r hin
    · cases List.mem_singleton.1 hnew
      exact h.call_lt thread _ _ a.call
  returned_left other buf' r hin i c hcall := by
    obtain ⟨hne, hold⟩ := call_leave hcall
    rcases List.mem_append.1 hin with hin | hnew
    · exact h.returned_left other buf' r hin i c hold
    · cases List.mem_singleton.1 hnew
      exact hne (h.call_unique i thread _ _ _ hold a.call)
  written other buf' r hin := by
    rcases List.mem_append.1 hin with hin | hnew
    · exact a.alreadyReturned h hin
    · cases List.mem_singleton.1 hnew
      exact ⟨haccounted, hneg⟩

end Advanced

theorem need_pos (pipe : PipeBuffer) {count : Nat} (h : 0 < count) : 0 < pipe.need count := by
  unfold PipeBuffer.need
  split <;> omega

theorem need_eq_of_small {pipe : PipeBuffer} {count : Nat}
    (h : count ≤ min kPipeAtomicWriteSize pipe.capacity) : pipe.need count = count := by
  simp [PipeBuffer.need, PipeBuffer.isAtomic, h]

theorem toNat_stopped (written : Nat) {code : Int} (hcode : code < 0) :
    (if written > 0 then (written : Int) else code).toNat = written := by
  split <;> omega

theorem code_of_stopped {written : Nat} {code : Int}
    (hneg : (if written > 0 then (written : Int) else code) < 0) :
    (if written > 0 then (written : Int) else code) = code := by
  split at hneg
  · omega
  · rename_i hzero
    rw [if_neg hzero]

omit [DecidableEq ι] in
theorem advanced_put (h : Coherent s) {thread : ι} {id : Nat} {buf : List UInt8}
    {written : Nat} {pipe : PipeBuffer}
    (hcall : s.call thread = some (id, .write buf written))
    (hroom : s.pipe.need buf.length ≤ s.pipe.room)
    (hput : Put s.pipe pipe (s.pipe.nextPart buf written)) :
    Advanced s thread id buf written
        (written + (s.pipe.nextPart buf written).length) pipe ∧
      Accounted pipe.capacity (Parties.accept s.accepted id buf written
          (written + (s.pipe.nextPart buf written).length)) id buf
        (written + (s.pipe.nextPart buf written).length) := by
  obtain ⟨hlt, haccounted⟩ := h.writing thread id buf written hcall
  have hneed := need_pos s.pipe (show 0 < buf.length by omega)
  have hlength := length_nextPart s.pipe buf written
  have hpart : (buf.drop written).take (s.pipe.nextPart buf written).length =
      s.pipe.nextPart buf written := by
    rw [hlength, PipeBuffer.nextPart]
  refine ⟨⟨hcall, hput.sound, hput.ends, ?_⟩, ?_⟩
  · rw [Nat.add_sub_cancel_left, hpart]
    exact hput.back
  · rw [hput.ends.capacity]
    refine haccounted.accept_self (by omega) (by omega) fun hsmall => ?_
    -- a small write has nothing written yet, and room for all of it
    rcases haccounted.atomic hsmall with ⟨-, hzero⟩ | ⟨-, hfull⟩
    · rw [need_eq_of_small hsmall] at hroom
      omega
    · omega

theorem coherent_stopped (h : Coherent s) {thread : ι} {id : Nat} {buf : List UInt8}
    {written : Nat} {code : Int} (hcall : s.call thread = some (id, .write buf written))
    (hneg : code < 0) (hcode : code = kIOBrokenPipe ∨ code = kIOInterrupted) :
    Coherent (s.leave thread
      (.write id buf (if written > 0 then (written : Int) else code))) := by
  have hsame : Parties.accept s.accepted id buf written written = s.accepted := by
    rw [Parties.accept, if_pos rfl]
  have hadvanced : Advanced s thread id buf written written s.pipe :=
    ⟨hcall, h.sound, .rfl, by simp⟩
  have hreturned := hadvanced.coherent_returned h
    (if written > 0 then (written : Int) else code)
    (by rw [hsame, toNat_stopped written hneg]; exact (h.writing _ _ _ _ hcall).2)
    (fun hlt => by rw [code_of_stopped hlt]; exact hcode)
  rw [hsame] at hreturned
  exact hreturned

theorem coherent_writeStep (h : Coherent s) {thread : ι} {id : Nat} {buf : List UInt8}
    {written : Nat} (hcall : s.call thread = some (id, .write buf written)) (stop : Bool) :
    Coherent (s.writeStep thread id buf written stop) := by
  have hsame : Parties.accept s.accepted id buf written written = s.accepted := by
    rw [Parties.accept, if_pos rfl]
  unfold Parties.writeStep
  rcases writePass_cases h.sound h.capacity buf written stop with
    ⟨hpass, -⟩ | ⟨pipe, hpass, -, hroom, hput⟩ | ⟨hpass, -, -, -⟩ | ⟨hpass, -, -, -⟩ <;>
    rw [hpass]
  · simp only [hsame]
    exact coherent_stopped h hcall (by decide) (.inl rfl)
  · obtain ⟨hadvanced, haccounted⟩ := advanced_put h hcall hroom hput
    split
    · rename_i written' result pipe' heq
      split at heq
      · rename_i hall
        cases heq
        rw [hall] at hadvanced haccounted
        exact hadvanced.coherent_returned h _ (by simpa using haccounted) (by omega)
      · cases heq
    · rename_i written' pipe' heq
      split at heq
      · cases heq
      · rename_i hpartial
        cases heq
        have hle := haccounted.le
        exact hadvanced.coherent_continued h (by omega) haccounted
    · rename_i heq
      split at heq <;> cases heq
  · simp only [hsame]
    exact coherent_stopped h hcall (by decide) (.inr rfl)
  · exact h

variable [DecidableEq τ]

/-- Every step keeps the parties coherent. -/
theorem coherent_step {token : ι → Option τ} {action : Action ι τ} {s t : Parties ι τ}
    (hstep : Parties.step token action s = some t) (h : Coherent s) : Coherent t := by
  cases action with
  | read thread count =>
      simp only [Parties.step] at hstep
      split_ifs at hstep with hbusy hzero <;> cases hstep
      · exact h.returnAtOnce rfl (fun _ _ _ hr => nomatch hr)
      · exact h.enter (fun _ hc => by cases hc; omega) (fun _ _ hc => nomatch hc)
  | write thread buf =>
      simp only [Parties.step] at hstep
      split_ifs at hstep with hbusy hzero <;> cases hstep
      · exact h.returnAtOnce rfl (fun _ _ _ hr => by cases hr; exact ⟨rfl, rfl, rfl⟩)
      · exact h.enter (fun _ hc => nomatch hc) (fun _ _ hc => by cases hc; omega)
  | pass thread =>
      simp only [Parties.step] at hstep
      split at hstep
      · cases hstep
      · cases hstep
        exact coherent_readStep h _
      · rename_i hcall
        cases hstep
        exact coherent_writeStep h hcall _
  | requestStop stopped =>
      cases hstep
      exact { h with }
  | closeReadEnd =>
      cases hstep
      exact h.closeReadEnd
  | closeWriteEnd =>
      cases hstep
      exact h.closeWriteEnd

theorem coherent_run {token : ι → Option τ} {capacity : Nat} (hcapacity : 1 ≤ capacity)
    {actions : List (Action ι τ)} {s : Parties ι τ}
    (hrun : Transition.run (Parties.step token) actions (.initial ι τ capacity) = some s) :
    Coherent s :=
  Transition.run_preserves (fun _ _ _ hstep h => coherent_step hstep h) hrun
    (coherent_initial ι τ hcapacity)

theorem capacity_step {token : ι → Option τ} {action : Action ι τ} {s t : Parties ι τ}
    (hstep : Parties.step token action s = some t) (h : Coherent s) :
    t.pipe.capacity = s.pipe.capacity := by
  cases action with
  | read thread count =>
      simp only [Parties.step] at hstep
      split_ifs at hstep <;> cases hstep <;> rfl
  | write thread buf =>
      simp only [Parties.step] at hstep
      split_ifs at hstep <;> cases hstep <;> rfl
  | pass thread =>
      simp only [Parties.step] at hstep
      split at hstep
      · cases hstep
      · cases hstep
        unfold Parties.readStep
        rcases readPass_cases h.sound _ _ with
          ⟨out, pipe, hpass, htook⟩ | ⟨hpass, -, -⟩ | ⟨hpass, -, -, -⟩ | ⟨hpass, -, -, -⟩ <;>
          rw [hpass]
        · exact htook.ends.capacity
        · rfl
        · rfl
      · cases hstep
        unfold Parties.writeStep
        rcases writePass_cases h.sound h.capacity _ _ _ with
          ⟨hpass, -⟩ | ⟨pipe, hpass, -, hroom, hput⟩ | ⟨hpass, -, -, -⟩ | ⟨hpass, -, -, -⟩ <;>
          rw [hpass]
        · rfl
        · split <;> rename_i heq <;> split at heq <;> cases heq <;>
            exact hput.ends.capacity
        · rfl
  | requestStop stopped =>
      cases hstep
      rfl
  | closeReadEnd =>
      cases hstep
      rfl
  | closeWriteEnd =>
      cases hstep
      rfl

theorem capacity_run {token : ι → Option τ} {capacity : Nat} (hcapacity : 1 ≤ capacity)
    {actions : List (Action ι τ)} {s : Parties ι τ}
    (hrun : Transition.run (Parties.step token) actions (.initial ι τ capacity) = some s) :
    s.pipe.capacity = capacity := by
  have hboth : Coherent s ∧ s.pipe.capacity = capacity :=
    Transition.run_preserves
      (P := fun s => Coherent s ∧ s.pipe.capacity = capacity)
      (fun _ _ _ hstep h =>
        ⟨coherent_step hstep h.1, (capacity_step hstep h.1).trans h.2⟩)
      hrun ⟨coherent_initial ι τ hcapacity, rfl⟩
  exact hboth.2

end

/-! ## What the calls may rely on -/

/-- The laws of a pipe of `capacity` bytes that hold in every reachable state. -/
structure FifoLaws (capacity : Nat) (s : Parties ι τ) : Prop where
  fifo : s.pipe.readEndOpen = true →
    s.returnedBytes ++ s.pipe.buffered = s.accepted.bytes
  bounded : s.pipe.size ≤ capacity ∧ s.pipe.buffered.length = s.pipe.size
  ring : s.pipe.storage = [] ∧ s.pipe.head = 0 ∧ s.pipe.size = 0 ∨
    s.pipe.storage.length = capacity ∧ s.pipe.head < s.pipe.storage.length
  returned : ∀ id buf result, .write id buf result ∈ s.returned →
    result ≤ buf.length ∧ s.accepted.bytesOf id = buf.take result.toNat
  inFlight : ∀ thread id buf written, s.call thread = some (id, .write buf written) →
    written < buf.length ∧ s.accepted.bytesOf id = buf.take written
  atomic : ∀ id buf, buf.length ≤ min kPipeAtomicWriteSize capacity →
    ((∃ result, .write id buf result ∈ s.returned) ∨
      ∃ thread written, s.call thread = some (id, .write buf written)) →
    s.accepted.pieces id = [] ∨ s.accepted.pieces id = [buf]

/-- What the call a pass of `thread` ends in state `s` returns, `stop` being its token. -/
def ReturnLaw (s : Parties ι τ) (stop : Bool) : Returned → Prop
  | .read _ count result out =>
      out.length ≤ count ∧
      (result ≠ kIOInterrupted → result = out.length) ∧
      (result = 0 → s.pipe.writeEndOpen = false ∧
        (s.pipe.readEndOpen = true → s.returnedBytes = s.accepted.bytes)) ∧
      (result = kIOInterrupted → stop = true ∧ out = [] ∧ s.pipe.size = 0 ∧
        s.pipe.writeEndOpen = true)
  | .write id buf result =>
      (result < 0 → result = kIOBrokenPipe ∨ result = kIOInterrupted) ∧
      (result = kIOBrokenPipe →
        s.pipe.readEndOpen = false ∧ s.accepted.bytesOf id = []) ∧
      (result = kIOInterrupted → stop = true ∧ s.accepted.bytesOf id = [] ∧
        s.pipe.readEndOpen = true ∧ s.pipe.room < s.pipe.need buf.length) ∧
      (0 ≤ result ∧ result < buf.length →
        s.pipe.readEndOpen = false ∨
          stop = true ∧ s.pipe.room < s.pipe.need buf.length)

theorem fifoLaws {s : Parties ι τ} (h : Coherent s) : FifoLaws s.pipe.capacity s where
  fifo := h.fifo
  bounded := ⟨h.sound.size_le, h.sound.length_buffered⟩
  ring := by
    rcases h.sound.ring with hnone | ⟨hlength, hhead⟩
    · exact .inl hnone
    · exact .inr ⟨hlength, hlength ▸ hhead⟩
  returned id buf result hin := by
    have haccounted := (h.written id buf result hin).1
    have hle := haccounted.le
    exact ⟨by omega, haccounted.bytes⟩
  inFlight thread id buf written hcall := by
    obtain ⟨hlt, haccounted⟩ := h.writing thread id buf written hcall
    exact ⟨hlt, haccounted.bytes⟩
  atomic id buf hsmall hcall := by
    have hatomic : ∃ n, Accounted s.pipe.capacity s.accepted id buf n := by
      rcases hcall with ⟨result, hin⟩ | ⟨thread, written, hin⟩
      · exact ⟨_, (h.written id buf result hin).1⟩
      · exact ⟨_, (h.writing thread id buf written hin).2⟩
    obtain ⟨n, haccounted⟩ := hatomic
    rcases haccounted.atomic hsmall with ⟨hnone, -⟩ | ⟨hone, -⟩
    · exact .inl hnone
    · exact .inr hone

section
variable [DecidableEq ι] {s : Parties ι τ}

theorem returnLaw_read (h : Coherent s) {thread : ι} {id count : Nat} {stop : Bool}
    (hcount : 0 < count) {r : Returned}
    (hr : (s.readStep thread id count stop).returned = s.returned ++ [r]) :
    ReturnLaw s stop r := by
  unfold Parties.readStep at hr
  rcases readPass_cases h.sound count stop with
    ⟨out, pipe, hpass, htook⟩ | ⟨hpass, hzero, hclosed⟩ |
      ⟨hpass, hzero, hopen, rfl⟩ | ⟨hpass, -, -, -⟩ <;>
    rw [hpass] at hr
  · obtain rfl : .read id count out.length out = r := by simpa [Parties.leave] using hr
    have hlength := htook.length
    have hpos := htook.nonempty
    refine ⟨by omega, fun _ => rfl, fun hnone => ?_, fun hcode => ?_⟩
    · omega
    · exact absurd hcode (by simp only [kIOInterrupted]; omega)
  · obtain rfl : .read id count 0 [] = r := by simpa [Parties.leave] using hr
    refine ⟨Nat.zero_le _, fun _ => rfl, fun _ => ⟨hclosed, fun hopen => ?_⟩,
      fun hcode => absurd hcode (by decide)⟩
    have hfifo := h.fifo hopen
    rwa [h.sound.buffered_eq_nil hzero, List.append_nil] at hfifo
  · obtain rfl : .read id count kIOInterrupted [] = r := by
      simpa [Parties.leave] using hr
    exact ⟨Nat.zero_le _, fun hcode => absurd rfl hcode,
      fun hcode => absurd hcode (by decide), fun _ => ⟨rfl, rfl, hzero, hopen⟩⟩
  · simp at hr

omit [DecidableEq ι] in
/-- A write that a closed end or a stop request ends reports what was accepted, if any. -/
theorem returnLaw_stopped (h : Coherent s) {thread : ι} {id : Nat} {buf : List UInt8}
    {written : Nat} {stop : Bool} {code : Int}
    (hcall : s.call thread = some (id, .write buf written))
    (hwhy : code = kIOBrokenPipe ∧ s.pipe.readEndOpen = false ∨
      code = kIOInterrupted ∧ s.pipe.readEndOpen = true ∧
        s.pipe.room < s.pipe.need buf.length ∧ stop = true) :
    ReturnLaw s stop (.write id buf (if written > 0 then (written : Int) else code)) := by
  obtain ⟨-, haccounted⟩ := h.writing thread id buf written hcall
  have hneg : code < 0 := by
    rcases hwhy with ⟨rfl, -⟩ | ⟨rfl, -⟩ <;> decide
  have hbytes : written = 0 → s.accepted.bytesOf id = [] := by
    intro hzero
    rw [haccounted.bytes, hzero, List.take_zero]
  rcases Nat.eq_zero_or_pos written with hzero | hpos
  · rw [if_neg (by omega)]
    rcases hwhy with ⟨rfl, hclosed⟩ | ⟨rfl, hopen, hroom, rfl⟩
    · exact ⟨fun _ => .inl rfl, fun _ => ⟨hclosed, hbytes hzero⟩,
        fun hcode => absurd hcode (by decide), fun hle => absurd hle.1 (by decide)⟩
    · exact ⟨fun _ => .inr rfl, fun hcode => absurd hcode (by decide),
        fun _ => ⟨rfl, hbytes hzero, hopen, hroom⟩, fun hle => absurd hle.1 (by decide)⟩
  · rw [if_pos hpos]
    refine ⟨fun hlt => by omega, fun hcode => ?_, fun hcode => ?_, fun _ => ?_⟩
    · exact absurd hcode (by simp only [kIOBrokenPipe]; omega)
    · exact absurd hcode (by simp only [kIOInterrupted]; omega)
    · rcases hwhy with ⟨-, hclosed⟩ | ⟨-, -, hroom, hstop⟩
      · exact .inl hclosed
      · exact .inr ⟨hstop, hroom⟩

theorem returnLaw_write (h : Coherent s) {thread : ι} {id : Nat} {buf : List UInt8}
    {written : Nat} {stop : Bool} (hcall : s.call thread = some (id, .write buf written))
    {r : Returned}
    (hr : (s.writeStep thread id buf written stop).returned = s.returned ++ [r]) :
    ReturnLaw s stop r := by
  unfold Parties.writeStep at hr
  rcases writePass_cases h.sound h.capacity buf written stop with
    ⟨hpass, hclosed⟩ | ⟨pipe, hpass, -, hroom, hput⟩ | ⟨hpass, hopen, hroom, hstop⟩ |
      ⟨hpass, -, -, -⟩ <;>
    rw [hpass] at hr
  · obtain rfl : .write id buf (if written > 0 then (written : Int) else kIOBrokenPipe) = r := by
      simpa [Parties.leave] using hr
    exact returnLaw_stopped h hcall (.inl ⟨rfl, hclosed⟩)
  · split at hr <;> rename_i heq <;> split at heq <;> cases heq
    · obtain rfl : .write id buf buf.length = r := by simpa [Parties.leave] using hr
      refine ⟨fun hlt => by omega, fun hcode => ?_, fun hcode => ?_, fun hlt => by omega⟩
      · exact absurd hcode (by simp only [kIOBrokenPipe]; omega)
      · exact absurd hcode (by simp only [kIOInterrupted]; omega)
    · simp at hr
  · obtain rfl : .write id buf (if written > 0 then (written : Int) else kIOInterrupted) = r := by
      simpa [Parties.leave] using hr
    exact returnLaw_stopped h hcall (.inr ⟨rfl, hopen, hroom, hstop⟩)
  · simp at hr

theorem stopped_never_waits (h : Coherent s) {thread : ι} {id : Nat} {call : Call}
    {token : ι → Option τ} [DecidableEq τ] {t : Parties ι τ}
    (hcall : s.call thread = some (id, call))
    (hstop : s.stopSeen (token thread) = true)
    (hstep : Parties.step token (.pass thread) s = some t) :
    t.call thread = none ∨ t.accepted.bytes.length > s.accepted.bytes.length := by
  simp only [Parties.step, hcall, hstop] at hstep
  cases call with
  | read count =>
      left
      cases hstep
      unfold Parties.readStep
      rcases readPass_cases h.sound count true with
        ⟨out, pipe, hpass, -⟩ | ⟨hpass, -, -⟩ | ⟨hpass, -, -, -⟩ | ⟨-, -, -, hno⟩
      · simp [hpass, Parties.leave]
      · simp [hpass, Parties.leave]
      · simp [hpass, Parties.leave]
      · exact nomatch hno
  | write buf written =>
      cases hstep
      unfold Parties.writeStep
      rcases writePass_cases h.sound h.capacity buf written true with
        ⟨hpass, -⟩ | ⟨pipe, hpass, -, hroom, hput⟩ | ⟨hpass, -, -, -⟩ | ⟨-, -, -, hno⟩
      · left
        simp [hpass, Parties.leave]
      · rw [hpass]
        split <;> rename_i heq <;> split at heq <;> cases heq
        · left
          simp [Parties.leave]
        · right
          obtain ⟨hlt, -⟩ := h.writing thread id buf written hcall
          have hneed := need_pos s.pipe (show 0 < buf.length by omega)
          have hlength := length_nextPart s.pipe buf written
          simp only [bytes_accept, List.length_append, List.length_take, List.length_drop]
          omega
      · left
        simp [hpass, Parties.leave]
      · exact nomatch hno

variable [DecidableEq τ]

/--
A pipe is a bounded first-in first-out queue of bytes with atomic small writes, in
every run of any number of threads.
-/
theorem pipe_boundedFifo {capacity : Nat} (hcapacity : 1 ≤ capacity)
    (token : ι → Option τ) {actions : List (Action ι τ)} {s : Parties ι τ}
    (hrun : Transition.run (Parties.step token) actions (.initial ι τ capacity) = some s) :
    FifoLaws capacity s ∧
      ∀ thread id call t, s.call thread = some (id, call) →
        Parties.step token (.pass thread) s = some t →
        (∀ r, t.returned = s.returned ++ [r] →
          ReturnLaw s (s.stopSeen (token thread)) r) ∧
        (s.stopSeen (token thread) = true →
          t.call thread = none ∨ t.accepted.bytes.length > s.accepted.bytes.length) := by
  have h := coherent_run hcapacity hrun
  refine ⟨capacity_run hcapacity hrun ▸ fifoLaws h, ?_⟩
  intro thread id call t hcall hstep
  refine ⟨fun r hr => ?_, fun hstop => stopped_never_waits h hcall hstop hstep⟩
  simp only [Parties.step, hcall] at hstep
  cases call with
  | read count =>
      cases hstep
      exact returnLaw_read h (h.reading thread id count hcall) hr
  | write buf written =>
      cases hstep
      exact returnLaw_write h hcall hr

/-- Two threads and a pipe of two bytes: a write of three goes in two parts. -/
theorem pipe_boundedFifo_twoParts :
    ∃ s : Parties Nat Nat,
      Transition.run (Parties.step some)
        [.write 0 [1, 2, 3], .pass 0, .read 1 5, .pass 1, .pass 0, .closeWriteEnd]
        (.initial Nat Nat 2) = some s ∧
      s.accepted = [(0, [1, 2]), (0, [3])] ∧ s.returnedBytes = [1, 2] ∧
      FifoLaws 2 s := by
  have hrun : Transition.run (Parties.step some)
      [.write 0 [1, 2, 3], .pass 0, .read 1 5, .pass 1, .pass 0, .closeWriteEnd]
      (.initial Nat Nat 2) = some _ := rfl
  exact ⟨_, hrun, rfl, rfl, (pipe_boundedFifo (by decide) some hrun).1⟩

end

end Haisos.PipeService
