import Haisos.SynchronizedQueue
import Haisos.Transition

/-!
# The commands of an interactive agent

Any number of threads call `Post`, `Send` and `TriggerStop` while the agent's own
thread takes one command after another.  A step is what one thread does under the
queue's mutex, or between two such steps.
-/

namespace Haisos.Agent

/-- What `Post` or `Send` puts into the queue; only `Send` adds a promise. -/
structure Command where
  id : Nat
  data : String
  poppedPromise : Bool
  /-- Whether its call began after a `TriggerStop` had returned. -/
  afterStop : Bool
  deriving DecidableEq, Repr

inductive Operation where
  | post (command : String)
  | send (command : String)
  | triggerStop
  deriving DecidableEq, Repr

/-- Where a call is. -/
inductive Call where
  | posting (item : Command)
  | notifying (item : Command)
  | awaiting (item : Command)
  | stopping
  | closing
  | notifyingAll
  | requestingStop
  deriving DecidableEq, Repr

def Call.stops : Call → Bool
  | .stopping | .closing | .notifyingAll | .requestingStop => true
  | _ => false

/-- The command that a `Send` has put into the queue and waits for. -/
def Call.sent : Call → Option Command
  | .notifying item | .awaiting item => if item.poppedPromise then some item else none
  | _ => none

def Call.notifies : Call → Bool
  | .notifying _ | .notifyingAll => true
  | _ => false

inductive RunThread where
  | popping
  | asleep
  | popped (item : Command)
  | processing
  | left
  deriving DecidableEq, Repr

structure Commands (ι : Type*) where
  queue : SynchronizedQueue Command := {}
  thread : RunThread := .popping
  call : ι → Option Call := fun _ => none
  stopRequested : Bool := false
  /-- The promises that `Pop` has fulfilled. -/
  fulfilled : List Nat := []
  nextId : Nat := 0
  stopBegun : Bool := false
  stopReturned : Bool := false
  pushed : List Command := []
  /-- What `Post` returned from before any `TriggerStop` began. -/
  early : List Command := []
  /-- What `ProcessCommand` was called with. -/
  given : List Command := []

inductive Action (ι : Type*) where
  | call (thread : ι) (operation : Operation)
  | next (thread : ι)
  | runThread
  | spuriousWake

def Command.asks (item : Command) : Bool := !item.data.isEmpty

/-- What `Pop` has taken out of the queue and not yet handed on. -/
def RunThread.inHand : RunThread → List Command
  | .popped item => [item]
  | _ => []

def RunThread.woken : RunThread → RunThread
  | .asleep => .popping
  | thread => thread

namespace Commands

variable {ι : Type*} [DecidableEq ι]

def goTo (s : Commands ι) (thread : ι) (call : Option Call) : Commands ι :=
  { s with call := Function.update s.call thread call }

def enter (s : Commands ι) (thread : ι) (command : String) (poppedPromise : Bool) :
    Commands ι :=
  { s with nextId := s.nextId + 1 }.goTo thread
    (some (.posting ⟨s.nextId, command, poppedPromise, s.stopReturned⟩))

def start (s : Commands ι) (thread : ι) : Operation → Commands ι
  | .post command => s.enter thread command false
  | .send command => s.enter thread command true
  | .triggerStop => { s with stopBegun := true }.goTo thread (some .stopping)

/-- `notify_one` and `notify_all`: only the agent's thread waits. -/
def notify (s : Commands ι) : Commands ι := { s with thread := s.thread.woken }

def postReturns (s : Commands ι) (thread : ι) (item : Command) : Commands ι :=
  { s with early := if s.stopBegun then s.early else item :: s.early }.goTo thread none

/-- The next step of a thread's call. -/
def next (s : Commands ι) (thread : ι) : Option (Commands ι) :=
  match s.call thread with
  | none => none
  | some (.posting item) =>
      some ({ s with queue := s.queue.post item, pushed := s.pushed ++ [item] }.goTo thread
        (some (.notifying item)))
  | some (.notifying item) =>
      if item.poppedPromise then some (s.notify.goTo thread (some (.awaiting item)))
      else some (s.notify.postReturns thread item)
  | some (.awaiting item) => if item.id ∈ s.fulfilled then some (s.goTo thread none) else none
  | some .stopping => some ({ s with stopRequested := true }.goTo thread (some .closing))
  | some .closing => some ({ s with queue := s.queue.close }.goTo thread (some .notifyingAll))
  | some .notifyingAll => some (s.notify.goTo thread (some .requestingStop))
  | some .requestingStop => some ({ s with stopReturned := true }.goTo thread none)

def fulfil (s : Commands ι) (item : Command) : Commands ι :=
  if item.poppedPromise then { s with fulfilled := item.id :: s.fulfilled } else s

/-- The next step of `RunThread`; however `ProcessCommand` ends, the loop goes on. -/
def runThread (s : Commands ι) : Option (Commands ι) :=
  match s.thread with
  | .popping =>
      match s.queue.pop with
      | (.item item, queue) => some { s with queue, thread := .popped item }
      | (.closed, queue) => some { s with queue, thread := .left }
      | (.waits, queue) => some { s with queue, thread := .asleep }
  | .popped item =>
      if item.data.isEmpty then some { s.fulfil item with thread := .popping }
      else some { s.fulfil item with thread := .processing, given := s.given ++ [item] }
  | .processing => some { s with thread := .popping }
  | .asleep | .left => none

def step : Action ι → Commands ι → Option (Commands ι)
  | .call thread operation, s =>
      match s.call thread with
      | none => some (s.start thread operation)
      | some _ => none
  | .next thread, s => s.next thread
  | .runThread, s => s.runThread
  | .spuriousWake, s => some s.notify

/-! ## What a step changes -/

def held (s : Commands ι) : List Command := s.thread.inHand ++ s.queue.items

theorem inHand_woken (thread : RunThread) : thread.woken.inHand = thread.inHand := by
  cases thread <;> rfl

theorem woken_eq_left {thread : RunThread} : thread.woken = .left ↔ thread = .left := by
  cases thread <;> simp [RunThread.woken]

theorem woken_ne_asleep (thread : RunThread) : thread.woken ≠ .asleep := by
  cases thread <;> simp [RunThread.woken]

omit [DecidableEq ι] in
theorem runThread_cases {s t : Commands ι} (h : s.runThread = some t) :
    (∃ item items, s.thread = .popping ∧ s.queue.items = item :: items ∧
      t = { s with queue := { s.queue with items }, thread := .popped item }) ∨
    (s.thread = .popping ∧ s.queue.items = [] ∧ s.queue.closed = true ∧
      t = { s with thread := .left }) ∨
    (s.thread = .popping ∧ s.queue.items = [] ∧ s.queue.closed = false ∧
      t = { s with thread := .asleep }) ∨
    (∃ item, s.thread = .popped item ∧ item.asks = false ∧
      t = { s.fulfil item with thread := .popping }) ∨
    (∃ item, s.thread = .popped item ∧ item.asks = true ∧
      t = { s.fulfil item with thread := .processing, given := s.given ++ [item] }) ∨
    (s.thread = .processing ∧ t = { s with thread := .popping }) := by
  rw [runThread] at h
  split at h
  case h_1 hthread =>
    rcases s.queue.pop_cases with ⟨item, items, hitems, hpop⟩ | ⟨hitems, hclosed, hpop⟩ |
      ⟨hitems, hclosed, hpop⟩ <;> rw [hpop] at h <;> cases h
    · exact .inl ⟨item, items, hthread, hitems, rfl⟩
    · exact .inr (.inl ⟨hthread, hitems, hclosed, rfl⟩)
    · exact .inr (.inr (.inl ⟨hthread, hitems, hclosed, rfl⟩))
  case h_2 item hthread =>
    split_ifs at h with hempty <;> cases h
    · exact .inr (.inr (.inr (.inl ⟨item, hthread, by simp [Command.asks, hempty], rfl⟩)))
    · exact .inr (.inr (.inr (.inr (.inl ⟨item, hthread, by simp [Command.asks, hempty], rfl⟩))))
  case h_3 hthread =>
    cases h
    exact .inr (.inr (.inr (.inr (.inr ⟨hthread, rfl⟩))))
  case h_4 => cases h
  case h_5 => cases h

theorem next_cases {s t : Commands ι} {thread : ι} (h : s.next thread = some t) :
    (∃ item, s.call thread = some (.posting item) ∧
      t = { s with queue := s.queue.post item, pushed := s.pushed ++ [item] }.goTo thread
        (some (.notifying item))) ∨
    (∃ item, s.call thread = some (.notifying item) ∧ item.poppedPromise = true ∧
      t = s.notify.goTo thread (some (.awaiting item))) ∨
    (∃ item, s.call thread = some (.notifying item) ∧ item.poppedPromise = false ∧
      t = s.notify.postReturns thread item) ∨
    (∃ item, s.call thread = some (.awaiting item) ∧ item.id ∈ s.fulfilled ∧
      t = s.goTo thread none) ∨
    (s.call thread = some .stopping ∧
      t = { s with stopRequested := true }.goTo thread (some .closing)) ∨
    (s.call thread = some .closing ∧
      t = { s with queue := s.queue.close }.goTo thread (some .notifyingAll)) ∨
    (s.call thread = some .notifyingAll ∧ t = s.notify.goTo thread (some .requestingStop)) ∨
    (s.call thread = some .requestingStop ∧ t = { s with stopReturned := true }.goTo thread none) := by
  rw [next] at h
  split at h
  case h_1 => cases h
  case h_2 item hcall =>
    cases h
    exact .inl ⟨item, hcall, rfl⟩
  case h_3 item hcall =>
    right
    split_ifs at h with hpromise <;> cases h
    · exact .inl ⟨item, hcall, hpromise, rfl⟩
    · exact .inr (.inl ⟨item, hcall, Bool.eq_false_of_not_eq_true hpromise, rfl⟩)
  case h_4 item hcall =>
    split_ifs at h with hfulfilled
    cases h
    exact .inr (.inr (.inr (.inl ⟨item, hcall, hfulfilled, rfl⟩)))
  all_goals
    rename_i hcall
    cases h
    simp [hcall]

/-! ## The order of the commands -/

/-- What is pushed is given in order, and the thread leaves its loop with nothing held. -/
structure Orderly (s : Commands ι) : Prop where
  stops : ∀ thread call, s.call thread = some call → call.stops = true → s.stopBegun = true
  closed : s.queue.closed = true → s.stopBegun = true
  left : s.thread = .left → s.queue.closed = true
  fifo : s.given ++ s.held.filter Command.asks = s.pushed.filter Command.asks
  notifying : ∀ thread item, s.call thread = some (.notifying item) → item ∈ s.pushed
  early : ∀ item ∈ s.early, item ∈ s.pushed
  drained : s.thread = .left → ∀ item ∈ s.early, item.asks = true → item ∈ s.given

theorem goTo_call (s : Commands ι) (thread other : ι) (call : Option Call) :
    (s.goTo thread call).call other = if other = thread then call else s.call other :=
  Function.update_apply ..

@[simp]
theorem held_goTo (s : Commands ι) (thread : ι) (call : Option Call) :
    (s.goTo thread call).held = s.held := rfl

@[simp]
theorem held_postReturns (s : Commands ι) (thread : ι) (item : Command) :
    (s.postReturns thread item).held = s.held := rfl

omit [DecidableEq ι] in
@[simp]
theorem held_notify (s : Commands ι) : s.notify.held = s.held := by
  rw [held, notify, inHand_woken, held]

omit [DecidableEq ι] in
theorem Orderly.notify {s : Commands ι} (h : s.Orderly) : s.notify.Orderly :=
  { h with
    left := fun hthread => h.left (woken_eq_left.mp hthread)
    fifo := by
      rw [held_notify]
      exact h.fifo
    drained := fun hthread => h.drained (woken_eq_left.mp hthread) }

theorem Orderly.goTo {s : Commands ι} (h : s.Orderly) (thread : ι) {call : Option Call}
    (hcall : ∀ c, call = some c → (c.stops = true → s.stopBegun = true) ∧
      ∀ item, c = .notifying item → item ∈ s.pushed) : (s.goTo thread call).Orderly :=
  { h with
    stops := by
      intro other c hother
      rw [goTo_call] at hother
      split_ifs at hother
      · exact (hcall c hother).1
      · exact h.stops other c hother
    notifying := by
      intro other item hother
      rw [goTo_call] at hother
      split_ifs at hother
      · exact (hcall _ hother).2 item rfl
      · exact h.notifying other item hother }

theorem Orderly.start {s : Commands ι} (h : s.Orderly) (thread : ι) (operation : Operation) :
    (s.start thread operation).Orderly := by
  cases operation with
  | post command | send command =>
      refine Orderly.goTo (s := { s with nextId := s.nextId + 1 }) { h with } thread ?_
      rintro _ ⟨⟩
      exact ⟨nofun, nofun⟩
  | triggerStop =>
      refine Orderly.goTo (s := { s with stopBegun := true })
        { h with stops := fun _ _ _ _ => rfl, closed := fun _ => rfl } thread ?_
      rintro _ ⟨⟩
      exact ⟨fun _ => rfl, nofun⟩

omit [DecidableEq ι] in
theorem Orderly.post {s : Commands ι} (h : s.Orderly) (item : Command) :
    { s with queue := s.queue.post item, pushed := s.pushed ++ [item] }.Orderly where
  stops := h.stops
  closed := h.closed
  left := h.left
  fifo := by
    have hheld : held { s with queue := s.queue.post item, pushed := s.pushed ++ [item] } =
        s.held ++ [item] := by
      simp [held, SynchronizedQueue.post]
    rw [hheld, List.filter_append, ← List.append_assoc, h.fifo, List.filter_append]
  notifying thread item hcall := List.mem_append_left _ (h.notifying thread item hcall)
  early item hitem := List.mem_append_left _ (h.early item hitem)
  drained := h.drained

theorem Orderly.postReturns {s : Commands ι} (h : s.Orderly) (thread : ι) {item : Command}
    (hitem : item ∈ s.pushed) : (s.postReturns thread item).Orderly := by
  refine Orderly.goTo (s := { s with early := if s.stopBegun then s.early else item :: s.early })
    { h with early := ?_, drained := ?_ } thread nofun
  · intro other hother
    dsimp only at hother
    split_ifs at hother
    · exact h.early other hother
    · rcases List.mem_cons.mp hother with rfl | hother
      · exact hitem
      · exact h.early other hother
  · -- the thread leaves its loop only once the queue is closed
    intro hleft
    dsimp only
    rw [if_pos (h.closed (h.left hleft))]
    exact h.drained hleft

theorem Orderly.next {s t : Commands ι} (h : s.Orderly) {thread : ι}
    (hstep : s.next thread = some t) : t.Orderly := by
  rcases next_cases hstep with ⟨item, hcall, rfl⟩ | ⟨item, hcall, hpromise, rfl⟩ |
    ⟨item, hcall, hpromise, rfl⟩ | ⟨item, hcall, hfulfilled, rfl⟩ | ⟨hcall, rfl⟩ | ⟨hcall, rfl⟩ |
    ⟨hcall, rfl⟩ | ⟨hcall, rfl⟩
  · refine (h.post item).goTo thread ?_
    rintro _ ⟨⟩
    exact ⟨nofun, fun other hother => by cases hother; simp⟩
  · refine h.notify.goTo thread ?_
    rintro _ ⟨⟩
    exact ⟨nofun, nofun⟩
  · exact h.notify.postReturns thread (h.notifying thread item hcall)
  · exact h.goTo thread nofun
  · refine Orderly.goTo (s := { s with stopRequested := true }) { h with } thread ?_
    rintro _ ⟨⟩
    exact ⟨fun _ => h.stops thread _ hcall rfl, nofun⟩
  · have hbegun := h.stops thread _ hcall rfl
    refine Orderly.goTo (s := { s with queue := s.queue.close })
      { h with closed := fun _ => hbegun, left := fun _ => rfl } thread ?_
    rintro _ ⟨⟩
    exact ⟨fun _ => hbegun, nofun⟩
  · refine h.notify.goTo thread ?_
    rintro _ ⟨⟩
    exact ⟨fun _ => h.stops thread _ hcall rfl, nofun⟩
  · exact Orderly.goTo (s := { s with stopReturned := true }) { h with } thread nofun

omit [DecidableEq ι] in
@[simp]
theorem fulfil_fulfilled (s : Commands ι) (item : Command) :
    (s.fulfil item).fulfilled =
      if item.poppedPromise then item.id :: s.fulfilled else s.fulfilled := by
  rw [fulfil]
  split_ifs <;> rfl

omit [DecidableEq ι] in
theorem fulfil_eq (s : Commands ι) (item : Command) :
    s.fulfil item = { s with fulfilled := (s.fulfil item).fulfilled } := by
  rw [fulfil]
  split_ifs <;> rfl

omit [DecidableEq ι] in
theorem Orderly.runThread {s t : Commands ι} (h : s.Orderly) (hstep : s.runThread = some t) :
    t.Orderly := by
  have hfifo := h.fifo
  rcases runThread_cases hstep with ⟨item, items, hthread, hitems, rfl⟩ |
    ⟨hthread, hitems, hclosed, rfl⟩ | ⟨hthread, hitems, hclosed, rfl⟩ |
    ⟨item, hthread, hasks, rfl⟩ | ⟨item, hthread, hasks, rfl⟩ | ⟨hthread, rfl⟩
  · rw [held, hthread, hitems] at hfifo
    exact { h with fifo := hfifo, left := nofun, drained := nofun }
  · rw [held, hthread, hitems] at hfifo
    refine { h with fifo := ?_, left := fun _ => hclosed, drained := fun _ item hitem hasks => ?_ }
    · rw [held, hitems]
      exact hfifo
    · rw [show s.given = s.pushed.filter Command.asks by simpa [RunThread.inHand] using hfifo]
      exact List.mem_filter.mpr ⟨h.early item hitem, hasks⟩
  · rw [held, hthread] at hfifo
    exact { h with fifo := hfifo, left := nofun, drained := nofun }
  · rw [fulfil_eq]
    rw [held, hthread, RunThread.inHand, List.singleton_append, List.filter_cons_of_neg
      (by simp [hasks])] at hfifo
    exact { h with fifo := hfifo, left := nofun, drained := nofun }
  · rw [fulfil_eq]
    rw [held, hthread, RunThread.inHand, List.singleton_append, List.filter_cons_of_pos hasks]
      at hfifo
    refine { h with fifo := ?_, left := nofun, drained := nofun }
    rw [← hfifo, List.append_assoc]
    rfl
  · rw [held, hthread] at hfifo
    exact { h with fifo := hfifo, left := nofun, drained := nofun }

theorem Orderly.step {s t : Commands ι} (h : s.Orderly) {action : Action ι}
    (hstep : step action s = some t) : t.Orderly := by
  cases action with
  | call thread operation =>
      rw [Commands.step] at hstep
      split at hstep <;> cases hstep
      exact h.start thread operation
  | next thread => exact h.next hstep
  | runThread => exact h.runThread hstep
  | spuriousWake =>
      cases hstep
      exact h.notify

/-! ## Every command is pushed once -/

structure Numbered (s : Commands ι) : Prop where
  pushed : ∀ item ∈ s.pushed, item.id < s.nextId
  posting : ∀ thread item, s.call thread = some (.posting item) → item.id < s.nextId
  notYet : ∀ thread item, s.call thread = some (.posting item) →
    ∀ other ∈ s.pushed, other.id ≠ item.id
  apart : ∀ thread thread' item item', s.call thread = some (.posting item) →
    s.call thread' = some (.posting item') → item.id = item'.id → thread = thread'
  once : (s.pushed.map Command.id).Nodup

omit [DecidableEq ι] in
theorem Numbered.of_same {s t : Commands ι} (h : s.Numbered) (hpushed : t.pushed = s.pushed)
    (hnext : t.nextId = s.nextId)
    (hposting : ∀ thread item, t.call thread = some (.posting item) →
      s.call thread = some (.posting item)) : t.Numbered where
  pushed := by
    rw [hpushed, hnext]
    exact h.pushed
  posting thread item hcall := by
    rw [hnext]
    exact h.posting thread item (hposting thread item hcall)
  notYet thread item hcall := by
    rw [hpushed]
    exact h.notYet thread item (hposting thread item hcall)
  apart thread thread' item item' hcall hcall' :=
    h.apart thread thread' item item' (hposting _ _ hcall) (hposting _ _ hcall')
  once := by
    rw [hpushed]
    exact h.once

theorem posting_of_goTo {s : Commands ι} {thread other : ι} {call : Option Call} {item : Command}
    (hcall : ∀ item, call ≠ some (.posting item))
    (hother : (s.goTo thread call).call other = some (.posting item)) :
    s.call other = some (.posting item) := by
  rw [goTo_call] at hother
  split_ifs at hother
  · exact absurd hother (hcall item)
  · exact hother

theorem Numbered.enter {s : Commands ι} (h : s.Numbered) (thread : ι) (command : String)
    (poppedPromise : Bool) : (s.enter thread command poppedPromise).Numbered := by
  have hposting (other : ι) (item : Command)
      (hother : (s.enter thread command poppedPromise).call other = some (.posting item)) :
      other = thread ∧ item.id = s.nextId ∨
        other ≠ thread ∧ s.call other = some (.posting item) := by
    rw [Commands.enter, goTo_call] at hother
    split_ifs at hother with hthread
    · cases hother
      exact .inl ⟨hthread, rfl⟩
    · exact .inr ⟨hthread, hother⟩
  refine ⟨fun item hitem => (h.pushed item hitem).trans (Nat.lt_succ_self _), ?_, ?_, ?_, h.once⟩
  · intro other item hother
    rcases hposting other item hother with ⟨-, hid⟩ | ⟨-, hsame⟩
    · exact hid ▸ Nat.lt_succ_self _
    · exact (h.posting other item hsame).trans (Nat.lt_succ_self _)
  · intro other item hother pushed hpushed
    rcases hposting other item hother with ⟨-, hid⟩ | ⟨-, hsame⟩
    · exact hid ▸ (h.pushed pushed hpushed).ne
    · exact h.notYet other item hsame pushed hpushed
  · intro other other' item item' hother hother' hids
    rcases hposting other item hother with ⟨hthread, hid⟩ | ⟨-, hsame⟩ <;>
      rcases hposting other' item' hother' with ⟨hthread', hid'⟩ | ⟨-, hsame'⟩
    · rw [hthread, hthread']
    · have := h.posting other' item' hsame'
      omega
    · have := h.posting other item hsame
      omega
    · exact h.apart other other' item item' hsame hsame' hids

theorem Numbered.post {s : Commands ι} (h : s.Numbered) {thread : ι} {item : Command}
    (hcall : s.call thread = some (.posting item)) :
    ({ s with queue := s.queue.post item, pushed := s.pushed ++ [item] }.goTo thread
      (some (.notifying item))).Numbered := by
  have hposting (other : ι) (item' : Command)
      (hother : ({ s with queue := s.queue.post item, pushed := s.pushed ++ [item] }.goTo thread
        (some (.notifying item))).call other = some (.posting item')) :
      other ≠ thread ∧ s.call other = some (.posting item') := by
    rw [goTo_call] at hother
    split_ifs at hother with hthread
    · cases hother
    · exact ⟨hthread, hother⟩
  refine ⟨?_, fun other item' hother => h.posting other item' (hposting _ _ hother).2, ?_, ?_, ?_⟩
  · intro pushed hpushed
    rcases List.mem_append.mp hpushed with hpushed | hpushed
    · exact h.pushed pushed hpushed
    · rw [List.mem_singleton.mp hpushed]
      exact h.posting thread item hcall
  · intro other item' hother pushed hpushed
    obtain ⟨hne, hsame⟩ := hposting other item' hother
    rcases List.mem_append.mp hpushed with hpushed | hpushed
    · exact h.notYet other item' hsame pushed hpushed
    · rw [List.mem_singleton.mp hpushed]
      exact fun hids => hne (h.apart other thread item' item hsame hcall hids.symm)
  · intro other other' item' item'' hother hother'
    exact h.apart other other' item' item'' (hposting _ _ hother).2 (hposting _ _ hother').2
  · have hnot : item.id ∉ s.pushed.map Command.id := by
      intro hmem
      obtain ⟨pushed, hpushed, hid⟩ := List.mem_map.mp hmem
      exact h.notYet thread item hcall pushed hpushed hid
    have honce := List.Nodup.append h.once (List.nodup_singleton item.id)
      (List.disjoint_singleton.mpr hnot)
    rwa [← List.map_singleton, ← List.map_append] at honce

theorem Numbered.step {s t : Commands ι} (h : s.Numbered) {action : Action ι}
    (hstep : step action s = some t) : t.Numbered := by
  cases action with
  | call thread operation =>
      rw [Commands.step] at hstep
      split at hstep <;> cases hstep
      cases operation with
      | post command => exact h.enter thread command false
      | send command => exact h.enter thread command true
      | triggerStop => exact h.of_same rfl rfl fun _ _ => posting_of_goTo (by simp)
  | next thread =>
      rcases next_cases hstep with ⟨item, hcall, rfl⟩ | ⟨item, hcall, hpromise, rfl⟩ |
        ⟨item, hcall, hpromise, rfl⟩ | ⟨item, hcall, hfulfilled, rfl⟩ | ⟨hcall, rfl⟩ | ⟨hcall, rfl⟩ |
        ⟨hcall, rfl⟩ | ⟨hcall, rfl⟩
      · exact h.post hcall
      all_goals exact h.of_same rfl rfl fun _ _ => posting_of_goTo (by simp)
  | runThread =>
      rcases runThread_cases hstep with ⟨_, _, _, _, rfl⟩ | ⟨_, _, _, rfl⟩ | ⟨_, _, _, rfl⟩ |
        ⟨_, _, _, rfl⟩ | ⟨_, _, _, rfl⟩ | ⟨_, rfl⟩
      case inr.inr.inr.inl | inr.inr.inr.inr.inl =>
        rw [fulfil_eq]
        exact { h with }
      all_goals exact { h with }
  | spuriousWake =>
      cases hstep
      exact { h with }

/-! ## No wake-up is lost -/

/-- While the thread sleeps there is nothing for it, or a call is about to notify it. -/
def Attentive (s : Commands ι) : Prop :=
  s.thread = .asleep → s.queue = {} ∨
    ∃ thread call, s.call thread = some call ∧ call.notifies = true

theorem Attentive.goTo {s : Commands ι} (h : s.Attentive) {thread : ι} {call : Option Call}
    (hcall : ∀ before, s.call thread = some before → before.notifies = false) :
    (s.goTo thread call).Attentive := by
  intro hasleep
  rcases h hasleep with hqueue | ⟨other, before, hother, hnotifies⟩
  · exact .inl hqueue
  · refine .inr ⟨other, before, ?_, hnotifies⟩
    rw [goTo_call, if_neg]
    · exact hother
    · rintro rfl
      rw [hcall before hother] at hnotifies
      cases hnotifies

theorem attentive_of_notifies {s : Commands ι} (thread : ι) {call : Call}
    (hcall : call.notifies = true) : (s.goTo thread (some call)).Attentive := fun _ =>
  .inr ⟨thread, call, by rw [goTo_call, if_pos rfl], hcall⟩

omit [DecidableEq ι] in
theorem attentive_of_awake {s : Commands ι} (h : s.thread ≠ .asleep) : s.Attentive :=
  fun hasleep => absurd hasleep h

theorem Attentive.step {s t : Commands ι} (h : s.Attentive) {action : Action ι}
    (hstep : step action s = some t) : t.Attentive := by
  cases action with
  | call thread operation =>
      rw [Commands.step] at hstep
      split at hstep <;> cases hstep
      rename_i hnone
      cases operation <;>
        exact Attentive.goTo (s := { s with .. }) h fun before hbefore => by
          rw [show s.call thread = some before from hbefore] at hnone
          cases hnone
  | next thread =>
      rcases next_cases hstep with ⟨item, hcall, rfl⟩ | ⟨item, hcall, hpromise, rfl⟩ |
        ⟨item, hcall, hpromise, rfl⟩ | ⟨item, hcall, hfulfilled, rfl⟩ | ⟨hcall, rfl⟩ | ⟨hcall, rfl⟩ |
        ⟨hcall, rfl⟩ | ⟨hcall, rfl⟩
      · exact attentive_of_notifies thread rfl
      · exact attentive_of_awake (woken_ne_asleep _)
      · exact attentive_of_awake (woken_ne_asleep _)
      · exact h.goTo fun before hbefore => by cases hcall.symm.trans hbefore; rfl
      · exact Attentive.goTo (s := { s with stopRequested := true }) h fun before hbefore => by
          cases hcall.symm.trans hbefore; rfl
      · exact attentive_of_notifies thread rfl
      · exact attentive_of_awake (woken_ne_asleep _)
      · exact Attentive.goTo (s := { s with stopReturned := true }) h fun before hbefore => by
          cases hcall.symm.trans hbefore; rfl
  | runThread =>
      rcases runThread_cases hstep with ⟨_, _, _, _, rfl⟩ | ⟨_, _, _, rfl⟩ |
        ⟨_, hitems, hclosed, rfl⟩ | ⟨_, _, _, rfl⟩ | ⟨_, _, _, rfl⟩ | ⟨_, rfl⟩
      case inr.inr.inl =>
        refine fun _ => .inl ?_
        rcases hqueue : s.queue with ⟨items, closed⟩
        rw [hqueue] at hitems hclosed
        cases hitems
        cases hclosed
        rfl
      all_goals exact attentive_of_awake nofun
  | spuriousWake =>
      cases hstep
      exact attentive_of_awake (woken_ne_asleep _)

/-! ## After a stop -/

omit [DecidableEq ι] in
/--
No command of a call that began after a stop had returned is pushed while the thread
still takes commands, and no `Send` pushes once it has left its loop.
-/
def PushedInTime : Action ι → Commands ι → Prop
  | .next thread, s => ∀ item, s.call thread = some (.posting item) →
      (item.asks = true → item.afterStop = true → s.thread = .left) ∧
      (item.poppedPromise = true → s.thread ≠ .left)
  | _, _ => True

instance (action : Action ι) (s : Commands ι) : Decidable (PushedInTime action s) :=
  match action with
  | .next thread =>
      match hcall : s.call thread with
      | some (.posting item) =>
          decidable_of_iff
            ((item.asks = true → item.afterStop = true → s.thread = .left) ∧
              (item.poppedPromise = true → s.thread ≠ .left))
            (by simp [PushedInTime, hcall])
      | none | some (.notifying _) | some (.awaiting _) | some .stopping | some .closing
      | some .notifyingAll | some .requestingStop => isTrue (by simp [PushedInTime, hcall])
  | .call .. | .runThread | .spuriousWake => isTrue trivial

structure Timely (s : Commands ι) : Prop where
  given : ∀ item ∈ s.given, item.afterStop = false
  held : s.thread ≠ .left → ∀ item ∈ s.held, item.asks = true → item.afterStop = false
  unpromised : s.thread = .left → ∀ item ∈ s.held, item.poppedPromise = false
  sent : ∀ thread call item, s.call thread = some call → call.sent = some item →
    item.poppedPromise = true ∧ (item.id ∈ s.fulfilled ∨ item ∈ s.held)

omit [DecidableEq ι] in
theorem Timely.notify {s : Commands ι} (h : s.Timely) : s.notify.Timely where
  given := h.given
  held hleft := by
    rw [held_notify]
    exact h.held fun hthread => hleft (woken_eq_left.mpr hthread)
  unpromised hleft := by
    rw [held_notify]
    exact h.unpromised (woken_eq_left.mp hleft)
  sent := by
    rw [held_notify]
    exact h.sent

theorem Timely.goTo {s : Commands ι} (h : s.Timely) (thread : ι) {call : Option Call}
    (hcall : ∀ c item, call = some c → c.sent = some item →
      item.poppedPromise = true ∧ (item.id ∈ s.fulfilled ∨ item ∈ s.held)) :
    (s.goTo thread call).Timely where
  given := h.given
  held := h.held
  unpromised := h.unpromised
  sent other c item hother hsent := by
    rw [goTo_call] at hother
    split_ifs at hother
    · exact hcall c item hother hsent
    · exact h.sent other c item hother hsent

omit [DecidableEq ι] in
theorem mem_held_post (s : Commands ι) (item other : Command) :
    other ∈ held { s with queue := s.queue.post item, pushed := s.pushed ++ [item] } ↔
      other ∈ s.held ∨ other = item := by
  simp [held, SynchronizedQueue.post, or_assoc]

omit [DecidableEq ι] in
theorem Timely.post {s : Commands ι} (h : s.Timely) {thread : ι} {item : Command}
    (hcall : s.call thread = some (.posting item)) (hintime : PushedInTime (.next thread) s) :
    { s with queue := s.queue.post item, pushed := s.pushed ++ [item] }.Timely := by
  have hheld := mem_held_post s item
  obtain ⟨hlate, hpromise⟩ := hintime item hcall
  refine ⟨h.given, ?_, ?_, ?_⟩
  · intro hleft other hother hasks
    rcases (hheld other).mp hother with hother | rfl
    · exact h.held hleft other hother hasks
    · exact Bool.eq_false_of_not_eq_true fun hstop => hleft (hlate hasks hstop)
  · intro hleft other hother
    rcases (hheld other).mp hother with hother | rfl
    · exact h.unpromised hleft other hother
    · exact Bool.eq_false_of_not_eq_true fun hpromised => hpromise hpromised hleft
  · intro other call sent hother hsent
    obtain ⟨hpromised, hwhere⟩ := h.sent other call sent hother hsent
    exact ⟨hpromised, hwhere.imp_right fun hsent => (hheld sent).mpr (.inl hsent)⟩

theorem Timely.next {s t : Commands ι} (h : s.Timely) {thread : ι}
    (hintime : PushedInTime (.next thread) s) (hstep : s.next thread = some t) : t.Timely := by
  rcases next_cases hstep with ⟨item, hcall, rfl⟩ | ⟨item, hcall, hpromise, rfl⟩ |
    ⟨item, hcall, hpromise, rfl⟩ | ⟨item, hcall, hfulfilled, rfl⟩ | ⟨hcall, rfl⟩ | ⟨hcall, rfl⟩ |
    ⟨hcall, rfl⟩ | ⟨hcall, rfl⟩
  · refine (h.post hcall hintime).goTo thread ?_
    rintro _ sent ⟨⟩ hsent
    rw [Call.sent] at hsent
    split_ifs at hsent with hpromise
    cases hsent
    exact ⟨hpromise, .inr ((mem_held_post s item item).mpr (.inr rfl))⟩
  · refine h.notify.goTo thread ?_
    rintro _ sent ⟨⟩ hsent
    have hbefore := h.sent thread _ sent hcall hsent
    rwa [held_notify]
  · have hnotify := h.notify
    refine Timely.goTo (s := { s.notify with early := if s.stopBegun then s.early else item :: s.early })
      { hnotify with } thread ?_
    rintro _ _ ⟨⟩
  · exact h.goTo thread nofun
  · refine Timely.goTo (s := { s with stopRequested := true }) { h with } thread ?_
    rintro _ sent ⟨⟩ ⟨⟩
  · refine Timely.goTo (s := { s with queue := s.queue.close }) { h with } thread ?_
    rintro _ sent ⟨⟩ ⟨⟩
  · refine h.notify.goTo thread ?_
    rintro _ sent ⟨⟩ ⟨⟩
  · exact Timely.goTo (s := { s with stopReturned := true }) { h with } thread nofun

omit [DecidableEq ι] in
theorem Timely.sent_fulfilled {s : Commands ι} (h : s.Timely) {item : Command}
    (hthread : s.thread = .popped item) (thread : ι) (call : Call) (sent : Command)
    (hcall : s.call thread = some call) (hsent : call.sent = some sent) :
    sent.poppedPromise = true ∧
      (sent.id ∈ (s.fulfil item).fulfilled ∨ sent ∈ s.queue.items) := by
  obtain ⟨hpromised, hwhere⟩ := h.sent thread call sent hcall hsent
  refine ⟨hpromised, ?_⟩
  rw [fulfil_fulfilled]
  rcases hwhere with hfulfilled | hheld
  · left
    split_ifs
    · exact List.mem_cons_of_mem _ hfulfilled
    · exact hfulfilled
  · rw [Commands.held, hthread] at hheld
    rcases List.mem_cons.mp hheld with rfl | hqueued
    · left
      rw [if_pos hpromised]
      exact List.mem_cons_self
    · exact .inr hqueued

omit [DecidableEq ι] in
theorem Timely.runThread {s t : Commands ι} (h : s.Timely) (hstep : s.runThread = some t) :
    t.Timely := by
  have hheld := h.held
  have hsent := h.sent
  rcases runThread_cases hstep with ⟨item, items, hthread, hitems, rfl⟩ |
    ⟨hthread, hitems, hclosed, rfl⟩ | ⟨hthread, hitems, hclosed, rfl⟩ |
    ⟨item, hthread, hasks, rfl⟩ | ⟨item, hthread, hasks, rfl⟩ | ⟨hthread, rfl⟩
  · rw [Commands.held, hthread, hitems] at hheld hsent
    exact { h with held := fun _ => hheld nofun, unpromised := nofun, sent := hsent }
  · rw [Commands.held, hthread, hitems] at hsent
    refine { h with held := fun hleft => absurd rfl hleft, unpromised := ?_, sent := ?_ }
    · rw [Commands.held, hitems]
      exact fun _ _ hmem => nomatch hmem
    · rw [Commands.held, hitems]
      exact hsent
  · rw [Commands.held, hthread] at hheld hsent
    exact { h with held := fun _ => hheld nofun, unpromised := nofun, sent := hsent }
  · have hfulfilled := h.sent_fulfilled hthread
    rw [fulfil_eq]
    rw [Commands.held, hthread] at hheld
    exact
      { given := h.given
        held := fun _ other hother => hheld nofun other (List.mem_cons_of_mem item hother)
        unpromised := nofun
        sent := hfulfilled }
  · have hfulfilled := h.sent_fulfilled hthread
    rw [fulfil_eq]
    rw [Commands.held, hthread] at hheld
    refine
      { given := fun other hother => ?_
        held := fun _ other hother => hheld nofun other (List.mem_cons_of_mem item hother)
        unpromised := nofun
        sent := hfulfilled }
    rcases List.mem_append.mp hother with hother | hother
    · exact h.given other hother
    · rw [List.mem_singleton.mp hother]
      exact hheld nofun item List.mem_cons_self hasks
  · rw [Commands.held, hthread] at hheld hsent
    exact { h with held := fun _ => hheld nofun, unpromised := nofun, sent := hsent }

theorem Timely.step {s t : Commands ι} (h : s.Timely) {action : Action ι}
    (hintime : PushedInTime action s) (hstep : step action s = some t) : t.Timely := by
  cases action with
  | call thread operation =>
      rw [Commands.step] at hstep
      split at hstep <;> cases hstep
      cases operation with
      | post command | send command =>
          refine Timely.goTo (s := { s with nextId := s.nextId + 1 }) { h with } thread ?_
          rintro _ _ ⟨⟩ ⟨⟩
      | triggerStop =>
          refine Timely.goTo (s := { s with stopBegun := true }) { h with } thread ?_
          rintro _ _ ⟨⟩ ⟨⟩
  | next thread => exact h.next hintime hstep
  | runThread => exact h.runThread hstep
  | spuriousWake =>
      cases hstep
      exact h.notify

/-! ## Every run -/

/-- What is to be true of the commands at every moment. -/
structure TakenOnce (s : Commands ι) : Prop where
  inOrder : s.given <+: s.pushed.filter Command.asks
  once : (s.given.map Command.id).Nodup
  kept : ∀ item ∈ s.early, item.asks = true → item ∈ s.given ∨ item ∈ s.held
  awake : s.thread = .asleep → (∀ thread call, s.call thread = some call → call.notifies = false) →
    s.held = []
  drained : s.thread = .left → ∀ item ∈ s.early, item.asks = true → item ∈ s.given
  refused : ∀ item ∈ s.given, item.afterStop = false
  answered : s.thread = .left → ∀ thread call item, s.call thread = some call →
    call.sent = some item → item.id ∈ s.fulfilled

structure Sound (s : Commands ι) : Prop where
  orderly : s.Orderly
  numbered : s.Numbered
  attentive : s.Attentive
  timely : s.Timely

omit [DecidableEq ι] in
theorem sound_initial : ({} : Commands ι).Sound where
  orderly := ⟨nofun, nofun, nofun, rfl, nofun, nofun, nofun⟩
  numbered := ⟨nofun, nofun, nofun, nofun, List.nodup_nil⟩
  attentive := nofun
  timely := ⟨nofun, nofun, nofun, nofun⟩

omit [DecidableEq ι] in
theorem Sound.takenOnce {s : Commands ι} (h : s.Sound) : s.TakenOnce where
  inOrder := ⟨_, h.orderly.fifo⟩
  once := by
    have hgiven : s.given.Sublist s.pushed :=
      (List.prefix_append _ _).sublist.trans (h.orderly.fifo ▸ List.filter_sublist)
    exact h.numbered.once.sublist (hgiven.map Command.id)
  kept item hitem hasks := by
    have hpushed := List.mem_filter.mpr ⟨h.orderly.early item hitem, hasks⟩
    rw [← h.orderly.fifo] at hpushed
    exact (List.mem_append.mp hpushed).imp_right List.mem_of_mem_filter
  awake hasleep hquiet := by
    rcases h.attentive hasleep with hqueue | ⟨thread, call, hcall, hnotifies⟩
    · rw [held, hasleep, hqueue]
      rfl
    · rw [hquiet thread call hcall] at hnotifies
      cases hnotifies
  drained := h.orderly.drained
  refused := h.timely.given
  answered hleft thread call item hcall hsent := by
    obtain ⟨hpromised, hfulfilled | hheld⟩ := h.timely.sent thread call item hcall hsent
    · exact hfulfilled
    · rw [h.timely.unpromised hleft item hheld] at hpromised
      cases hpromised

/--
In every run in which nothing is pushed too late, the commands are given once and in order,
none is given after a stop, and no `Send` is left waiting.
-/
theorem run_takenOnce {actions : List (Action ι)} {s : Commands ι}
    (hrun : Transition.run step actions {} = some s)
    (hintime : Transition.Meets step PushedInTime actions {}) : s.TakenOnce := by
  refine (Transition.run_preserves_of_meets (P := Sound) ?_ hrun hintime sound_initial).takenOnce
  intro action s t hstep hin h
  exact ⟨h.orderly.step hstep, h.numbered.step hstep, h.attentive.step hstep,
    h.timely.step hin hstep⟩

/-- A `Post` and a `Send` before a stop, whose commands are taken after it, and a `Post` when
the thread has left its loop. -/
def postSendStop : List (Action (Fin 3)) :=
  [.call 0 (.post "ls"), .call 1 (.send "pwd"), .next 0, .runThread, .next 1, .next 0, .runThread,
    .call 2 .triggerStop, .next 2, .next 2, .runThread, .next 1, .runThread, .runThread, .next 1,
    .next 2, .next 2, .runThread, .runThread, .call 0 (.post "date"), .next 0, .next 0]

theorem run_takenOnce_postSendStop :
    ∃ s, Transition.run step postSendStop {} = some s ∧
      s.given.map Command.data = ["ls", "pwd"] ∧ s.thread = .left ∧ s.TakenOnce := by
  have hgiven : (Transition.run step postSendStop {}).map (fun s =>
      (s.given.map Command.data, s.thread)) = some (["ls", "pwd"], .left) := by decide +kernel
  obtain ⟨s, hrun, hs⟩ := Option.map_eq_some_iff.mp hgiven
  obtain ⟨hgiven, hleft⟩ := Prod.mk.inj hs
  have hintime : Transition.Meets step PushedInTime postSendStop {} := by decide +kernel
  exact ⟨s, hrun, hgiven, hleft, run_takenOnce hrun hintime⟩

def stopped : List (Action Bool) :=
  [.call true .triggerStop, .next true, .next true, .next true, .next true]

/--
`Post` and `Send` do not look whether the queue is closed: a command that comes after the
stop is given, and a `Send` after the thread has left its loop is left waiting.
-/
theorem run_not_takenOnce :
    (∃ s, Transition.run step
        (stopped ++ [.call true (.post "ls"), .next true, .runThread, .runThread]) {} = some s ∧
      s.given.map Command.data = ["ls"] ∧ ¬ s.TakenOnce) ∧
    ∃ s, Transition.run step
        (stopped ++ [.runThread, .call true (.send "ls"), .next true, .next true]) {} = some s ∧
      s.thread = .left ∧ ¬ s.TakenOnce := by
  constructor
  · refine ⟨_, rfl, rfl, fun h => ?_⟩
    exact absurd (h.refused ⟨0, "ls", false, true⟩ (List.mem_singleton_self _)) (by decide)
  · refine ⟨_, rfl, rfl, fun h => ?_⟩
    exact absurd (h.answered rfl true _ ⟨0, "ls", true, true⟩ rfl rfl) (by decide)

end Commands

end Haisos.Agent
