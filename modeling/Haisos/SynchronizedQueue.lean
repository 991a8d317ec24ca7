import Mathlib.Tactic

/-!
# Queues shared by threads

What `Post`, `Pop` and `Close` do while they hold the mutex.  `Pop` waits while the
queue is empty and open; a queue that is closed still gives out what it holds.
-/

namespace Haisos

structure SynchronizedQueue (α : Type*) where
  items : List α := []
  closed : Bool := false
  deriving DecidableEq, Repr

inductive Popped (α : Type*) where
  | item (item : α)
  | closed
  | waits
  deriving DecidableEq, Repr

namespace SynchronizedQueue

variable {α : Type*}

def post (queue : SynchronizedQueue α) (item : α) : SynchronizedQueue α :=
  { queue with items := queue.items ++ [item] }

def close (queue : SynchronizedQueue α) : SynchronizedQueue α :=
  { queue with closed := true }

def pop (queue : SynchronizedQueue α) : Popped α × SynchronizedQueue α :=
  match queue.items with
  | item :: items => (.item item, { queue with items })
  | [] => (if queue.closed then .closed else .waits, queue)

theorem pop_cases (queue : SynchronizedQueue α) :
    (∃ item items, queue.items = item :: items ∧
      queue.pop = (.item item, { queue with items })) ∨
    (queue.items = [] ∧ queue.closed = true ∧ queue.pop = (.closed, queue)) ∨
    (queue.items = [] ∧ queue.closed = false ∧ queue.pop = (.waits, queue)) := by
  rcases queue with ⟨items, closed⟩
  cases items with
  | cons item items => exact .inl ⟨item, items, rfl, rfl⟩
  | nil =>
      cases closed with
      | true => exact .inr (.inl ⟨rfl, rfl, rfl⟩)
      | false => exact .inr (.inr ⟨rfl, rfl, rfl⟩)

end SynchronizedQueue

end Haisos
