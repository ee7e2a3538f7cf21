import DesCartes.Framework.BinaryHeap
import DesCartes.Impl.Service.Request
import Mathlib.Order.Compare

/-!
# Queues (`des-components/src/queue.rs`)

A `Queue` is one of the two of the crate. The `BinaryHeap` of a `PriorityQueue` is ordered by
priority and then by the number that an item gets when it is put in. The numbers and the counters,
which are `u64`, do not overflow.
-/

namespace DesCartes.Service

/-- `QueueItem`. -/
structure QueueItem where
  attempt : RequestAttempt
  enqueuedAt : SimTime
  priority : Nat
  clientId : Option Uuid
deriving DecidableEq

/-- `QueueItem::with_client_id`. -/
def QueueItem.withClientId (attempt : RequestAttempt) (enqueuedAt : SimTime) (clientId : Uuid) : QueueItem :=
  ⟨attempt, enqueuedAt, 0, some clientId⟩

/-- `QueueError::Full`. -/
structure QueueError where
  capacity : Nat
deriving DecidableEq

/-- The check of both queues, `is_full`. -/
def isFull (capacity : Option Nat) (len : Nat) : Option QueueError :=
  match capacity with
  | none => none
  | some cap => if cap ≤ len then some ⟨cap⟩ else none

/-! ## First in, first out -/

/-- `FifoQueue`. -/
structure FifoQueue where
  items : List QueueItem
  capacity : Option Nat
  totalEnqueued : Nat
  totalDequeued : Nat

namespace FifoQueue

/-- `FifoQueue::new`. -/
def new (capacity : Option Nat) : FifoQueue := ⟨[], capacity, 0, 0⟩

/-- `enqueue`. -/
def enqueue (q : FifoQueue) (item : QueueItem) : Except QueueError FifoQueue :=
  match isFull q.capacity q.items.length with
  | some full => .error full
  | none => .ok { q with items := q.items ++ [item], totalEnqueued := q.totalEnqueued + 1 }

/-- `dequeue`. -/
def dequeue (q : FifoQueue) : Option QueueItem × FifoQueue :=
  match q.items with
  | [] => (none, q)
  | item :: items => (some item, { q with items, totalDequeued := q.totalDequeued + 1 })

end FifoQueue

/-! ## By priority -/

/-- `PrioritizedItem`. -/
structure PrioritizedItem where
  item : QueueItem
  sequence : Nat
deriving DecidableEq

namespace PrioritizedItem

/-- `Ord for PrioritizedItem`, reversed so that the lowest priority is the greatest. -/
instance : Ord PrioritizedItem :=
  ⟨fun a b => (compare b.item.priority a.item.priority).then (compare b.sequence a.sequence)⟩

theorem compare_def (a b : PrioritizedItem) :
    compare a b = (compare b.item.priority a.item.priority).then (compare b.sequence a.sequence) := rfl

theorem isLE_compare {a b : PrioritizedItem} : (compare b a).isLE ↔
    a.item.priority < b.item.priority ∨ a.item.priority = b.item.priority ∧ a.sequence ≤ b.sequence := by
  rw [compare_def]
  rcases lt_trichotomy a.item.priority b.item.priority with h | h | h
  · simp [compare_lt_iff_lt.mpr h, h]
  · simp [h, Nat.isLE_compare]
  · simp [compare_gt_iff_gt.mpr h, h.not_gt, h.ne']

instance : Std.TransOrd PrioritizedItem where
  eq_swap {a b} := by
    rw [compare_def, compare_def, Ordering.swap_then, Nat.compare_swap, Nat.compare_swap]
  isLE_trans h₁ h₂ := by
    rw [isLE_compare] at h₁ h₂ ⊢
    omega

end PrioritizedItem

/-- `PriorityQueue`. -/
structure PriorityQueue where
  items : BinaryHeap PrioritizedItem
  capacity : Option Nat
  nextSequence : Nat
  totalEnqueued : Nat
  totalDequeued : Nat

namespace PriorityQueue

/-- `PriorityQueue::new`. -/
def new (capacity : Option Nat) : PriorityQueue := ⟨.empty, capacity, 0, 0, 0⟩

/-- `enqueue`. -/
def enqueue (q : PriorityQueue) (item : QueueItem) : Except QueueError PriorityQueue :=
  match isFull q.capacity q.items.len with
  | some full => .error full
  | none =>
    .ok { q with
      items := q.items.push ⟨item, q.nextSequence⟩
      nextSequence := q.nextSequence + 1
      totalEnqueued := q.totalEnqueued + 1 }

/-- `dequeue`. -/
def dequeue (q : PriorityQueue) : Option QueueItem × PriorityQueue :=
  match q.items.pop with
  | none => (none, q)
  | some (p, items) => (some p.item, { q with items, totalDequeued := q.totalDequeued + 1 })

/-- `peek`. -/
def peek (q : PriorityQueue) : Option QueueItem := q.items.peek.map PrioritizedItem.item

/-- A call. -/
inductive Op where
  | enqueue (item : QueueItem)
  | dequeue
  | peek
  | len
deriving DecidableEq

/-- What a call returns. -/
inductive Answer where
  | enqueued
  | refused (error : QueueError)
  | dequeued (item : Option QueueItem)
  | peeked (item : Option QueueItem)
  | counted (len : Nat)
deriving DecidableEq

/-- The queue after a call, and what the call returns. -/
def perform (q : PriorityQueue) : Op → PriorityQueue × Answer
  | .enqueue item =>
    match q.enqueue item with
    | .ok q => (q, .enqueued)
    | .error full => (q, .refused full)
  | .dequeue =>
    let (item, q) := q.dequeue
    (q, .dequeued item)
  | .peek => (q, .peeked q.peek)
  | .len => (q, .counted q.items.len)

/-- A call, as a step of a machine. -/
def step (q : PriorityQueue) (op : Op) : Option (PriorityQueue × Answer) := some (q.perform op)

end PriorityQueue

/-! ## Queues -/

/-- A `Box<dyn Queue>`. -/
inductive Queue where
  | fifo (queue : FifoQueue)
  | priority (queue : PriorityQueue)

namespace Queue

/-- `enqueue`. -/
def enqueue : Queue → QueueItem → Except QueueError Queue
  | fifo queue, item => (queue.enqueue item).map fifo
  | priority queue, item => (queue.enqueue item).map priority

/-- `dequeue`. -/
def dequeue : Queue → Option QueueItem × Queue
  | fifo queue => (queue.dequeue.1, fifo queue.dequeue.2)
  | priority queue => (queue.dequeue.1, priority queue.dequeue.2)

/-- `len`. -/
def len : Queue → Nat
  | fifo queue => queue.items.length
  | priority queue => queue.items.len

end Queue

end DesCartes.Service
