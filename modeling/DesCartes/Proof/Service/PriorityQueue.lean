import DesCartes.Framework.Machine
import DesCartes.Framework.StableList
import DesCartes.Impl.Service.Queue

/-!
# Priority queues

`run_stable`: a `PriorityQueue` answers as a stable priority list does (`Held`), for every sequence
of calls. What it holds is what the list holds, it is never longer than its capacity, and `peek` is
what the next `dequeue` returns.

The heap does not know in which order the items came. Their numbers do (`Stands`): the entries of
the heap, by their numbers, are the items of the list.
-/

namespace DesCartes.Service

/-- A stable priority list: what is held, in the order in which it came. -/
structure Held where
  capacity : Option Nat
  items : List QueueItem

namespace Held

/-- What a call does to the list, and what it returns: the item that goes is the first one with the
least priority. -/
def perform (l : Held) : PriorityQueue.Op → Held × PriorityQueue.Answer
  | .enqueue item =>
    match isFull l.capacity l.items.length with
    | some full => (l, .refused full)
    | none => ({ l with items := l.items ++ [item] }, .enqueued)
  | .dequeue =>
    match StableList.takeLeast QueueItem.priority l.items with
    | none => (l, .dequeued none)
    | some (item, items) => ({ l with items }, .dequeued (some item))
  | .peek => (l, .peeked ((StableList.takeLeast QueueItem.priority l.items).map Prod.fst))
  | .len => (l, .counted l.items.length)

/-- A call, as a step of a machine. -/
def step (l : Held) (op : PriorityQueue.Op) : Option (Held × PriorityQueue.Answer) := some (l.perform op)

end Held

namespace PrioritizedItem

/-- The order of the heap is the one that `PartialEq for PrioritizedItem` says. -/
theorem compare_eq_iff {a b : PrioritizedItem} :
    compare a b = .eq ↔ a.item.priority = b.item.priority ∧ a.sequence = b.sequence := by
  rw [compare_def, Ordering.then_eq_eq, Nat.compare_eq_eq, Nat.compare_eq_eq, eq_comm,
    eq_comm (a := b.sequence)]

end PrioritizedItem

namespace PriorityQueue

variable {q q' : PriorityQueue} {l : Held}

/-- The entries, in the order of their numbers, are the items of the list, and no number has been
used that is still to come. -/
structure Stands (q : PriorityQueue) (l : Held) (entries : List PrioritizedItem) : Prop where
  perm : q.items.toList.Perm entries
  numbered : entries.Pairwise fun a b => a.sequence < b.sequence
  next : ∀ a ∈ entries, a.sequence < q.nextSequence
  items : entries.map PrioritizedItem.item = l.items
  capacity : l.capacity = q.capacity
  bounded : ∀ cap ∈ q.capacity, l.items.length ≤ cap

theorem stands_new (capacity : Option Nat) : Stands (new capacity) ⟨capacity, []⟩ [] :=
  ⟨.nil, .nil, by simp, rfl, rfl, fun _ _ => Nat.zero_le _⟩

variable {entries : List PrioritizedItem}

theorem Stands.length (h : Stands q l entries) : q.items.len = l.items.length := by
  rw [← h.items, List.length_map]
  exact h.perm.length_eq

/-- What the heap takes is what the list takes. -/
theorem Stands.pop (h : Stands q l entries) {p : PrioritizedItem} {items : BinaryHeap PrioritizedItem}
    (hpop : q.items.pop = some (p, items)) : ∃ others, items.toList.Perm others ∧ others.Sublist entries ∧
      StableList.takeLeast QueueItem.priority l.items = some (p.item, others.map PrioritizedItem.item) := by
  have hitems := BinaryHeap.pop_eq_some.mp hpop
  have hmem : p ∈ entries := h.perm.mem_iff.mp (hitems ▸ List.mem_cons_self)
  obtain ⟨others, hperm, hsub, htake⟩ := StableList.takeLeast_stamped
    h.numbered hmem fun c hc => by
      rcases List.mem_cons.mp (hitems ▸ h.perm.mem_iff.mpr hc) with rfl | hc
      · exact .inr ⟨rfl, Nat.le_refl _⟩
      · exact PrioritizedItem.isLE_compare.mp (BinaryHeap.head_isGE hitems hc)
  refine ⟨others, ?_, hsub, h.items ▸ htake⟩
  exact (hitems ▸ h.perm.trans hperm : (p :: items.toList).Perm (p :: others)).cons_inv

theorem Stands.takeLeast_of_pop_none (h : Stands q l entries) (hpop : q.items.pop = none) :
    StableList.takeLeast QueueItem.priority l.items = none := by
  rw [StableList.takeLeast_eq_none, ← h.items, List.map_eq_nil_iff]
  exact (BinaryHeap.pop_eq_none.mp hpop ▸ h.perm).nil_eq.symm

theorem peek_eq_pop (items : BinaryHeap PrioritizedItem) : items.peek = items.pop.map Prod.fst := by
  rcases items with ⟨_ | ⟨a, l⟩, hs⟩ <;> rfl

/-- `peek` is what the next `dequeue` returns. -/
theorem peek_eq_dequeue (q : PriorityQueue) : q.peek = q.dequeue.1 := by
  rw [peek, peek_eq_pop, dequeue]
  cases q.items.pop <;> rfl

theorem Stands.enqueue (h : Stands q l entries) {item : QueueItem} (henqueue : q.enqueue item = .ok q') :
    isFull l.capacity l.items.length = none ∧
      Stands q' { l with items := l.items ++ [item] } (entries ++ [⟨item, q.nextSequence⟩]) := by
  rw [PriorityQueue.enqueue, h.length] at henqueue
  rw [h.capacity]
  split at henqueue
  · cases henqueue
  · rename_i hfull
    cases henqueue
    refine ⟨hfull, (BinaryHeap.push_perm _ _).trans ?_, ?_, fun a ha => ?_, ?_, rfl, fun cap hcap => ?_⟩
    · exact (h.perm.cons _).trans (List.perm_append_singleton _ _).symm
    · refine List.pairwise_append.mpr ⟨h.numbered, List.pairwise_singleton _ _, fun a ha b hb => ?_⟩
      rw [List.mem_singleton.mp hb]
      exact h.next a ha
    · rcases List.mem_append.mp ha with ha | ha
      · exact (h.next a ha).trans (Nat.lt_succ_self _)
      · rw [List.mem_singleton.mp ha]
        exact Nat.lt_succ_self _
    · rw [List.map_append, h.items]
      rfl
    · rw [Option.mem_def.mp hcap, isFull] at hfull
      split at hfull
      · cases hfull
      · rw [List.length_append]
        exact Nat.not_le.mp ‹_›

theorem Stands.refused (h : Stands q l entries) {item : QueueItem} {full : QueueError}
    (henqueue : q.enqueue item = .error full) :
    isFull l.capacity l.items.length = some full := by
  rw [PriorityQueue.enqueue, h.length, ← h.capacity] at henqueue
  split at henqueue <;> cases henqueue
  assumption

theorem Stands.dequeue (h : Stands q l entries) {items : BinaryHeap PrioritizedItem}
    {others : List PrioritizedItem} (hperm : items.toList.Perm others) (hsub : others.Sublist entries) :
    Stands { q with items, totalDequeued := q.totalDequeued + 1 }
      { l with items := others.map PrioritizedItem.item } others := by
  refine ⟨hperm, h.numbered.sublist hsub, fun a ha => h.next a (hsub.subset ha), rfl, h.capacity,
    fun cap hcap => ?_⟩
  exact ((hsub.map _).length_le.trans_eq (congrArg _ h.items)).trans (h.bounded cap hcap)

/-- Each call answers as the list does. -/
theorem Stands.perform (h : Stands q l entries) (op : Op) : (q.perform op).2 = (l.perform op).2 ∧
    ∃ entries', Stands (q.perform op).1 (l.perform op).1 entries' := by
  cases op with
  | enqueue item =>
    rw [PriorityQueue.perform, Held.perform]
    cases henqueue : q.enqueue item with
    | ok q' =>
      obtain ⟨hfull, h'⟩ := h.enqueue henqueue
      rw [hfull]
      exact ⟨rfl, _, h'⟩
    | error full =>
      rw [h.refused henqueue]
      exact ⟨rfl, _, h⟩
  | dequeue =>
    rw [PriorityQueue.perform, Held.perform, PriorityQueue.dequeue]
    cases hpop : q.items.pop with
    | none =>
      rw [h.takeLeast_of_pop_none hpop]
      exact ⟨rfl, _, h⟩
    | some p =>
      obtain ⟨others, hperm, hsub, htake⟩ := h.pop hpop
      rw [htake]
      exact ⟨rfl, _, h.dequeue hperm hsub⟩
  | peek =>
    refine ⟨?_, _, h⟩
    rw [PriorityQueue.perform, Held.perform, PriorityQueue.peek, peek_eq_pop]
    cases hpop : q.items.pop with
    | none => rw [h.takeLeast_of_pop_none hpop]; rfl
    | some p =>
      obtain ⟨others, -, -, htake⟩ := h.pop hpop
      rw [htake]
      rfl
  | len => exact ⟨congrArg Answer.counted h.length, _, h⟩

theorem capacity_perform (l : Held) (op : Op) : (l.perform op).1.capacity = l.capacity := by
  cases op with
  | enqueue item =>
    rw [Held.perform]
    split <;> rfl
  | dequeue =>
    rw [Held.perform]
    split <;> rfl
  | peek => rfl
  | len => rfl

/-- A queue answers as a stable priority list of its capacity does; and after every run it holds
what the list holds, at most as many items as its capacity, its `peek` is what `dequeue` returns
next, and an item that it refuses leaves it as it is. -/
theorem run_stable (capacity : Option Nat) (ops : List Op) : ∃ q l answers,
    Machine.run step (new capacity) ops = some (q, answers) ∧ Machine.run Held.step ⟨capacity, []⟩ ops = some (l, answers) ∧
      (q.items.toList.map PrioritizedItem.item).Perm l.items ∧ (∀ cap ∈ capacity, q.items.len ≤ cap) ∧
      q.peek = q.dequeue.1 ∧ ∀ item full, (q.perform (.enqueue item)).2 = .refused full → (q.perform (.enqueue item)).1 = q := by
  have hstep : ∀ q l op, (l.capacity = capacity ∧ ∃ entries, Stands q l entries) →
      Machine.Alike (fun q l => l.capacity = capacity ∧ ∃ entries, Stands q l entries) (step q (id op))
        (Held.step l (id op)) := by
    rintro q l op ⟨hcapacity, entries, h⟩
    obtain ⟨hanswer, h'⟩ := h.perform op
    rw [step, Held.step, id, show q.perform op = ((q.perform op).1,
      (l.perform op).2) from Prod.ext rfl hanswer]
    exact .answer ⟨(capacity_perform l op).trans hcapacity, h'⟩
  have halike := Machine.run_related hstep ⟨rfl, [], stands_new capacity⟩ ops
  obtain ⟨q, answers, hrun⟩ : ∃ q answers, Machine.run step (new capacity) ops = some (q, answers) :=
    Machine.exists_run (fun _ _ => ⟨_, _, rfl⟩) _ _
  rw [List.map_id, hrun] at halike
  generalize Machine.run Held.step ⟨capacity, []⟩ ops = held at halike
  cases halike with
  | answer hstands =>
    obtain ⟨hcapacity, entries, h⟩ := hstands
    refine ⟨q, _, answers, hrun, rfl, h.items ▸ h.perm.map _, fun cap hcap => ?_, peek_eq_dequeue q,
      fun item full hfull => ?_⟩
    · rw [h.length]
      exact h.bounded cap (h.capacity ▸ hcapacity ▸ hcap)
    · rw [perform] at hfull ⊢
      cases henqueue : q.enqueue item with
      | ok q' =>
        rw [henqueue] at hfull
        cases hfull
      | error e => rfl

/-- An item with a priority. -/
def itemOf (n priority : Nat) : QueueItem := ⟨.new ⟨n⟩ ⟨n⟩ 1 .zero [], .zero, priority, none⟩

/-- Two of three items have a place. -/
def filling : List Op := [.enqueue (itemOf 1 5), .enqueue (itemOf 2 5), .enqueue (itemOf 3 0), .dequeue, .enqueue (itemOf 4 1)]

theorem run_stable_filling : ∃ q answers, Machine.run step (new (some 2)) filling = some (q, answers) ∧
    answers = [.enqueued, .enqueued, .refused ⟨2⟩, .dequeued (some (itemOf 1 5)), .enqueued] ∧ q.items.len ≤ 2 ∧
    (q.perform (.enqueue (itemOf 5 0))).1 = q := by
  obtain ⟨q, l, answers, hrun, -, -, hbounded, -, hrefused⟩ := run_stable (some 2) filling
  have hq : Machine.run step (new (some 2)) filling = some (_, _) := rfl
  obtain ⟨rfl, rfl⟩ := Prod.mk.inj (Option.some.inj (hq.symm.trans hrun))
  exact ⟨_, _, hrun, rfl, hbounded 2 rfl, hrefused (itemOf 5 0) ⟨2⟩ rfl⟩

end PriorityQueue

end DesCartes.Service
