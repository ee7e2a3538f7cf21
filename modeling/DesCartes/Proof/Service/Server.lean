import DesCartes.Impl.Service.Server
import DesCartes.Proof.Hosted
import Mathlib.Data.Multiset.Filter
import Mathlib.Data.Multiset.AddSub

/-!
# What becomes of the requests of a server

A `Ledger` says where the requests are that a server has received: processed, rejected, in service
or queued. `Balanced` ties it to the server, to the events that the server has pending and to the
responses that it has scheduled. A queue is known by its items only, in some order (`Queue.items`),
so that both kinds are treated alike.

* `Balanced.startProcessingRequest`, `Balanced.rejectRequest`, `Balanced.completeRequest`,
  `Balanced.processQueuedLoop`: what the functions of the server do to the ledger;
* `run_conservation`: the ledger of any run.
-/

namespace DesCartes.Service

/-! ## Queues -/

namespace Queue

/-- The items of a queue. -/
def items : Queue → List QueueItem
  | fifo queue => queue.items
  | priority queue => queue.items.toList.map PrioritizedItem.item

theorem length_items (q : Queue) : q.items.length = q.len := by
  cases q with
  | fifo queue => rfl
  | priority queue => exact List.length_map ..

theorem items_enqueue {q q' : Queue} {item : QueueItem} (h : q.enqueue item = .ok q') :
    q'.items.Perm (item :: q.items) := by
  cases q with
  | fifo queue =>
    simp only [enqueue, FifoQueue.enqueue] at h
    split at h <;> cases h
    exact List.perm_append_singleton ..
  | priority queue =>
    simp only [enqueue, PriorityQueue.enqueue] at h
    split at h <;> cases h
    exact (BinaryHeap.push_perm _ _).map _

theorem items_dequeue_none {q : Queue} (h : q.dequeue.1 = none) : q.items = [] ∧ q.dequeue.2 = q := by
  cases q with
  | fifo queue =>
    simp only [dequeue, FifoQueue.dequeue] at h ⊢
    split at h
    · rename_i he
      simp [items, he]
    · cases h
  | priority queue =>
    simp only [dequeue, PriorityQueue.dequeue] at h ⊢
    split at h
    · rename_i he
      simp [items, BinaryHeap.pop_eq_none.mp he]
    · cases h

theorem items_dequeue_some {q : Queue} {item : QueueItem} (h : q.dequeue.1 = some item) :
    q.items = item :: q.dequeue.2.items := by
  cases q with
  | fifo queue =>
    simp only [dequeue, FifoQueue.dequeue] at h ⊢
    split at h
    · cases h
    · rename_i he
      cases h
      simp [items, he]
  | priority queue =>
    simp only [dequeue, PriorityQueue.dequeue] at h ⊢
    split at h
    · cases h
    · rename_i he
      cases h
      simp [items, BinaryHeap.pop_eq_some.mp he]

end Queue

/-- A queue that is made with the server. -/
def Queue.Fresh (queue : Queue) : Prop := ∃ capacity, queue = .fifo (.new capacity) ∨ queue = .priority (.new capacity)

/-! ## The ledger -/

/-- A request attempt, and the client that it is from. -/
abbrev Received := RequestAttempt × Uuid

/-- A response and the client that it is for, without its time. -/
abbrev Reply := Uuid × RequestAttemptId × RequestId × List UInt8 × ResponseStatus

/-- The response to a request that was processed. -/
def served (r : Received) : Reply := (r.2, r.1.id, r.1.requestId, r.1.payload, .ok)

/-- The response to a request that was rejected. -/
def refused (r : Received) : Reply := (r.2, r.1.id, r.1.requestId, [], .error 503 "Server overloaded".toList)

/-- The event that completes a request. -/
def completion (r : Received) : Event := .server (.requestCompleted r.1.id r.1.requestId r.2 r.1.payload)

/-- The `RequestCompleted` events. -/
def Event.isCompletion : Event → Bool
  | .server (.requestCompleted ..) => true
  | _ => false

/-- The response that a call of `schedule` sends. -/
def reply? (send : Send Event) : Option Reply :=
  match send.event with
  | .client (.responseReceived r) => some (send.target, r.attemptId, r.requestId, r.payload, r.status)
  | _ => none

/-- The request that an input is. -/
def received? : Event ⊕ Empty → Option Received
  | .inl (.server (.processRequest attempt clientId)) => some (attempt, clientId)
  | _ => none

/-- The requests that a server has received. -/
def requests {κ : Type} (hs : List (Handled κ Event Empty)) : List Received := hs.filterMap fun h => received? h.input

/-- The responses that a server has scheduled. -/
def responses {κ : Type} (hs : List (Handled κ Event Empty)) : List Reply := hs.flatMap fun h => h.sends.filterMap reply?

/-- Where the requests are. -/
structure Ledger where
  processed : Multiset Received
  rejected : Multiset Received
  inService : Multiset Received
  queued : Multiset Received

namespace Server

variable {δ : Type}

/-- The requests in the queue, with their clients. -/
def waiting (s : Server δ) : List (RequestAttempt × Option Uuid) :=
  (s.queue.elim [] Queue.items).map fun item => (item.attempt, item.clientId)

theorem length_waiting (s : Server δ) : s.waiting.length = s.queueDepth := by
  unfold waiting queueDepth
  cases s.queue with
  | none => rfl
  | some queue => simp [Queue.length_items]

/-- The ledger is that of the server, of its pending events and of what it has received and sent. -/
structure Balanced (s : Server δ) (pending : Multiset Event) (received : Multiset Received) (sent : Multiset Reply)
    (l : Ledger) : Prop where
  received : received = l.processed + l.rejected + l.inService + l.queued
  processed : s.requestsProcessed = l.processed.card
  rejected : s.requestsRejected = l.rejected.card
  active : s.activeThreads = l.inService.card
  capacity : s.activeThreads ≤ s.threadCapacity
  queued : (s.waiting : Multiset (RequestAttempt × Option Uuid)) = l.queued.map fun r => (r.1, some r.2)
  pending : pending.filter (fun e => e.isCompletion) = l.inService.map completion
  sent : sent = l.processed.map served + l.rejected.map refused

/-- No request waits while a thread is free, but for the event that is pending then. -/
def Drained (s : Server δ) (pending : Multiset Event) : Prop :=
  s.hasCapacity → s.waiting ≠ [] → .server .processQueuedRequests ∈ pending

variable {s : Server δ} {pending : Multiset Event} {recv : Multiset Received} {sent : Multiset Reply} {l : Ledger}

theorem Balanced.of_filter (h : s.Balanced pending recv sent l) {pending' : Multiset Event}
    (hf : pending'.filter (fun e => e.isCompletion) = pending.filter fun e => e.isCompletion) :
    s.Balanced pending' recv sent l :=
  ⟨h.received, h.processed, h.rejected, h.active, h.capacity, h.queued, hf.trans h.pending, h.sent⟩

/-- Events that complete nothing make no difference. -/
theorem filter_add_of_not_completion {n : List Event} (hnew : ∀ e ∈ n, e.isCompletion = false)
    (pending : Multiset Event) :
    ((n : Multiset Event) + pending).filter (fun e => e.isCompletion) =
      pending.filter fun e => e.isCompletion := by
  have : (n : Multiset Event).filter (fun e => e.isCompletion) = 0 :=
    Multiset.filter_eq_nil.mpr fun e he => by simp [hnew e (Multiset.mem_coe.mp he)]
  rw [Multiset.filter_add, this, Multiset.zero_add]

theorem Balanced.rejectRequest (h : s.Balanced pending recv sent l) (now : SimTime)
    (attempt : RequestAttempt) (clientId : Uuid) :
    (s.rejectRequest now attempt clientId).1.Balanced pending ((attempt, clientId) ::ₘ recv)
      (refused (attempt, clientId) ::ₘ sent)
      { l with rejected := (attempt, clientId) ::ₘ l.rejected } where
  received := by
    rw [h.received]
    simp only [Multiset.cons_add, Multiset.add_cons]
  processed := h.processed
  rejected := by
    rw [Multiset.card_cons]
    exact congrArg (· + 1) h.rejected
  active := h.active
  capacity := h.capacity
  queued := h.queued
  pending := h.pending
  sent := by
    rw [h.sent, Multiset.map_cons]
    simp only [Multiset.add_cons]

theorem Balanced.enqueue (h : s.Balanced pending recv sent l) {queue queue' : Queue}
    (hq : s.queue = some queue) (now : SimTime) {attempt : RequestAttempt} {clientId : Uuid}
    (he : queue.enqueue (.withClientId attempt now clientId) = .ok queue') (n : Nat) :
    { s with queue := some queue', requestsQueued := n }.Balanced pending ((attempt, clientId) ::ₘ recv) sent
      { l with queued := (attempt, clientId) ::ₘ l.queued } where
  received := by
    rw [h.received]
    simp only [Multiset.add_cons]
  processed := h.processed
  rejected := h.rejected
  active := h.active
  capacity := h.capacity
  queued := by
    rw [Multiset.map_cons, ← h.queued, waiting, waiting, hq]
    exact Multiset.coe_eq_coe.mpr ((Queue.items_enqueue he).map _)
  pending := h.pending
  sent := h.sent

/-- A request that is processed again leaves the ledger of those in service. -/
theorem Balanced.completeRequest (h : s.Balanced pending recv sent l) {e : Event}
    (he : e.isCompletion) {p : Multiset Event} (hp : pending = e ::ₘ p) :
    ∃ r inService, l.inService = r ::ₘ inService ∧ e = completion r ∧
      { s with activeThreads := s.activeThreads - 1, requestsProcessed := s.requestsProcessed + 1 }.Balanced p recv (served r ::ₘ sent)
        { l with processed := r ::ₘ l.processed, inService } := by
  have hpending := h.pending
  have hcons : (e ::ₘ p).filter (fun e => e.isCompletion) = e ::ₘ p.filter fun e => e.isCompletion :=
    Multiset.filter_cons_of_pos _ he
  rw [hp, hcons] at hpending
  obtain ⟨r, hr, hre⟩ := Multiset.mem_map.mp (hpending ▸ Multiset.mem_cons_self e _)
  obtain ⟨inService, hin⟩ := Multiset.exists_cons_of_mem hr
  rw [hin, Multiset.map_cons, ← hre, Multiset.cons_inj_right] at hpending
  have hactive := h.active
  rw [hin, Multiset.card_cons] at hactive
  refine ⟨r, inService, hin, hre.symm, ?_, ?_, h.rejected, ?_, (Nat.sub_le ..).trans h.capacity,
    h.queued, hpending, ?_⟩
  · rw [h.received, hin]
    simp only [Multiset.cons_add, Multiset.add_cons]
  · rw [Multiset.card_cons]
    exact congrArg (· + 1) h.processed
  · show s.activeThreads - 1 = _
    rw [hactive, Nat.add_sub_cancel]
  · rw [h.sent, Multiset.map_cons]
    simp only [Multiset.cons_add]

/-- The item that comes next is of a request of the queue; it leaves the ledger until it is started. -/
theorem Balanced.dequeue (h : s.Balanced pending recv sent l) {queue : Queue}
    (hq : s.queue = some queue) {item : QueueItem} (hitem : queue.dequeue.1 = some item) :
    ∃ r queued, l.queued = r ::ₘ queued ∧ item.attempt = r.1 ∧ item.clientId = some r.2 ∧
      { s with queue := some queue.dequeue.2 }.Balanced pending
        (l.processed + l.rejected + l.inService + queued) sent
        { l with queued } := by
  have hqueued := h.queued
  rw [waiting, hq, Option.elim_some, Queue.items_dequeue_some hitem, List.map_cons,
    ← Multiset.cons_coe] at hqueued
  obtain ⟨r, hr, hre⟩ := Multiset.mem_map.mp (hqueued ▸ Multiset.mem_cons_self _ _)
  obtain ⟨queued, hcons⟩ := Multiset.exists_cons_of_mem hr
  rw [hcons, Multiset.map_cons, ← hre, Multiset.cons_inj_right] at hqueued
  obtain ⟨h₁, h₂⟩ := Prod.mk.inj hre
  exact ⟨r, queued, hcons, h₁.symm, h₂.symm, rfl, h.processed, h.rejected, h.active, h.capacity,
    hqueued, h.pending, h.sent⟩

/-- More events are pending, none of which completes a request. -/
theorem Drained.append {pending' : Multiset Event} (h : s.Drained pending') (new : List Event) :
    s.Drained (new + pending') :=
  fun hc hw => Multiset.mem_add.mpr (.inr (h hc hw))

/-- The event that is processed is not one that completes a request, nor the one that `Drained` is about. -/
theorem Drained.of_cons {e : Event} {pending : List Event} (h : s.Drained ↑(e :: pending))
    (he : e ≠ .server .processQueuedRequests) : s.Drained pending := by
  intro hc hw
  exact (List.mem_cons.mp (Multiset.mem_coe.mp (h hc hw))).resolve_left he.symm

theorem Balanced.of_cons {e : Event} {pending : List Event}
    (hb : s.Balanced ↑(e :: pending) recv sent l) (he : e.isCompletion = false) :
    s.Balanced pending recv sent l :=
  hb.of_filter (filter_add_of_not_completion (n := [e]) (by simpa using he) pending).symm

/-! ## Runs -/

/-- What holds of a server, its pending events and its history. -/
def Kept (s : Server δ) (pending : List Event) (hs : List (Handled (Server δ) Event Empty)) : Prop :=
  (∃ l, s.Balanced pending (requests hs) (responses hs) l) ∧ s.Drained pending

theorem requests_append (hs : List (Handled (Server δ) Event Empty)) (h : Handled (Server δ) Event Empty) :
    (requests (hs ++ [h]) : Multiset Received) = (received? h.input).toList + requests hs := by
  unfold requests
  rw [List.filterMap_append, Multiset.coe_add, Multiset.coe_eq_coe]
  refine List.perm_append_comm.trans ?_
  cases hr : received? h.input <;> simp [hr]

theorem responses_append (hs : List (Handled (Server δ) Event Empty)) (h : Handled (Server δ) Event Empty) :
    (responses (hs ++ [h]) : Multiset Reply) = h.sends.filterMap reply? + responses hs := by
  unfold responses
  rw [List.flatMap_append, List.flatMap_singleton, Multiset.coe_add, Multiset.coe_eq_coe]
  exact List.perm_append_comm

variable {self : Uuid} {pending : List Event} {hs : List (Handled (Server δ) Event Empty)} {now : SimTime} {before after : Server δ}

/-- What is sent to clients completes no request. -/
theorem sends_not_completion {sends : List (Send Event)}
    (hsends : ∀ send ∈ sends, send.event.isCompletion = false) :
    ∀ e ∈ sends.filterMap (Send.eventFor self), e.isCompletion = false := by
  intro e he
  obtain ⟨send, hsend, he⟩ := List.mem_filterMap.mp he
  simp only [Send.eventFor, Option.ite_none_right_eq_some, Option.some.injEq] at he
  exact he.2 ▸ hsends send hsend

/-- A request is rejected. -/
theorem Balanced.kept_reject (hb : s.Balanced pending (requests hs) (responses hs) l) (hd : s.Drained pending)
    (attempt : RequestAttempt) (clientId : Uuid) :
    (s.rejectRequest now attempt clientId).1.Kept
      ([(s.rejectRequest now attempt clientId).2].filterMap (Send.eventFor self) ++ pending)
      (hs ++ [⟨before, .inl (.server (.processRequest attempt clientId)), now, after,
        [(s.rejectRequest now attempt clientId).2]⟩]) := by
  unfold Kept
  rw [requests_append, responses_append, ← Multiset.coe_add]
  refine ⟨⟨_, (hb.rejectRequest now attempt clientId).of_filter (filter_add_of_not_completion ?_ _)⟩, ?_⟩
  · exact sends_not_completion (List.forall_mem_singleton.mpr rfl)
  · exact Drained.append (s := (s.rejectRequest now attempt clientId).1) hd _

theorem Kept.completeRequest {attemptId : RequestAttemptId} {requestId : RequestId}
    {clientId : Uuid} {payload : List UInt8}
    (h : s.Kept (.server (.requestCompleted attemptId requestId clientId payload) :: pending) hs) :
    (s.completeRequest self now attemptId requestId clientId payload).1.Kept
      ((s.completeRequest self now attemptId requestId clientId payload).2.filterMap
        (Send.eventFor self) ++ pending)
      (hs ++ [⟨before, .inl (.server (.requestCompleted attemptId requestId clientId payload)), now, after,
        (s.completeRequest self now attemptId requestId clientId payload).2⟩]) := by
  obtain ⟨⟨l, hb⟩, -⟩ := h
  obtain ⟨r, inService, -, hr, hb'⟩ := hb.completeRequest
    (e := .server (.requestCompleted attemptId requestId clientId payload))
    rfl (p := pending) rfl
  simp only [completion, Event.server.injEq, ServerEvent.requestCompleted.injEq] at hr
  obtain ⟨rfl, rfl, rfl, rfl⟩ := hr
  unfold Kept
  rw [requests_append, responses_append, ← Multiset.coe_add]
  simp only [Server.completeRequest]
  split
  · refine ⟨⟨_, hb'.of_filter (filter_add_of_not_completion (sends_not_completion ?_) _)⟩,
      fun _ _ => Multiset.mem_add.mpr (.inl ?_)⟩
    · exact List.forall_mem_cons.mpr ⟨rfl, List.forall_mem_singleton.mpr rfl⟩
    · refine Multiset.mem_coe.mpr (List.mem_filterMap.mpr ⟨_, List.mem_cons_of_mem _ List.mem_cons_self, ?_⟩)
      simp [Send.eventFor]
  · rename_i hc
    refine ⟨⟨_, hb'.of_filter (filter_add_of_not_completion
      (sends_not_completion (List.forall_mem_singleton.mpr rfl)) _)⟩, fun hc' hw => ?_⟩
    -- the queue is empty, or the event would have been scheduled
    refine absurd ?_ hc
    rw [Bool.and_eq_true, decide_eq_true_eq, ← length_waiting]
    exact ⟨hc', List.length_pos_iff.mpr hw⟩

/-! ## With service times -/

variable [ServiceTimeDistribution δ]

theorem Balanced.startProcessingRequest (h : s.Balanced pending recv sent l) (hc : s.hasCapacity)
    (self : Uuid) (attempt : RequestAttempt) (clientId : Uuid) :
    (s.startProcessingRequest self attempt clientId).1.Balanced (completion (attempt, clientId) ::ₘ pending)
      ((attempt, clientId) ::ₘ recv) sent { l with inService := (attempt, clientId) ::ₘ l.inService } where
  received := by
    rw [h.received]
    simp only [Multiset.cons_add, Multiset.add_cons]
  processed := h.processed
  rejected := h.rejected
  active := by
    rw [Multiset.card_cons]
    exact congrArg (· + 1) h.active
  capacity := of_decide_eq_true hc
  queued := h.queued
  pending := by
    rw [Multiset.filter_cons_of_pos _ (by rfl), h.pending, Multiset.map_cons]
  sent := h.sent

/-- The loop starts requests of the queue until there are no more of them or no thread is free. -/
theorem Balanced.processQueuedLoop (self : Uuid) {n : Nat} (hn : s.waiting.length ≤ n)
    (h : s.Balanced pending recv sent l) :
    ∃ l', (s.processQueuedLoop self n).1.Balanced
        (((s.processQueuedLoop self n).2.filterMap
          (Send.eventFor self) : List Event) + pending) recv sent l' ∧
      ((s.processQueuedLoop self n).1.hasCapacity → (s.processQueuedLoop self n).1.waiting = []) ∧
      (s.processQueuedLoop self n).2.filterMap reply? = [] := by
  induction n generalizing s pending l with
  | zero =>
    refine ⟨l, ?_, fun _ => List.length_eq_zero_iff.mp (Nat.le_zero.mp hn), rfl⟩
    simpa [Server.processQueuedLoop] using h
  | succ n ih =>
    simp only [Server.processQueuedLoop]
    split
    · rename_i hc
      split
      · rename_i hq
        refine ⟨l, by simpa using h, fun _ => ?_, rfl⟩
        simp [waiting, hq]
      · rename_i queue hq
        split
        · rename_i queue' hd
          obtain ⟨hitems, hsame⟩ := Queue.items_dequeue_none (congrArg Prod.fst hd)
          have hs : { s with queue := some queue' } = s := by
            rw [show queue' = queue from (congrArg Prod.snd hd).symm.trans hsame, ← hq]
          rw [hs]
          refine ⟨l, by simpa using h, fun _ => ?_, rfl⟩
          simp [waiting, hq, hitems]
        · rename_i item queue' hd
          have hitem : queue.dequeue.1 = some item := congrArg Prod.fst hd
          obtain rfl : queue.dequeue.2 = queue' := congrArg Prod.snd hd
          obtain ⟨r, queued, hcons, hattempt, hclient, hb⟩ := h.dequeue hq hitem
          have hstart := hb.startProcessingRequest hc self r.1 r.2
          have hrecv : r ::ₘ (l.processed + l.rejected + l.inService + queued) = recv := by
            rw [h.received, hcons]
            simp only [Multiset.add_cons]
          rw [hrecv] at hstart
          rw [hattempt, hclient, Option.getD_some]
          have hlen : ({ s with queue := some queue.dequeue.2 } : Server δ).waiting.length ≤ n := by
            rw [waiting, hq, Option.elim_some, Queue.items_dequeue_some hitem] at hn
            simpa [waiting] using hn
          obtain ⟨l', hl', hempty, hreply⟩ :=
            ih (s := ({ s with queue := some queue.dequeue.2 }.startProcessingRequest self r.1 r.2).1)
            hlen hstart
          refine ⟨l', ?_, hempty, ?_⟩
          · have hself :
                Send.eventFor self ({ s with queue := some queue.dequeue.2 }.startProcessingRequest self r.1 r.2).2 =
                some (completion r) := by simp [Server.startProcessingRequest, Send.eventFor, completion]
            rw [List.filterMap_cons, hself]
            simp only [← Multiset.cons_coe, Multiset.cons_add]
            rw [← Multiset.add_cons]
            exact hl'
          · rw [List.filterMap_cons]
            exact hreply
    · rename_i hc
      refine ⟨l, by simpa using h, fun hc' => absurd hc' hc, rfl⟩

theorem Kept.handleRequest {attempt : RequestAttempt} {clientId : Uuid}
    (h : s.Kept (.server (.processRequest attempt clientId) :: pending) hs) :
    (s.handleRequest self now attempt clientId).1.Kept
      ((s.handleRequest self now attempt clientId).2.filterMap (Send.eventFor self) ++ pending)
      (hs ++ [⟨before, .inl (.server (.processRequest attempt clientId)), now, after,
        (s.handleRequest self now attempt clientId).2⟩]) := by
  obtain ⟨⟨l, hb⟩, hd⟩ := h
  replace hb := hb.of_cons rfl
  replace hd := hd.of_cons (by simp)
  unfold Server.handleRequest
  by_cases hc : s.hasCapacity
  · rw [if_pos hc]
    have hself : Send.eventFor self (s.startProcessingRequest self attempt clientId).2 = some
        (completion (attempt, clientId)) := by
      simp [Server.startProcessingRequest, Send.eventFor, completion]
    unfold Kept
    rw [requests_append, responses_append, ← Multiset.coe_add]
    simp only [List.filterMap_cons, hself, List.filterMap_nil]
    refine ⟨⟨_, hb.startProcessingRequest hc self attempt clientId⟩, ?_⟩
    -- a thread that is free now was free before
    exact Drained.append (s := (s.startProcessingRequest self attempt clientId).1) (fun _ hw => hd hc hw) [_]
  · rw [if_neg hc]
    split
    · exact hb.kept_reject hd attempt clientId
    · rename_i queue hq
      split
      · rename_i queue' he
        unfold Kept
        rw [requests_append, responses_append, ← Multiset.coe_add]
        exact ⟨⟨_, hb.enqueue hq now he _⟩, fun hc' => absurd hc' hc⟩
      · exact hb.kept_reject hd attempt clientId

theorem Kept.processQueuedRequests (h : s.Kept (.server .processQueuedRequests :: pending) hs) :
    (s.processQueuedRequests self).1.Kept ((s.processQueuedRequests self).2.filterMap
      (Send.eventFor self) ++ pending)
      (hs ++ [⟨before, .inl (.server .processQueuedRequests), now, after,
        (s.processQueuedRequests self).2⟩]) := by
  obtain ⟨⟨l, hb⟩, -⟩ := h
  obtain ⟨l', hb', hempty, hreply⟩ := (hb.of_cons rfl).processQueuedLoop self
    (n := s.queueDepth) s.length_waiting.le
  unfold Kept
  rw [requests_append, responses_append, ← Multiset.coe_add]
  refine ⟨⟨l', ?_⟩, fun hc hw => absurd (hempty hc) hw⟩
  simp only [Server.processQueuedRequests, hreply]
  exact hb'

/-- Every event that the server processes keeps a ledger. -/
theorem Kept.processEvent {e : Event} {s' : Server δ} {sends : List (Send Event)}
    (h : s.Kept (e :: pending) hs) (hp : code.processEvent s self e now = some (s', sends)) :
    s'.Kept (sends.filterMap (Send.eventFor self) ++ pending)
      (hs ++ [⟨before, .inl e, now, after, sends⟩]) := by
  rcases e with (⟨attempt, clientId⟩ | ⟨attemptId, requestId, clientId, payload⟩ | _) | e
  · obtain ⟨rfl, rfl⟩ := Prod.ext_iff.mp (Option.some.inj hp)
    exact h.handleRequest
  · obtain ⟨rfl, rfl⟩ := Prod.ext_iff.mp (Option.some.inj hp)
    exact h.completeRequest
  · obtain ⟨rfl, rfl⟩ := Prod.ext_iff.mp (Option.some.inj hp)
    exact h.processQueuedRequests
  · cases hp

theorem threadCapacity_processQueuedLoop (n : Nat) (s : Server δ) :
    (s.processQueuedLoop self n).1.threadCapacity = s.threadCapacity := by
  induction n generalizing s with
  | zero => rfl
  | succ n ih =>
    simp only [processQueuedLoop]
    split
    · split
      · rfl
      · split
        · rfl
        · exact ih _
    · rfl

theorem threadCapacity_processEvent {e : Event} {s' : Server δ} {sends : List (Send Event)}
    (hp : code.processEvent s self e now = some (s', sends)) : s'.threadCapacity = s.threadCapacity := by
  rcases e with (⟨attempt, clientId⟩ | ⟨attemptId, requestId, clientId, payload⟩ | _) | e
  · obtain ⟨rfl, rfl⟩ := Prod.ext_iff.mp (Option.some.inj hp)
    simp only [Server.handleRequest]
    split
    · rfl
    · split
      · rfl
      · split <;> rfl
  · obtain ⟨rfl, rfl⟩ := Prod.ext_iff.mp (Option.some.inj hp)
    rfl
  · obtain ⟨rfl, rfl⟩ := Prod.ext_iff.mp (Option.some.inj hp)
    exact threadCapacity_processQueuedLoop ..
  · cases hp

omit [ServiceTimeDistribution δ] in
theorem kept_new (threadCapacity : Nat) (d : δ) {queue : Option Queue} (hq : ∀ q ∈ queue, q.Fresh) :
    (Server.new threadCapacity d queue).Kept [] [] := by
  have hwaiting : (Server.new threadCapacity d queue).waiting = [] := by
    rcases queue with _ | q
    · rfl
    · obtain ⟨capacity, rfl | rfl⟩ := hq q rfl <;> rfl
  refine ⟨⟨⟨0, 0, 0, 0⟩, ?_⟩, fun _ hw => absurd hwaiting hw⟩
  exact ⟨rfl, rfl, rfl, rfl, Nat.zero_le _, by rw [hwaiting]; rfl, rfl, rfl⟩

/-- What has been received by a server that is only sent requests, in any run: no more requests are
in service than there are threads, each of them with the event that completes it; the others are
processed, rejected or queued; a response has been scheduled for each that is processed or rejected,
to its client, and for no other; and while a thread is free and the queue is not empty, the event
that drains it is pending. -/
theorem run_conservation {τ ρ φ : Type} [EventFrontierPolicy φ] (self : Uuid) (threadCapacity : Nat) (d : δ)
    {queue : Option Queue} (hq : ∀ q ∈ queue, q.Fresh) (seed : BitVec 64) {ops : List (Hosted.Op Event τ ρ φ Empty)}
    (hops : ∀ delay e, .other (.schedule delay self e) ∈ ops → ∃ attempt clientId, e = .server (.processRequest attempt clientId))
    {h : Hosted (Server δ) Event τ ρ} {answers : List (Hosted.Answer (Server δ) Event Empty)}
    (hrun : Machine.run (Hosted.step code self) ⟨.new threadCapacity d queue, .fresh seed⟩ ops = some (h, answers)) :
    h.component.activeThreads ≤ threadCapacity ∧
    h.component.activeThreads = (h.session.inbox self).countP Event.isCompletion ∧
    (requests (Hosted.history answers)).length =
      h.component.requestsProcessed + h.component.requestsRejected + h.component.activeThreads + h.component.queueDepth ∧
    (∃ processed rejected unanswered : Multiset Received,
      (requests (Hosted.history answers) : Multiset Received) = processed + rejected + unanswered ∧
      processed.card = h.component.requestsProcessed ∧ rejected.card = h.component.requestsRejected ∧
      (responses (Hosted.history answers) : Multiset Reply) = processed.map served + rejected.map refused) ∧
    (h.component.hasCapacity → 0 < h.component.queueDepth → .server .processQueuedRequests ∈ h.session.inbox self) := by
  have hkept := Hosted.run_rule (P := fun s l hs => s.Kept l hs ∧ s.threadCapacity = threadCapacity)
    (I := fun e => ∃ attempt clientId, e = .server (.processRequest attempt clientId)) (A := fun _ => True)
    (fun s l l' hs hl hs' => ?_) (fun s l hs e he hs' => ?_) (fun s l hs e now s' sends hp _ hs' => ?_)
    (fun s l hs m _ _ _ _ _ _ _ => m.elim) hops (fun m => m.elim) (Session.wf_fresh seed)
    ⟨kept_new threadCapacity d hq, rfl⟩ hrun
  · obtain ⟨⟨⟨l, hb⟩, hdrained⟩, hcapacity⟩ := hkept
    have hqueued : l.queued.card = h.component.queueDepth := by
      rw [← length_waiting, ← Multiset.coe_card, hb.queued, Multiset.card_map]
    refine ⟨hcapacity ▸ hb.capacity, ?_, ?_,
      ⟨l.processed, l.rejected, l.inService + l.queued, ?_, hb.processed.symm,
      hb.rejected.symm, hb.sent⟩, fun hc hd => hdrained hc ?_⟩
    · have hpending := congrArg Multiset.card hb.pending
      rw [Multiset.card_map, ← hb.active, Multiset.filter_coe, Multiset.coe_card] at hpending
      rw [← hpending, List.countP_eq_length_filter]
      simp only [Bool.decide_eq_true]
    · rw [← Multiset.coe_card, hb.received, Multiset.card_add, Multiset.card_add, Multiset.card_add,
        hb.processed, hb.rejected,
        hb.active, hqueued]
    · rw [hb.received, Multiset.add_assoc]
    · exact List.length_pos_iff.mp (length_waiting h.component ▸ hd)
  · rwa [Kept, ← Multiset.coe_eq_coe.mpr hl]
  · obtain ⟨attempt, clientId, rfl⟩ := he
    obtain ⟨⟨⟨l', hb⟩, hd⟩, hcapacity⟩ := hs'
    exact ⟨⟨⟨l', hb.of_filter (filter_add_of_not_completion (n := [_]) (by simp [Event.isCompletion]) l)⟩,
      Drained.append hd [_]⟩, hcapacity⟩
  · exact ⟨hs'.1.processEvent hp, (threadCapacity_processEvent hp).trans hs'.2⟩

/-- Three requests of clients at one time, for a server with one thread and room for one request. -/
def threeRequests : List (Hosted.Op Event Unit Unit FifoFrontierPolicy Empty) :=
  let request (n : Nat) (clientId : Uuid) : Event := .server (.processRequest (.new ⟨n⟩ ⟨n⟩ 1 .zero []) clientId)
  [.other (.schedule .zero 7 (request 1 1)), .other (.schedule .zero 7 (request 2 2)), .other (.schedule .zero 7 (request 3 3)),
    .other .pop, .other .pop, .other .pop, .other .pop]

/-- One is completed, one is queued with the event that drains the queue pending, and one is rejected. -/
theorem run_conservation_threeRequests : ∃ (h : Hosted (Server ConstantServiceTime) Event Unit Unit) (answers : _),
    Machine.run (Hosted.step code 7) ⟨.new 1 ⟨5⟩ (some (.fifo (.new (some 1)))), .fresh 0⟩ threeRequests = some (h, answers) ∧
    (h.component.requestsProcessed, h.component.requestsRejected, h.component.activeThreads,
      h.component.queueDepth) = (1, 1, 0, 1) ∧
    (h.component.hasCapacity → 0 < h.component.queueDepth → .server .processQueuedRequests ∈ h.session.inbox 7) := by
  have hops : ∀ delay e, .other (.schedule delay 7 e) ∈ threeRequests →
      ∃ attempt clientId, e = .server (.processRequest attempt clientId) := by
    intro delay e he
    simp only [threeRequests, List.mem_cons, Hosted.Op.other.injEq, Op.schedule.injEq, reduceCtorEq,
      List.not_mem_nil, or_false] at he
    rcases he with ⟨-, -, rfl⟩ | ⟨-, -, rfl⟩ | ⟨-, -, rfl⟩ <;> exact ⟨_, _, rfl⟩
  exact ⟨_, _, rfl, rfl, (run_conservation 7 1 ⟨5⟩
    (fun q hq => ⟨some 1, .inl (Option.some.inj hq).symm⟩) 0 hops rfl).2.2.2.2⟩

end Server

end DesCartes.Service
