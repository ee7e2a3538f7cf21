import DesCartes.Proof.Service.Server

/-!
# The order in which a server starts its requests

The requests that a server receives are numbered, and `progress` follows the numbers through its
history: which requests have been accepted, which of them wait in the queue and which have been
started. `Followed` ties the numbers to the queue and to the events that complete the requests. A
request overtakes those that wait where it finds a free thread: between the end of a request and the
event that drains the queue.

* `fifo_processQueuedLoop`: the loop takes the queue from its front;
* `Followed.processEvent`: an event;
* `run_inOrder_iff`: any run.
-/

namespace DesCartes.Service

/-- What becomes of a request when it is processed. -/
inductive Fate where
  | starts
  | waits
  | rejected
deriving DecidableEq

/-- The requests of a history, by their numbers. -/
structure Progress where
  arrived : Nat
  accepted : List Nat
  waiting : List Nat
  started : List Nat

section
variable {κ : Type}

/-- A request that waits sends nothing yet. -/
def fate (h : Handled κ Event Empty) : Fate :=
  if h.sends = [] then .waits else if h.sends.any (·.event.isCompletion) then .starts else .rejected

/-- What the server has done with an event. Requests are taken from the front of the queue. -/
def Progress.handle (p : Progress) (h : Handled κ Event Empty) : Progress :=
  match received? h.input with
  | some _ =>
    match fate h with
    | .starts => { p with arrived := p.arrived + 1, accepted := p.accepted ++ [p.arrived], started := p.started ++ [p.arrived] }
    | .waits => { p with arrived := p.arrived + 1, accepted := p.accepted ++ [p.arrived], waiting := p.waiting ++ [p.arrived] }
    | .rejected => { p with arrived := p.arrived + 1 }
  | none =>
    let n := h.sends.countP (·.event.isCompletion)
    { p with waiting := p.waiting.drop n, started := p.started ++ p.waiting.take n }

def progress (hs : List (Handled κ Event Empty)) : Progress := hs.foldl Progress.handle ⟨0, [], [], []⟩

/-- The events that complete the requests that have been started. -/
def completions (hs : List (Handled κ Event Empty)) : List Event :=
  hs.flatMap fun h => (h.sends.map (·.event)).filter Event.isCompletion

/-- The requests that are accepted are started in the order in which they have been received: no one
is left out. -/
def InOrder (hs : List (Handled κ Event Empty)) : Prop := (progress hs).started <+: (progress hs).accepted

instance (hs : List (Handled κ Event Empty)) : Decidable (InOrder hs) := inferInstanceAs (Decidable (_ <+: _))

theorem progress_snoc {hs : List (Handled κ Event Empty)} {h : Handled κ Event Empty} :
    progress (hs ++ [h]) = (progress hs).handle h := by
  rw [progress, List.foldl_append]
  rfl

theorem completions_snoc {hs : List (Handled κ Event Empty)} {h : Handled κ Event Empty} :
    completions (hs ++ [h]) = completions hs ++ (h.sends.map (·.event)).filter Event.isCompletion := by
  rw [completions, List.flatMap_append, List.flatMap_singleton]
  rfl

theorem requests_snoc {hs : List (Handled κ Event Empty)} {h : Handled κ Event Empty} :
    requests (hs ++ [h]) = requests hs ++ (received? h.input).toList := by
  rw [requests, List.filterMap_append]
  cases hr : received? h.input <;> simp [hr, requests]

end

namespace Server

variable {δ : Type} {s : Server δ} {self : Uuid} {hs : List (Handled (Server δ) Event Empty)}

/-- No request is received while there is a free thread and a request that waits. -/
def Courteous (h : Handled (Server δ) Event Empty) : Prop :=
  (received? h.input).isSome → ¬(h.before.hasCapacity = true ∧ 0 < h.before.queueDepth)

instance (h : Handled (Server δ) Event Empty) : Decidable (Courteous h) := inferInstanceAs (Decidable (_ → ¬_))

/-- The numbers are those of the queue and of the events that complete the requests. -/
structure Followed (s : Server δ) (hs : List (Handled (Server δ) Event Empty)) : Prop where
  fifo : ∃ queue, s.queue = some (.fifo queue)
  arrived : (progress hs).arrived = (requests hs).length
  waiting : s.waiting.map some = (progress hs).waiting.map fun i => (requests hs)[i]?.map fun r => (r.1, some r.2)
  completions : (completions hs).map some = (progress hs).started.map fun i => (requests hs)[i]?.map completion
  started : ∀ i ∈ (progress hs).started, i < (requests hs).length
  queued : ∀ i ∈ (progress hs).waiting, i < (requests hs).length
  length : (progress hs).started.length + (progress hs).waiting.length = (progress hs).accepted.length
  inOrder : (∀ h ∈ hs, Courteous h) → (progress hs).accepted = (progress hs).started ++ (progress hs).waiting
  overtaken : ¬(∀ h ∈ hs, Courteous h) → ¬InOrder hs

/-! ## The numbers -/

/-- What is added to a history leaves the numbers of the requests alone. -/
theorem map_requests_snoc {α : Type} (f : Received → α) {l : List Nat}
    (hl : ∀ i ∈ l, i < (requests hs).length) (h : Handled (Server δ) Event Empty) :
    (l.map fun i => (requests (hs ++ [h]))[i]?.map f) = l.map fun i => (requests hs)[i]?.map f := by
  refine List.map_congr_left fun i hi => ?_
  rw [requests_snoc, List.getElem?_append_left (hl i hi)]

theorem lt_requests_snoc {l : List Nat} (hl : ∀ i ∈ l, i < (requests hs).length)
    (h : Handled (Server δ) Event Empty) :
    ∀ i ∈ l, i < (requests (hs ++ [h])).length := by
  intro i hi
  rw [requests_snoc, List.length_append]
  exact (hl i hi).trans_le (Nat.le_add_right _ _)

theorem progress_grows (p : Progress) (h : Handled (Server δ) Event Empty) :
    p.started <+: (p.handle h).started ∧ p.accepted <+: (p.handle h).accepted := by
  unfold Progress.handle
  split
  · split
    · exact ⟨List.prefix_append _ _, List.prefix_append _ _⟩
    · exact ⟨List.prefix_rfl, List.prefix_append _ _⟩
    · exact ⟨List.prefix_rfl, List.prefix_rfl⟩
  · exact ⟨List.prefix_append _ _, List.prefix_rfl⟩

/-- A request that has been overtaken stays so. -/
theorem not_inOrder_snoc (h : Handled (Server δ) Event Empty)
    (hlength : (progress hs).started.length ≤ (progress hs).accepted.length) (hnot : ¬InOrder hs) :
    ¬InOrder (hs ++ [h]) := by
  intro horder
  rw [InOrder, progress_snoc] at horder
  obtain ⟨hstarted, haccepted⟩ := progress_grows (progress hs) h
  exact hnot (List.prefix_of_prefix_length_le (hstarted.trans horder) haccepted hlength)

theorem Followed.le (h : s.Followed hs) : (progress hs).started.length ≤ (progress hs).accepted.length :=
  h.length ▸ Nat.le_add_right _ _

theorem Followed.waiting_eq_nil (h : s.Followed hs) : (progress hs).waiting = [] ↔ s.queueDepth = 0 := by
  have := congrArg List.length h.waiting
  rw [List.length_map, List.length_map, length_waiting] at this
  rw [this, List.length_eq_zero_iff]

theorem forall_courteous_snoc {h : Handled (Server δ) Event Empty} :
    (∀ x ∈ hs ++ [h], Courteous x) ↔ (∀ x ∈ hs, Courteous x) ∧ Courteous h := by
  rw [List.forall_mem_append, List.forall_mem_singleton]

theorem courteous_of_busy {h : Handled (Server δ) Event Empty}
    (hbusy : h.before.hasCapacity = false) : Courteous h := by
  rintro - ⟨hfree, -⟩
  exact absurd (hbusy.symm.trans hfree) Bool.false_ne_true

theorem Followed.overtaken_snoc (h : s.Followed hs) {x : Handled (Server δ) Event Empty} (hx : Courteous x) :
    ¬(∀ y ∈ hs ++ [x], Courteous y) → ¬InOrder (hs ++ [x]) := by
  rw [forall_courteous_snoc, not_and_or]
  rintro (hnot | hnot)
  · exact not_inOrder_snoc _ h.le (h.overtaken hnot)
  · exact absurd hx hnot

/-- The number of the request that is received next. -/
theorem Followed.arrived_lt (h : s.Followed hs) {x : Handled (Server δ) Event Empty} {r : Received}
    (hx : received? x.input = some r) :
    (progress hs).arrived < (requests (hs ++ [x])).length := by
  rw [requests_snoc, hx, h.arrived, List.length_append]
  exact Nat.lt_succ_self _

theorem followed_new (threadCapacity : Nat) (d : δ) (capacity : Option Nat) :
    (Server.new threadCapacity d (some (.fifo (.new capacity)))).Followed [] :=
  ⟨⟨_, rfl⟩, rfl, rfl, rfl, nofun, nofun, rfl, fun _ => rfl, fun h => absurd (fun _ => nofun) h⟩

/-! ## What an event does -/

variable {now : SimTime} {s' : Server δ}

/-- The event is about no request that is received, and the first requests of the queue are started. -/
theorem Followed.drains (h : s.Followed hs) {input : Event} (hinput : received? (.inl input) = none)
    {sends : List (Send Event)} {n : Nat} (hn : n ≤ s.waiting.length)
    (hfifo : ∃ queue, s'.queue = some (.fifo queue)) (hwaiting : s'.waiting = s.waiting.drop n)
    (hsends : (sends.map (·.event)).filter Event.isCompletion =
      (s.waiting.take n).map fun w => completion (w.1, w.2.getD 0)) :
    s'.Followed (hs ++ [⟨s, .inl input, now, s', sends⟩]) := by
  have hcount : sends.countP (·.event.isCompletion) = n := by
    have := congrArg List.length hsends
    rw [List.length_map, List.length_take, Nat.min_eq_left hn] at this
    rw [List.countP_eq_length_filter, ← this, List.filter_map, List.length_map]
    rfl
  have hprogress : progress (hs ++ [⟨s, .inl input, now, s', sends⟩]) = { progress hs with
      waiting := (progress hs).waiting.drop n, started :=
      (progress hs).started ++ (progress hs).waiting.take n } := by
    rw [progress_snoc, Progress.handle]
    simp only [hinput, hcount]
  have hrequests : requests (hs ++ [⟨s, .inl input, now, s', sends⟩]) = requests hs := by
    rw [requests_snoc]
    simp only [hinput, Option.toList_none, List.append_nil]
  refine ⟨hfifo, ?_, ?_, ?_, ?_, ?_, ?_, ?_, ?_⟩
  · rw [hprogress, hrequests]
    exact h.arrived
  · rw [hprogress, hrequests, hwaiting, List.map_drop, h.waiting, List.map_drop]
  · rw [hprogress, hrequests, completions_snoc, List.map_append, h.completions, hsends, List.map_append]
    congr 1
    have hfront := congrArg (fun l =>
      (l.map (Option.map fun w => completion (w.1, w.2.getD 0))).take n) h.waiting
    simp only [List.map_map, ← List.map_take] at hfront
    rw [List.map_map]
    refine hfront.trans (List.map_congr_left fun i _ => ?_)
    rw [Function.comp_apply, Option.map_map]
    rfl
  · rw [hprogress, hrequests]
    exact List.forall_mem_append.mpr ⟨h.started, fun i hi => h.queued i (List.mem_of_mem_take hi)⟩
  · rw [hprogress, hrequests]
    exact fun i hi => h.queued i (List.mem_of_mem_drop hi)
  · rw [hprogress]
    simp only [List.length_append, List.length_take, List.length_drop]
    have := h.length
    omega
  · rw [hprogress, forall_courteous_snoc]
    intro hall
    simp only [h.inOrder hall.1, List.append_assoc, List.take_append_drop]
  · refine h.overtaken_snoc fun hreceived => ?_
    rw [hinput] at hreceived
    cases hreceived

theorem Followed.completeRequest (h : s.Followed hs) (attemptId : RequestAttemptId)
    (requestId : RequestId) (clientId : Uuid) (payload : List UInt8) :
    (s.completeRequest self now attemptId requestId clientId payload).1.Followed
      (hs ++ [⟨s, .inl (.server (.requestCompleted attemptId requestId clientId payload)), now,
        (s.completeRequest self now attemptId requestId clientId payload).1,
        (s.completeRequest self now attemptId requestId clientId payload).2⟩]) := by
  refine h.drains (n := 0) rfl (Nat.zero_le _) h.fifo rfl ?_
  rw [Server.completeRequest, List.take_zero]
  simp only
  split <;> rfl

variable [ServiceTimeDistribution δ]

omit [ServiceTimeDistribution δ] in
/-- The first item of a queue. -/
theorem waiting_fifo {queue : FifoQueue} (hqueue : s.queue = some (.fifo queue)) :
    s.waiting = queue.items.map fun item => (item.attempt, item.clientId) := by
  rw [waiting, hqueue]
  rfl

/-- The loop starts requests from the front of the queue. -/
theorem fifo_processQueuedLoop (n : Nat) {queue : FifoQueue} (hqueue : s.queue = some (.fifo queue)) :
    (∃ queue', (s.processQueuedLoop self n).1.queue = some (.fifo queue')) ∧ ∃ k ≤ s.waiting.length,
      (s.processQueuedLoop self n).1.waiting = s.waiting.drop k ∧
        (s.processQueuedLoop self n).2.map (·.event) = (s.waiting.take k).map fun w =>
          completion (w.1, w.2.getD 0) := by
  have hstops : ∀ {s : Server δ}, ∃ k ≤ s.waiting.length, s.waiting = s.waiting.drop k ∧
      ([] : List Event) = (s.waiting.take k).map fun w => completion (w.1, w.2.getD 0) :=
      ⟨0, Nat.zero_le _, rfl, rfl⟩
  induction n generalizing s queue with
  | zero => exact ⟨⟨queue, hqueue⟩, hstops⟩
  | succ n ih =>
    rw [processQueuedLoop]
    split
    · simp only [hqueue]
      cases hitems : queue.items with
      | nil =>
        have hdequeue : Queue.dequeue (.fifo queue) = (none, .fifo queue) := by
          simp only [Queue.dequeue, FifoQueue.dequeue, hitems]
        simp only [hdequeue, ← hqueue]
        exact ⟨⟨queue, hqueue⟩, hstops⟩
      | cons item items =>
        have hdequeue : Queue.dequeue (.fifo queue) =
            (some item, .fifo { queue with items, totalDequeued := queue.totalDequeued + 1 }) := by
          simp only [Queue.dequeue, FifoQueue.dequeue, hitems]
        have hwaiting := waiting_fifo hqueue
        rw [hitems, List.map_cons] at hwaiting
        simp only [hdequeue]
        obtain ⟨hfifo, k, hk, hrest, hsends⟩ := ih (s := ({ s with
          queue := some (.fifo { queue with items, totalDequeued := queue.totalDequeued + 1 }) }.startProcessingRequest self
            item.attempt (item.clientId.getD 0)).1) rfl
        refine ⟨hfifo, k + 1, ?_, ?_, ?_⟩
        · rw [hwaiting, List.length_cons]
          exact Nat.succ_le_succ hk
        · rw [hwaiting, List.drop_succ_cons]
          exact hrest
        · rw [hwaiting, List.take_succ_cons, List.map_cons, List.map_cons]
          exact congrArg (_ :: ·) hsends
    · exact ⟨⟨queue, hqueue⟩, hstops⟩

theorem Followed.processQueuedRequests (h : s.Followed hs) : (s.processQueuedRequests self).1.Followed
    (hs ++ [⟨s, .inl (.server .processQueuedRequests), now, (s.processQueuedRequests self).1,
      (s.processQueuedRequests self).2⟩]) := by
  obtain ⟨queue, hqueue⟩ := h.fifo
  obtain ⟨hfifo, k, hk, hwaiting, hsends⟩ := fifo_processQueuedLoop s.queueDepth hqueue
  refine h.drains rfl hk hfifo hwaiting ?_
  rw [Server.processQueuedRequests, hsends]
  refine List.filter_eq_self.mpr fun e he => ?_
  obtain ⟨w, -, rfl⟩ := List.mem_map.mp he
  rfl

omit [ServiceTimeDistribution δ] in
/-- A request is received that is neither started nor rejected. -/
theorem Followed.enqueued (h : s.Followed hs) {attempt : RequestAttempt} {clientId : Uuid}
    (hbusy : s.hasCapacity = false) (hfifo : ∃ queue, s'.queue = some (.fifo queue))
    (hwaiting : s'.waiting = s.waiting ++ [(attempt, some clientId)]) :
    s'.Followed (hs ++ [⟨s, .inl (.server (.processRequest attempt clientId)), now, s', []⟩]) := by
  have hprogress :
      progress (hs ++ [⟨s, .inl (.server (.processRequest attempt clientId)), now, s', []⟩]) =
        { progress hs with
      arrived := (progress hs).arrived + 1, accepted := (progress hs).accepted ++ [(progress hs).arrived]
      waiting := (progress hs).waiting ++ [(progress hs).arrived] } := by
    rw [progress_snoc]
    rfl
  have hrequests : requests (hs ++ [⟨s, .inl (.server (.processRequest attempt clientId)), now, s', []⟩]) =
      requests hs ++ [(attempt, clientId)] := requests_snoc
  refine ⟨hfifo, ?_, ?_, ?_, ?_, ?_, ?_, ?_, ?_⟩
  · rw [hprogress, hrequests, List.length_append, ← h.arrived]
    rfl
  · rw [hprogress, hwaiting, List.map_append, List.map_append, map_requests_snoc _ h.queued, h.waiting,
      hrequests, h.arrived]
    simp
  · rw [hprogress, completions_snoc, map_requests_snoc _ h.started, ← h.completions]
    simp
  · rw [hprogress]
    exact lt_requests_snoc h.started _
  · rw [hprogress]
    exact List.forall_mem_append.mpr ⟨lt_requests_snoc h.queued _,
      List.forall_mem_singleton.mpr (h.arrived_lt rfl)⟩
  · rw [hprogress]
    simp only [List.length_append, List.length_singleton]
    have := h.length
    omega
  · rw [hprogress, forall_courteous_snoc]
    intro hall
    simp only [h.inOrder hall.1, List.append_assoc]
  · exact h.overtaken_snoc (courteous_of_busy hbusy)

omit [ServiceTimeDistribution δ] in
/-- A request is received and rejected. -/
theorem Followed.rejected (h : s.Followed hs) {attempt : RequestAttempt} {clientId : Uuid}
    (hbusy : s.hasCapacity = false) (hqueue : s'.queue = s.queue) {send : Send Event}
    (hsend : send.event.isCompletion = false) :
    s'.Followed (hs ++ [⟨s, .inl (.server (.processRequest attempt clientId)), now, s', [send]⟩]) := by
  have hprogress :
      progress (hs ++ [⟨s, .inl (.server (.processRequest attempt clientId)), now, s', [send]⟩]) =
      { progress hs with arrived := (progress hs).arrived + 1 } := by
    have hfate :
        fate (⟨s, .inl (.server (.processRequest attempt clientId)), now, s', [send]⟩ : Handled
          (Server δ) Event Empty) =
        .rejected := by
      rw [fate, if_neg (List.cons_ne_nil _ _), if_neg (by simp [hsend])]
    rw [progress_snoc, Progress.handle]
    simp only [received?, hfate]
  have hrequests :
      requests (hs ++ [⟨s, .inl (.server (.processRequest attempt clientId)), now, s', [send]⟩]) =
      requests hs ++ [(attempt, clientId)] := requests_snoc
  refine ⟨hqueue ▸ h.fifo, ?_, ?_, ?_, ?_, ?_, ?_, ?_, ?_⟩
  · rw [hprogress, hrequests, List.length_append, ← h.arrived]
    rfl
  · have hwaiting : s'.waiting = s.waiting := by rw [Server.waiting, Server.waiting, hqueue]
    rw [hprogress, map_requests_snoc _ h.queued, ← h.waiting, hwaiting]
  · rw [hprogress, completions_snoc, map_requests_snoc _ h.started, ← h.completions]
    simp [hsend]
  · rw [hprogress]
    exact lt_requests_snoc h.started _
  · rw [hprogress]
    exact lt_requests_snoc h.queued _
  · rw [hprogress]
    exact h.length
  · rw [hprogress, forall_courteous_snoc]
    exact fun hall => h.inOrder hall.1
  · exact h.overtaken_snoc (courteous_of_busy hbusy)

/-- A request is received while a thread is free. It overtakes those that wait. -/
theorem Followed.startProcessingRequest (h : s.Followed hs) {attempt : RequestAttempt}
    {clientId : Uuid} (hfree : s.hasCapacity = true) :
    (s.startProcessingRequest self attempt clientId).1.Followed
      (hs ++ [⟨s, .inl (.server (.processRequest attempt clientId)), now,
      (s.startProcessingRequest self attempt clientId).1,
      [(s.startProcessingRequest self attempt clientId).2]⟩]) := by
  have hprogress : progress (hs ++ [⟨s, .inl (.server (.processRequest attempt clientId)), now,
      (s.startProcessingRequest self attempt clientId).1,
      [(s.startProcessingRequest self attempt clientId).2]⟩]) = { progress hs with
        arrived := (progress hs).arrived + 1, accepted := (progress hs).accepted ++ [(progress hs).arrived]
        started := (progress hs).started ++ [(progress hs).arrived] } := by
    rw [progress_snoc]
    rfl
  have hrequests : requests (hs ++ [⟨s, .inl (.server (.processRequest attempt clientId)), now,
      (s.startProcessingRequest self attempt clientId).1,
      [(s.startProcessingRequest self attempt clientId).2]⟩]) =
      requests hs ++ [(attempt, clientId)] := requests_snoc
  refine ⟨h.fifo, ?_, ?_, ?_, ?_, ?_, ?_, ?_, ?_⟩
  · rw [hprogress, hrequests, List.length_append, ← h.arrived]
    rfl
  · rw [hprogress, map_requests_snoc _ h.queued, ← h.waiting]
    rfl
  · rw [hprogress, completions_snoc, List.map_append, List.map_append, map_requests_snoc _ h.started,
      h.completions, hrequests,
      h.arrived]
    simp [Server.startProcessingRequest, Event.isCompletion, completion]
  · rw [hprogress]
    exact List.forall_mem_append.mpr ⟨lt_requests_snoc h.started _,
      List.forall_mem_singleton.mpr (h.arrived_lt rfl)⟩
  · rw [hprogress]
    exact lt_requests_snoc h.queued _
  · rw [hprogress]
    simp only [List.length_append, List.length_singleton]
    have := h.length
    omega
  · rw [hprogress, forall_courteous_snoc]
    rintro ⟨hall, hcourteous⟩
    have hempty : s.queueDepth = 0 := Nat.eq_zero_of_not_pos fun hpos => hcourteous rfl ⟨hfree, hpos⟩
    simp only [h.inOrder hall, h.waiting_eq_nil.mpr hempty, List.append_nil]
  · rw [forall_courteous_snoc]
    intro hnot
    by_cases hall : ∀ x ∈ hs, Courteous x
    · -- the first one that waits has a smaller number than the one that is started
      have hpos : s.queueDepth ≠ 0 := fun hempty => hnot ⟨hall, fun _ hboth => hboth.2.ne' hempty⟩
      have hne := h.waiting_eq_nil.not.mpr hpos
      rw [InOrder, hprogress, h.inOrder hall]
      intro horder
      cases hwaiting : (progress hs).waiting with
      | nil => exact hne hwaiting
      | cons i l =>
        have hlt := h.queued i (hwaiting ▸ List.mem_cons_self)
        simp only [hwaiting, List.append_assoc, List.prefix_append_right_inj, List.cons_append,
          List.cons_prefix_cons] at horder
        rw [← horder.1, h.arrived] at hlt
        exact Nat.lt_irrefl _ hlt
    · exact not_inOrder_snoc _ h.le (h.overtaken hall)

theorem Followed.handleRequest (h : s.Followed hs) {attempt : RequestAttempt} {clientId : Uuid} :
    (s.handleRequest self now attempt clientId).1.Followed
      (hs ++ [⟨s, .inl (.server (.processRequest attempt clientId)), now,
      (s.handleRequest self now attempt clientId).1, (s.handleRequest self now attempt clientId).2⟩]) := by
  rw [Server.handleRequest]
  split
  · rename_i hfree
    exact h.startProcessingRequest hfree
  · rename_i hbusy
    have hbusy : s.hasCapacity = false := Bool.eq_false_of_not_eq_true hbusy
    obtain ⟨queue, hqueue⟩ := h.fifo
    simp only [hqueue, Queue.enqueue, FifoQueue.enqueue]
    cases isFull queue.capacity queue.items.length with
    | some full =>
      have hkept : (s.rejectRequest now attempt clientId).1.queue = s.queue := rfl
      have hsend : (s.rejectRequest now attempt clientId).2.event.isCompletion = false := rfl
      exact h.rejected hbusy hkept hsend
    | none =>
      refine h.enqueued hbusy ⟨_, rfl⟩ ?_
      rw [waiting_fifo rfl, waiting_fifo hqueue, List.map_append]
      rfl

theorem Followed.processEvent {e : Event} {sends : List (Send Event)} (h : s.Followed hs)
    (hp : code.processEvent s self e now = some (s', sends)) :
    s'.Followed (hs ++ [⟨s, .inl e, now, s', sends⟩]) := by
  rcases e with (⟨attempt, clientId⟩ | ⟨attemptId, requestId, clientId, payload⟩ | _) | e
  · obtain ⟨rfl, rfl⟩ := Prod.ext_iff.mp (Option.some.inj hp)
    exact h.handleRequest
  · obtain ⟨rfl, rfl⟩ := Prod.ext_iff.mp (Option.some.inj hp)
    exact h.completeRequest attemptId requestId clientId payload
  · obtain ⟨rfl, rfl⟩ := Prod.ext_iff.mp (Option.some.inj hp)
    exact h.processQueuedRequests
  · cases hp

/-- The requests of any run that are started are those with the numbers that `progress` tells; and
they are started in their order exactly if no request is received while there is a free thread and a
request that waits. -/
theorem run_inOrder_iff {τ ρ φ : Type} [EventFrontierPolicy φ] (threadCapacity : Nat) (d : δ) (capacity : Option Nat)
    (seed : BitVec 64) {ops : List (Hosted.Op Event τ ρ φ Empty)} {h : Hosted (Server δ) Event τ ρ}
    {answers : List (Hosted.Answer (Server δ) Event Empty)}
    (hrun : Machine.run (Hosted.step code self) ⟨.new threadCapacity d (some (.fifo (.new capacity))), .fresh seed⟩ ops =
      some (h, answers)) :
    (completions (Hosted.history answers)).map some =
        (progress (Hosted.history answers)).started.map (fun i => (requests (Hosted.history answers))[i]?.map completion) ∧
      (InOrder (Hosted.history answers) ↔ ∀ x ∈ Hosted.history answers, Courteous x) := by
  have hfollowed := Hosted.run_rule (P := fun s _ hs => s.Followed hs) (I := fun _ => True)
    (A := fun _ => True)
    (fun _ _ _ _ _ h => h) (fun _ _ _ _ _ h => h) (fun s l hs e now s' sends hp _ h => h.processEvent hp)
    (fun s l hs m _ _ _ _ _ _ _ => m.elim) (fun _ _ _ => trivial) (fun _ _ => trivial) (Session.wf_fresh seed)
    (followed_new threadCapacity d capacity) hrun
  refine ⟨hfollowed.completions, fun horder => ?_, fun hall => ?_⟩
  · by_contra hnot
    exact hfollowed.overtaken hnot horder
  · rw [InOrder, hfollowed.inOrder hall]
    exact List.prefix_append _ _

/-! ## A request that comes at the end of another one -/

/-- The `n`th request. -/
def request (n : Nat) : Event := .server (.processRequest (.new ⟨n⟩ ⟨n⟩ 1 .zero []) 1)

/-- The second request waits while the first one is served, and the third one comes after `delay`.
Events are taken in their order. -/
def threeArrivals (delay : Nat) : List (Hosted.Op Event Unit Unit FifoFrontierPolicy Empty) :=
  let pop : Hosted.Op Event Unit Unit FifoFrontierPolicy Empty := .other (.popWithPolicy ⟨⟩)
  [.other (.schedule .zero 7 (request 1)), pop, .other (.schedule .zero 7 (request 2)),
    .other (.schedule (.fromDuration delay) 7 (request 3)), pop, pop, pop, pop]

/-- A server with one thread that serves each request for five nanoseconds. -/
def oneThread : Hosted (Server ConstantServiceTime) Event Unit Unit := ⟨.new 1 ⟨5⟩ (some (.fifo (.new none))), .fresh 0⟩

/-- The third request comes when the first one ends, and before the event that drains the queue. -/
theorem not_inOrder_threeArrivals : ∃ (h : Hosted (Server ConstantServiceTime) Event Unit Unit) (answers : _),
    Machine.run (Hosted.step code 7) oneThread (threeArrivals 5) = some (h, answers) ∧
      (progress (Hosted.history answers)).started = [0, 2] ∧ (progress (Hosted.history answers)).accepted = [0, 1, 2] ∧
        ¬InOrder (Hosted.history answers) := by
  refine ⟨_, _, rfl, rfl, rfl, ?_⟩
  decide

/-- It comes later. -/
theorem run_inOrder_iff_threeArrivals : ∃ (h : Hosted (Server ConstantServiceTime) Event Unit Unit) (answers : _),
    Machine.run (Hosted.step code 7) oneThread (threeArrivals 6) = some (h, answers) ∧
      (progress (Hosted.history answers)).started = [0, 1] ∧ (progress (Hosted.history answers)).accepted = [0, 1, 2] ∧
        InOrder (Hosted.history answers) := by
  have hrun : (Machine.run (Hosted.step code 7) oneThread (threeArrivals 6)).map
      (fun r : _ × List (Hosted.Answer (Server ConstantServiceTime) Event Empty) =>
        ((progress (Hosted.history r.2)).started, (progress (Hosted.history r.2)).accepted,
          decide (∀ x ∈ Hosted.history r.2, Courteous x))) = some ([0, 1], [0, 1, 2], true) := by
    decide +kernel
  obtain ⟨⟨h, answers⟩, hrun, hvalues⟩ := Option.map_eq_some_iff.mp hrun
  obtain ⟨hstarted, hvalues⟩ := Prod.mk.inj hvalues
  obtain ⟨haccepted, hcourteous⟩ := Prod.mk.inj hvalues
  exact ⟨h, answers, hrun, hstarted, haccepted, (run_inOrder_iff 1 ⟨5⟩ none 0 hrun).2.mpr
    (of_decide_eq_true hcourteous)⟩

end Server

end DesCartes.Service
