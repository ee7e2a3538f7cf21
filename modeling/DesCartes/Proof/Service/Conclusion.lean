import DesCartes.Proof.Service.EndToEnd
import DesCartes.Proof.Work

/-!
# Every request is concluded

Servers and clients, any number of each, in one simulation whose owner asks clients to send requests. An
attempt leads to at most six events (`weight`): the request to send it, its timeout, the event by which
the server gets it, the two by which the server completes it and looks into its queue, and the response.
A client holds back what the retries cost that its policies may yet grant, and a server what it costs to
process the requests in its queue (`held`).

* `pays`: a component pays for what it does and sends with the event that it processes;
* `run_concluded`: after six pops for each attempt that the policies allow, no event is left, and each of
  the requests that a client was asked for has succeeded or failed permanently.
-/

namespace DesCartes.Service

/-- How many retries the policy may yet grant. -/
def left {P : Type} [RetryPolicy P] [LimitedRetryPolicy P] (p : P) : Nat :=
  RetryPolicy.maxAttempts p - LimitedRetryPolicy.granted p

/-- What the retries cost that may yet be granted to an active request. -/
def retryCost {P : Type} [RetryPolicy P] [LimitedRetryPolicy P] (entry : RequestAttempt × P) : Nat :=
  6 * left entry.2

@[simp] theorem retryCost_mk {P : Type} [RetryPolicy P] [LimitedRetryPolicy P]
    (attempt : RequestAttempt) (p : P) :
    retryCost (attempt, p) = 6 * left p := rfl

namespace Node

variable {δ P : Type} [RetryPolicy P]

/-- What an event for the component with the key weighs. -/
def weight (nodes : Uuid → Option (Node δ P)) (key : Uuid) : Event → Nat
  | .client .sendRequest =>
    match nodes key with
    | some (.client c) => 6 * (RetryPolicy.maxAttempts c.retryPolicy + 1)
    | _ => 1
  | .client (.retryRequest _) => 6
  | .server (.processRequest ..) => 4
  | .server (.requestCompleted ..) => 3
  | _ => 1

/-- What a component holds back. -/
def held [LimitedRetryPolicy P] : Node δ P → Nat
  | .server s => 3 * s.queueDepth
  | .client c => c.activeRequests.total retryCost

/-- There is a server with the key. -/
def IsServer (nodes : Uuid → Option (Node δ P)) (key : Uuid) : Prop := ∃ s, nodes key = some (.server s)

/-- There is a client with the key. -/
def IsClient (nodes : Uuid → Option (Node δ P)) (key : Uuid) : Prop := ∃ c, nodes key = some (.client c)

/-- The component with the key can be given the event. -/
def Expected (nodes : Uuid → Option (Node δ P)) (key : Uuid) : Event → Prop
  | .client _ => IsClient nodes key
  | .server (.processRequest _ clientId) => IsServer nodes key ∧ IsClient nodes clientId
  | .server (.requestCompleted _ _ clientId _) => IsServer nodes key ∧ IsClient nodes clientId
  | .server .processQueuedRequests => IsServer nodes key

/-- The component with the key is one of its kind; a client is that of a server, and the requests that
wait at a server are those of clients. -/
def Proper (nodes : Uuid → Option (Node δ P)) (key : Uuid) : Node δ P → Prop
  | .server s => IsServer nodes key ∧ ∀ r ∈ s.waiting, IsClient nodes (r.2.getD 0)
  | .client c => IsServer nodes c.serverKey ∧
      ∃ c₀, nodes key = some (.client c₀) ∧ c.retryPolicy = c₀.retryPolicy

end Node

/-! ## A client -/

namespace SimpleClient

variable {δ P : Type} [RetryPolicy P] [LimitedRetryPolicy P] {nodes : Uuid → Option (Node δ P)}
  {self : Uuid} {now : SimTime} {c c' : SimpleClient P} {event : Event} {sends : List (Send Event)}

theorem left_reset (p : P) : left (RetryPolicy.reset p) = RetryPolicy.maxAttempts p := by
  rw [left, LimitedRetryPolicy.maxAttempts_reset, LimitedRetryPolicy.granted_reset, Nat.sub_zero]

theorem left_grant {p p' : P} {attempt : RequestAttempt} {response : Option Response} {delay : Nat}
    (h : RetryPolicy.shouldRetry p attempt response = some (some delay, p')) : left p' + 1 = left p := by
  obtain ⟨hgranted, hle, hmax⟩ := LimitedRetryPolicy.grant h
  rw [left, left, ← hmax]
  omega

omit [LimitedRetryPolicy P] in
theorem expected_sendAttempt (hself : Node.IsClient nodes self)
    (hserver : Node.IsServer nodes c.serverKey) (now : SimTime) (request : RequestId)
    (attemptNumber : Nat) :
    (∀ send ∈ (c.sendAttempt self now request attemptNumber).2.2,
      Node.Expected nodes send.target send.event) ∧
    Send.total (Node.weight nodes) (c.sendAttempt self now request attemptNumber).2.2 = 5 := by
  refine ⟨?_, rfl⟩
  simp only [sendAttempt, List.forall_mem_cons]
  exact ⟨hself, ⟨hserver, hself⟩, List.forall_mem_nil _⟩

omit [LimitedRetryPolicy P] in
theorem one_le_weight (nodes : Uuid → Option (Node δ P)) (key : Uuid) (event : Event) :
    1 ≤ Node.weight nodes key event := by
  unfold Node.weight
  split
  · split
    · exact Nat.mul_pos (by decide) (Nat.succ_pos _)
    · exact le_rfl
  all_goals decide

/-- What an event makes a client do is paid for. -/
theorem Moved.pays (hm : c.Moved self now event c' sends)
    (hc : Node.Proper nodes self (.client c : Node δ P)) :
    Node.Proper nodes self (.client c' : Node δ P) ∧
      (∀ send ∈ sends, Node.Expected nodes send.target send.event) ∧
      (.client c' : Node δ P).held + Send.total (Node.weight nodes) sends + 1 ≤
        (.client c : Node δ P).held + Node.weight nodes self event := by
  obtain ⟨hserver, c₀, hself, hpolicy⟩ := hc
  have hclient : Node.IsClient nodes self := ⟨c₀, hself⟩
  have hone := one_le_weight nodes self event
  have hproper : ∀ c' : SimpleClient P, c'.serverKey = c.serverKey → c'.retryPolicy = c.retryPolicy →
      Node.Proper nodes self (.client c' : Node δ P) := fun c' hkey hsame =>
    ⟨by rwa [hkey], c₀, hself, hsame.trans hpolicy⟩
  cases hm with
  | begun =>
    obtain ⟨hexpected, htotal⟩ := expected_sendAttempt
      (c := { c with nextRequestId := c.nextRequestId + 1 }) hclient hserver now ⟨c.nextRequestId⟩ 1
    refine ⟨hproper _ rfl rfl, hexpected, ?_⟩
    have hweight : Node.weight nodes self (.client .sendRequest) =
        6 * (RetryPolicy.maxAttempts c.retryPolicy + 1) := by
      simp only [Node.weight, hself, hpolicy]
    have hheld := AList.total_insert_le retryCost
      c.activeRequests ⟨c.nextRequestId⟩
        (({ c with nextRequestId := c.nextRequestId + 1 } : SimpleClient P).sendAttempt
        self now ⟨c.nextRequestId⟩ 1 |>.1, RetryPolicy.reset c.retryPolicy)
    have hsends : Send.total (Node.weight nodes) (c.sendRequest self now).2 = 5 := htotal
    rw [retryCost_mk, left_reset] at hheld
    rw [hweight, hsends]
    refine (Nat.add_le_add_right (Nat.add_le_add_right hheld 5) 1).trans ?_
    show _ ≤ c.activeRequests.total retryCost + 6 * (RetryPolicy.maxAttempts c.retryPolicy + 1)
    omega
  | ignored => exact ⟨hproper _ rfl rfl, List.forall_mem_nil _, Nat.add_le_add_left hone _⟩
  | succeeded =>
    refine ⟨hproper _ rfl rfl, List.forall_mem_nil _, ?_⟩
    exact Nat.add_le_add (AList.total_erase_le retryCost ..) hone
  | @granted _ request attempt policy policy' _ delay _ _ _ hactive hgrant =>
    refine ⟨hproper _ rfl rfl, List.forall_mem_singleton.mpr hclient, ?_⟩
    have hheld := AList.total_insert_of_lookup retryCost
      (attempt, policy') hactive
    have hleft := left_grant hgrant
    have hsends : Send.total (Node.weight nodes)
        [⟨.fromDuration delay, self, .client (.retryRequest request)⟩] = 6 := rfl
    rw [hsends]
    show (c.activeRequests.insert request (attempt, policy')).total retryCost + 6 + 1 ≤
      c.activeRequests.total retryCost + Node.weight nodes self event
    rw [retryCost_mk, retryCost_mk] at hheld
    omega
  | failed =>
    refine ⟨hproper _ rfl rfl, List.forall_mem_nil _, ?_⟩
    exact Nat.add_le_add (AList.total_erase_le retryCost ..) hone
  | @retried request entry hactive =>
    obtain ⟨attempt, policy⟩ := entry
    simp only [handleRetry, hactive]
    obtain ⟨hexpected, htotal⟩ := expected_sendAttempt
      (c := { c with activeRequests := c.activeRequests.erase request }) hclient hserver now request
      (attempt.attemptNumber + 1)
    refine ⟨hproper _ rfl rfl, hexpected, ?_⟩
    have hheld := AList.total_insert_of_lookup retryCost
      (({ c with activeRequests := c.activeRequests.erase request } : SimpleClient P).sendAttempt
        self now request (attempt.attemptNumber + 1) |>.1, policy) hactive
    rw [htotal]
    rw [retryCost_mk, retryCost_mk, ← AList.insert_erase, Nat.add_right_cancel_iff] at hheld
    exact (Nat.add_le_add_right (Nat.add_le_add_right hheld.le 5) 1).trans (Nat.add_assoc ..).le

omit [LimitedRetryPolicy P] in
/-- A client does not panic, if its policy does not. -/
theorem processEvent_isSome
    (hpolicy : ∀ (p : P) attempt response, RetryPolicy.shouldRetry p attempt response ≠ none)
    (c : SimpleClient P) (self : Uuid) (event : ClientEvent) (now : SimTime) :
    ∃ c' sends, code.processEvent c self (.client event) now = some (c', sends) := by
  cases event with
  | sendRequest => exact ⟨_, _, rfl⟩
  | retryRequest requestId => exact ⟨_, _, rfl⟩
  | responseReceived response =>
    simp only [code, handleResponse]
    split
    · exact ⟨_, _, rfl⟩
    · split
      · exact ⟨_, _, rfl⟩
      · split
        · rename_i hnone
          exact absurd hnone (hpolicy _ _ _)
        · exact ⟨_, _, rfl⟩
        · exact ⟨_, _, rfl⟩
  | requestTimeout requestId attemptId =>
    simp only [code, handleTimeout]
    split
    · exact ⟨_, _, rfl⟩
    · split
      · split
        · rename_i hnone
          exact absurd hnone (hpolicy _ _ _)
        · exact ⟨_, _, rfl⟩
        · exact ⟨_, _, rfl⟩
      · exact ⟨_, _, rfl⟩

end SimpleClient

/-! ## A server -/

namespace Server

variable {δ P : Type} [ServiceTimeDistribution δ] [RetryPolicy P] {nodes : Uuid → Option (Node δ P)}
  {self : Uuid} {now : SimTime} {s : Server δ}

/-- All requests that wait are those of clients. -/
def OfClients (nodes : Uuid → Option (Node δ P)) (s : Server δ) : Prop :=
  ∀ r ∈ s.waiting, Node.IsClient nodes (r.2.getD 0)

omit [ServiceTimeDistribution δ] in
theorem waiting_dequeue {queue queue' : Queue} {item : QueueItem} (hq : s.queue = some queue)
    (hd : queue.dequeue = (some item, queue')) :
    s.waiting = (item.attempt, item.clientId) ::
      ({ s with queue := some queue' } : Server δ).waiting := by
  obtain rfl : queue.dequeue.2 = queue' := congrArg Prod.snd hd
  rw [waiting, waiting, hq, Option.elim_some, Option.elim_some,
    Queue.items_dequeue_some (congrArg Prod.fst hd), List.map_cons]

/-- The loop pays for the requests that it starts with what was held back for them. -/
theorem pays_processQueuedLoop (hself : Node.IsServer nodes self) :
    ∀ (n : Nat) (s : Server δ), s.OfClients nodes →
      (s.processQueuedLoop self n).1.OfClients nodes ∧
      (∀ send ∈ (s.processQueuedLoop self n).2, Node.Expected nodes send.target send.event) ∧
      3 * (s.processQueuedLoop self n).1.waiting.length +
        Send.total (Node.weight nodes) (s.processQueuedLoop self n).2 ≤ 3 * s.waiting.length := by
  intro n
  induction n with
  | zero => exact fun s hs => ⟨hs, List.forall_mem_nil _, le_rfl⟩
  | succ n ih =>
    intro s hs
    simp only [processQueuedLoop]
    split
    · split
      · exact ⟨hs, List.forall_mem_nil _, le_rfl⟩
      · rename_i queue hq
        split
        · rename_i queue' hd
          obtain ⟨-, hsame⟩ := Queue.items_dequeue_none (congrArg Prod.fst hd)
          obtain rfl : queue = queue' := hsame.symm.trans (congrArg Prod.snd hd)
          rw [← hq]
          exact ⟨hs, List.forall_mem_nil _, le_rfl⟩
        · rename_i item queue' hd
          have hwaiting := waiting_dequeue hq hd
          rw [OfClients, hwaiting, List.forall_mem_cons] at hs
          obtain ⟨hclients, hexpected, hle⟩ :=
            ih (({ s with queue := some queue' } : Server δ).startProcessingRequest self
            item.attempt (item.clientId.getD 0)).1 hs.2
          refine ⟨hclients, List.forall_mem_cons.mpr ⟨⟨hself, hs.1⟩, hexpected⟩, ?_⟩
          have hlength :
              s.waiting.length = (({ s with queue := some queue' } : Server δ).startProcessingRequest self
            item.attempt (item.clientId.getD 0)).1.waiting.length + 1 := congrArg List.length hwaiting
          rw [hlength, Nat.mul_succ, Nat.add_comm _ 3]
          exact (Nat.add_left_comm ..).le.trans (Nat.add_le_add_left hle 3)
    · exact ⟨hs, List.forall_mem_nil _, le_rfl⟩

/-- What an event makes a server do is paid for. -/
theorem pays (now : SimTime) (hself : Node.IsServer nodes self) (hs : s.OfClients nodes)
    {event : ServerEvent} (he : Node.Expected nodes self (.server event)) :
    ∃ s' sends, code.processEvent s self (.server event) now = some (s', sends) ∧ s'.OfClients nodes ∧
      (∀ send ∈ sends, Node.Expected nodes send.target send.event) ∧
      3 * s'.waiting.length + Send.total (Node.weight nodes) sends + 1 ≤
        3 * s.waiting.length + Node.weight nodes self (.server event) := by
  cases event with
  | processRequest attempt clientId =>
    refine ⟨(s.handleRequest self now attempt clientId).1,
      (s.handleRequest self now attempt clientId).2, rfl, ?_⟩
    have hreject : (s.rejectRequest now attempt clientId).1.OfClients nodes ∧
        (∀ send ∈ [(s.rejectRequest now attempt clientId).2],
          Node.Expected nodes send.target send.event) ∧
        3 * (s.rejectRequest now attempt clientId).1.waiting.length +
          Send.total (Node.weight nodes) [(s.rejectRequest now attempt clientId).2] + 1 ≤
            3 * s.waiting.length + 4 :=
      ⟨hs, List.forall_mem_singleton.mpr he.2, Nat.add_le_add_left (by decide : 1 + 1 ≤ 4)
        (3 * s.waiting.length)⟩
    unfold handleRequest
    split
    · exact ⟨hs, List.forall_mem_singleton.mpr he, le_rfl⟩
    · split
      · exact hreject
      · rename_i queue hq
        split
        · rename_i queue' henqueue
          have hperm :
              (({ s with queue := some queue', requestsQueued := s.requestsQueued + 1 } : Server δ).waiting).Perm
              ((attempt, some clientId) :: s.waiting) := by
            rw [waiting, waiting, hq]
            exact (Queue.items_enqueue henqueue).map _
          refine ⟨fun r hr => ?_, List.forall_mem_nil _, ?_⟩
          · rcases List.mem_cons.mp (hperm.mem_iff.mp hr) with rfl | hr
            · exact he.2
            · exact hs r hr
          · show 3 * List.length _ + 0 + 1 ≤ 3 * s.waiting.length + 4
            rw [hperm.length_eq, List.length_cons]
            omega
        · exact hreject
  | requestCompleted attemptId requestId clientId payload =>
    refine ⟨(s.completeRequest self now attemptId requestId clientId payload).1,
      (s.completeRequest self now attemptId requestId clientId payload).2, rfl, hs, ?_, ?_⟩
    · refine List.forall_mem_cons.mpr ⟨he.2, ?_⟩
      split
      · exact List.forall_mem_singleton.mpr hself
      · exact List.forall_mem_nil _
    · have htotal : Send.total (Node.weight nodes)
          (s.completeRequest self now attemptId requestId clientId payload).2 ≤ 2 := by
        simp only [completeRequest]
        split
        · exact le_rfl
        · exact Nat.le_succ 1
      exact Nat.add_le_add_left (Nat.add_le_add_right htotal 1) (3 * s.waiting.length)
  | processQueuedRequests =>
    obtain ⟨hclients, hexpected, hle⟩ := pays_processQueuedLoop hself s.queueDepth s hs
    exact ⟨_, _, rfl, hclients, hexpected, Nat.add_le_add_right hle 1⟩

omit [ServiceTimeDistribution δ] in
theorem waiting_new (threadCapacity : Nat) (d : δ) {queue : Option Queue} (hq : ∀ q ∈ queue, q.Fresh) :
    (Server.new threadCapacity d queue).waiting = [] := by
  cases queue with
  | none => rfl
  | some queue =>
    obtain ⟨capacity, rfl | rfl⟩ := hq queue rfl
    · rfl
    · rfl

end Server

/-! ## All of them -/

namespace Node

variable {δ P : Type} {nodes : Uuid → Option (Node δ P)} [RetryPolicy P] [ServiceTimeDistribution δ]

/-- Servers and clients pay for what they do. -/
theorem pays [LimitedRetryPolicy P] (hpolicy : ∀ (p : P) attempt response,
    RetryPolicy.shouldRetry p attempt response ≠ none) :
    Assembly.Pays code (weight nodes) held (Expected nodes) (Proper nodes) where
  positive key e _ := SimpleClient.one_le_weight nodes key e
  processEvent := by
    intro key node event now hproper he
    cases node with
    | server s =>
      rcases event with event | event
      · obtain ⟨s', sends, hs, hclients, hexpected, hle⟩ := Server.pays now hproper.1 hproper.2 he
        refine ⟨.server s', sends, ?_, ⟨hproper.1, hclients⟩, hexpected, ?_⟩
        · simp only [code, hs, Option.map_some]
        · rwa [held, held, ← Server.length_waiting, ← Server.length_waiting]
      · obtain ⟨⟨_, hserver⟩, c, hclient⟩ := And.intro hproper.1 he
        rw [hserver] at hclient
        cases hclient
    | client c =>
      rcases event with event | event
      · have hserver : IsServer nodes key := by
          cases event with
          | processQueuedRequests => exact he
          | _ => exact he.1
        obtain ⟨⟨s, hserver⟩, -, c, hclient, -⟩ := And.intro hserver hproper
        rw [hserver] at hclient
        cases hclient
      · obtain ⟨c', sends, hc⟩ := SimpleClient.processEvent_isSome hpolicy c key event now
        obtain ⟨hproper', hexpected, hle⟩ := (SimpleClient.moved hc).pays hproper
        exact ⟨.client c', sends, by simp only [code, hc, Option.map_some], hproper', hexpected, hle⟩

omit [ServiceTimeDistribution δ] in
theorem Fresh.proper [LimitedRetryPolicy P] {key : Uuid} {node : Node δ P} (h : node.Fresh nodes)
    (hkey : nodes key = some node) : node.Proper nodes key ∧ node.held = 0 := by
  cases h with
  | server threadCapacity d hq =>
    have hwaiting : (Server.new threadCapacity d _).waiting = [] := Server.waiting_new threadCapacity d hq
    refine ⟨⟨⟨_, hkey⟩, ?_⟩, ?_⟩
    · rw [hwaiting]
      exact List.forall_mem_nil _
    · rw [held, ← Server.length_waiting, hwaiting]
      rfl
  | client name policy requestTimeout hserver => exact ⟨⟨⟨_, hserver⟩, _, hkey, rfl⟩, rfl⟩

variable {τ ρ φ : Type} [EventFrontierPolicy φ] {ops pops : List (Op Event τ ρ φ)}
  {a : Assembly (Node δ P) Event τ ρ} {answers : List (Assembly.Answer (Node δ P) Event Empty)}

open Assembly

omit [ServiceTimeDistribution δ] in
/-- The simulation before its first operation. -/
theorem standing [LimitedRetryPolicy P] (seed : BitVec 64)
    (hnodes : ∀ key node, nodes key = some node → node.Fresh nodes) :
    (⟨nodes, .fresh seed⟩ : Assembly (Node δ P) Event τ ρ).Standing (weight nodes) held (Expected nodes)
      (Proper nodes) 0 0 where
  known key e he := by
    have hsome : ∀ {key}, IsServer nodes key → nodes key ≠ none := fun ⟨_, h⟩ => h ▸ Option.some_ne_none _
    rcases e with (_ | _ | _) | e
    · exact hsome he.1
    · exact hsome he.1
    · exact hsome he
    · obtain ⟨c, h⟩ := he
      exact fun hnone => Option.some_ne_none _ (h.symm.trans hnone)
  proper key node hkey := ((hnodes key node hkey).proper hkey).1
  expected := List.forall_mem_nil _
  funded := by
    refine ⟨∅, fun key _ => ?_, le_rfl⟩
    show (nodes key).elim 0 held = 0
    cases hkey : nodes key with
    | none => rfl
    | some node => exact ((hnodes key node hkey).proper hkey).2
  counted := le_rfl

omit [ServiceTimeDistribution δ] in
/-- Servers and clients do not ask for requests. -/
theorem not_sendRequest [ServiceTimeDistribution δ] {key : Uuid} {node node' : Node δ P} {event : Event}
    {now : SimTime} {sends : List (Send Event)}
    (hp : code.processEvent node key event now = some (node', sends)) :
    ∀ send ∈ sends, send.event ≠ .client .sendRequest := by
  intro send hsend he
  cases node with
  | server s =>
    simp only [code, Option.map_eq_some_iff, Prod.mk.injEq, Prod.exists] at hp
    obtain ⟨s', sends', hs, -, rfl⟩ := hp
    rcases Server.sends_processEvent hs send hsend with ⟨response, hresponse⟩ | ⟨-, -, e, hserver⟩
    · cases he.symm.trans hresponse
    · cases he.symm.trans hserver
  | client c =>
    simp only [code, Option.map_eq_some_iff, Prod.mk.injEq, Prod.exists] at hp
    obtain ⟨c', sends', hc, -, rfl⟩ := hp
    have hsent : ∀ (c : SimpleClient P) request attemptNumber,
        ∀ send ∈ (c.sendAttempt key now request attemptNumber).2.2,
        send.event ≠ .client .sendRequest := by
      simp [SimpleClient.sendAttempt]
    cases SimpleClient.moved hc with
    | begun => exact hsent _ _ _ send hsend he
    | granted =>
      cases List.mem_singleton.mp hsend
      cases he
    | retried hactive =>
      simp only [SimpleClient.handleRetry, hactive] at hsend
      exact hsent _ _ _ send hsend he
    | _ => cases hsend

omit [ServiceTimeDistribution δ] in
/-- A client begins a request when it is asked for one. -/
theorem requestsSent_processEvent {key : Uuid} {c c' : SimpleClient P} {event : Event} {now : SimTime}
    {sends : List (Send Event)} (hp : SimpleClient.code.processEvent c key event now = some (c', sends)) :
    c'.requestsSent = c.requestsSent + [event].count (.client .sendRequest) := by
  by_cases he : event = .client .sendRequest
  · subst he
    obtain ⟨rfl, rfl⟩ := Prod.ext_iff.mp (Option.some.inj hp)
    rw [List.count_singleton_self]
    rfl
  · rw [List.count_singleton, if_neg (by simpa using he), Nat.add_zero]
    cases SimpleClient.moved hp with
    | begun => exact absurd rfl he
    | retried hactive => simp only [SimpleClient.handleRetry, hactive, SimpleClient.sendAttempt]
    | _ => rfl

/-- A client has begun the requests that it was asked for. -/
theorem count_sendRequest {key : Uuid} {c : SimpleClient P} {seed : BitVec 64}
    (hnodes : ∀ key node, nodes key = some node → node.Fresh nodes)
    (hrun : Machine.run (step code) ⟨nodes, .fresh seed⟩ ops = some (a, answers))
    (hc : a.components key = some (.client c)) :
    c.requestsSent = (taken (historyOf key answers)).count (.client .sendRequest) := by
  refine (run_local (I := fun _ _ => True) (Q := fun _ (node : Node δ P) _ hs => ∀ c, node = .client c →
    c.requestsSent = (taken hs).count (Event.client .sendRequest)) (fun _ _ _ _ _ _ h => h)
    (fun _ _ _ _ _ _ h => h) (fun _ _ _ _ _ _ _ _ _ _ => trivial) ?_ (fun _ _ _ _ _ => trivial) ?_ hrun).2
    key _ hc c rfl
  · rintro key node l hs event now node' sends hp h c' rfl
    cases node with
    | server s =>
      simp only [code, Option.map_eq_some_iff, Prod.mk.injEq, reduceCtorEq, false_and, and_false,
        exists_false] at hp
    | client c =>
      simp only [code, Option.map_eq_some_iff, Prod.mk.injEq, Prod.exists, client.injEq] at hp
      obtain ⟨c', sends', hc, rfl, rfl⟩ := hp
      have htaken : taken (hs ++ [⟨.client c, .inl event, now, .client c', sends'⟩]) =
          taken hs ++ [event] := by
        simp [taken]
      rw [htaken, List.count_append, ← h c rfl]
      exact requestsSent_processEvent hc
  · rintro key _ hkey c rfl
    cases hnodes key _ hkey
    rfl

/-- How many requests the component with the key is asked to send. -/
def asked (key : Uuid) (ops : List (Op Event τ ρ φ)) : Nat :=
  (ops.filterMap (Op.eventFor key)).count (.client .sendRequest)

/-- How many events the requests may lead to: six for each attempt that the policies of their clients
allow. -/
def allowance (nodes : Uuid → Option (Node δ P)) (ops : List (Op Event τ ρ φ)) : Nat :=
  (ops.map (Op.weight (weight nodes))).sum

/-- The requests that a client was asked for are those that it has begun, when no event is left. -/
theorem requestsSent_of_quiet {key : Uuid} {c : SimpleClient P} {seed : BitVec 64}
    (hnodes : ∀ key node, nodes key = some node → node.Fresh nodes)
    (hrun : Machine.run (step code) ⟨nodes, .fresh seed⟩ ops = some (a, answers))
    (hc : a.components key = some (.client c)) (hkey : nodes key ≠ none)
    (hquiet : a.session.inbox key = []) :
    c.requestsSent = asked key ops := by
  have hperm := run_post hkey hrun
  have hempty : (Session.fresh seed : Session Event τ ρ).inbox key = [] := rfl
  have hnone : (((sent answers).filterMap (Send.eventFor key)).count (.client .sendRequest)) = 0 := by
    refine List.count_eq_zero.mpr fun hmem => ?_
    obtain ⟨send, hsend, hfor⟩ := List.mem_filterMap.mp hmem
    obtain ⟨⟨o, own⟩, hanswer, hmem⟩ := List.mem_flatMap.mp hsend
    cases own with
    | none => cases hmem
    | some x =>
      obtain ⟨key', x⟩ := x
      obtain ⟨-, event, -, hp⟩ := run_performed hrun hanswer
      simp only [Send.eventFor, Option.ite_none_right_eq_some, Option.some.injEq] at hfor
      exact not_sendRequest hp send hmem hfor.2
  unfold Posted at hperm
  rw [hempty, hquiet, List.append_nil, List.nil_append] at hperm
  rw [count_sendRequest hnodes hrun hc, ← hperm.count_eq, List.count_append, hnone, Nat.add_zero, asked]

/-- In every simulation of servers and clients whose owner asks clients for requests and pops events: no
operation panics, if the policies do not; and after six pops for each attempt that the policies allow, no
event is left, no server has a request, and each request that a client was asked for has succeeded or
failed permanently, after each of its attempts has been answered once. -/
theorem run_concluded [LimitedRetryPolicy P] (seed : BitVec 64)
    (hnodes : ∀ key node, nodes key = some node → node.Fresh nodes)
    (hcapacity : ∀ key s, nodes key = some (.server s) → 0 < s.threadCapacity)
    (hpolicy : ∀ (p : P) attempt response, RetryPolicy.shouldRetry p attempt response ≠ none)
    (hops : ∀ op ∈ ops, op.Feeds fun key e => e = .client .sendRequest ∧ IsClient nodes key)
    (hpops : ∀ op ∈ pops, op.Pops) (hroom : allowance nodes ops ≤ u64Max)
    (henough : allowance nodes ops ≤ pops.length) :
    ∃ a answers, Machine.run (step code) (⟨nodes, .fresh seed⟩ : Assembly (Node δ P) Event τ ρ)
      (ops ++ pops) =
        some (a, answers) ∧
      a.Quiet ∧ (answers.map Answer.work).sum ≤ allowance nodes ops ∧
      (∀ key s₀, nodes key = some (.server s₀) → ∃ s, a.components key = some (.server s) ∧
        s.activeThreads = 0 ∧ s.queueDepth = 0) ∧
      ∀ key c₀, nodes key = some (.client c₀) → ∃ c, a.components key = some (.client c) ∧
        c.requestsSent = asked key ops ∧ c.activeRequests.len = 0 ∧
        c.requestsSent = c.metrics.responsesSuccess + c.metrics.requestsFailedPermanently ∧
        Multiset.Rel AnsweredBy (attemptsOf key answers) (responsesTo key answers) := by
  have hfeeds : ∀ op ∈ ops, op.Feeds (Expected nodes) := fun op hop => by
    have h := hops op hop
    cases op with
    | schedule delay key e =>
      obtain ⟨rfl, hclient⟩ := h
      exact hclient
    | pop => trivial
    | popWithPolicy policy => trivial
    | _ => exact h.elim
  have hlimit : 0 + (ops.map (Op.weight (weight nodes))).sum ≤ pops.length := by rwa [Nat.zero_add]
  obtain ⟨a, answers, hrun, hquiet, hwork⟩ := (standing seed hnodes).run_ended (pays hpolicy) hfeeds hpops
    (by rwa [Nat.zero_add]) hlimit
  rw [Nat.zero_add] at hwork
  have hasks : ∀ delay key e, .schedule delay key e ∈ ops ++ pops → nodes key ≠ none →
      e = .client .sendRequest := by
    intro delay key e hop _
    rcases List.mem_append.mp hop with hop | hop
    · exact (hops _ hop).1
    · exact (hpops _ hop).elim
  have hinbox : ∀ key, a.session.inbox key = [] := fun key => by
    rw [Session.inbox, show a.session.heap = [] from hquiet, List.filterMap_nil]
  have hasked : ∀ key, asked key (ops ++ pops) = asked key ops := fun key => by
    have hnone : pops.filterMap (Op.eventFor key) = [] :=
      List.filterMap_eq_nil_iff.mpr fun op hop => by
        have hpop := hpops op hop
        cases op with
        | schedule => exact hpop.elim
        | _ => rfl
    rw [asked, List.filterMap_append, hnone, List.append_nil, asked]
  obtain ⟨hservers, hclients⟩ := run_settled seed hnodes hasks hrun hcapacity fun key _ => hinbox key
  refine ⟨a, answers, hrun, hquiet, hwork, fun key s₀ hkey => ?_, fun key c₀ hkey => ?_⟩
  · obtain ⟨s, l, hs, -⟩ := exists_server hnodes hasks hrun hkey
    exact ⟨s, hs, (hservers key s hs).1, (hservers key s hs).2.1⟩
  · obtain ⟨c, hc, -⟩ := exists_client hnodes hasks hrun hkey
    obtain ⟨hactive, hsum, hrel⟩ := hclients key c hc
    have hsent := requestsSent_of_quiet hnodes hrun hc (hkey ▸ Option.some_ne_none _) (hinbox key)
    exact ⟨c, hc, hsent.trans (hasked key), hactive, hsum, hrel⟩

/-- With a retry, the request of `impatient` is concluded after no more than twelve events. -/
theorem run_concluded_impatient :
    ∃ (a : Assembly (Node ConstantServiceTime FixedRetryPolicy) Event Unit Unit)
      (answers : List (Assembly.Answer (Node ConstantServiceTime FixedRetryPolicy) Event Empty))
      (c : SimpleClient FixedRetryPolicy),
    Machine.run (step code) ⟨impatient, .fresh 0⟩ ([Op.schedule .zero 2 (.client .sendRequest)] ++
        List.replicate 12 (.pop : Op Event Unit Unit FifoFrontierPolicy)) = some (a, answers) ∧
      a.Quiet ∧ (answers.map Answer.work).sum ≤ 12 ∧ a.components 2 = some (.client c) ∧
      c.requestsSent = 1 ∧
      c.requestsSent = c.metrics.responsesSuccess + c.metrics.requestsFailedPermanently := by
  have hcapacity : ∀ key s, impatient key = some (.server s) → 0 < s.threadCapacity := by
    intro key s hkey
    simp only [impatient] at hkey
    split at hkey
    · cases hkey
      exact Nat.one_pos
    · split at hkey <;> cases hkey
  have hpolicy : ∀ (p : FixedRetryPolicy) attempt response,
      RetryPolicy.shouldRetry p attempt response ≠ none := by
    intro p attempt response h
    simp only [RetryPolicy.shouldRetry] at h
    split at h <;> cases h
  have hops : ∀ op ∈ [(.schedule .zero 2 (.client .sendRequest) : Op Event Unit Unit FifoFrontierPolicy)],
      op.Feeds fun key e => e = .client .sendRequest ∧ IsClient impatient key :=
    List.forall_mem_singleton.mpr ⟨rfl, _, rfl⟩
  have hpops : ∀ op ∈ List.replicate 12 (.pop : Op Event Unit Unit FifoFrontierPolicy), op.Pops := by
    intro op hop
    rw [List.eq_of_mem_replicate hop]
    trivial
  obtain ⟨a, answers, hrun, hquiet, hwork, -, hclients⟩ :=
    run_concluded 0 fresh_impatient hcapacity hpolicy hops hpops (by decide) (by decide)
  obtain ⟨c, hc, hasked, -, hsum, -⟩ := hclients 2 _ rfl
  exact ⟨a, answers, c, hrun, hquiet, hwork, hc, hasked, hsum⟩

end Node

end DesCartes.Service
