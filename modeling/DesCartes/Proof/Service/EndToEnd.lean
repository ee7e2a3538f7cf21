import DesCartes.Impl.Service.Node
import DesCartes.Proof.Assembly
import DesCartes.Proof.Service.Server
import DesCartes.Proof.Service.SimpleClient

/-!
# The attempts of clients, at the servers and back

Servers and clients, any number of each, in one simulation whose owner only asks the clients to send
requests. What holds of each of them is shown for each alone (`Assembly.run_local`): `Server.Kept`, and
`SimpleClient.Attending`. What goes from one to the other is counted (`Assembly.run_post`), at the
server of a client and at the client.

* `run_answered`: a client gets no response but to an attempt that it has sent, and none twice;
* `run_settled`: when no event is left, each attempt has been answered once, each request is
  concluded, and no server has anything left to do.
-/

namespace DesCartes.Service

/-- The attempt that a call of `schedule` sends, its server and its client. -/
def requested? (send : Send Event) : Option (Uuid × Received) :=
  match send.event with
  | .server (.processRequest attempt clientId) => some (send.target, attempt, clientId)
  | _ => none

/-- The attempts that are sent, with their servers and clients. -/
def requested {κ : Type} (hs : List (Handled κ Event Empty)) : List (Uuid × Received) :=
  hs.flatMap fun h => h.sends.filterMap requested?

/-! ## A client -/

namespace SimpleClient

variable {P : Type}

/-- The event that an attempt has timed out. -/
def timeoutOf (request : RequestId) (attempt : RequestAttemptId) : Event :=
  .client (.requestTimeout request attempt)

/-- For each active request the event is pending that its current attempt has timed out, or that it
is retried. -/
def Attended (c : SimpleClient P) (pending : List Event) : Prop :=
  ∀ request attempt policy, c.activeRequests.lookup request = some (attempt, policy) →
    timeoutOf request attempt.id ∈ pending ∨ retryOf request ∈ pending

variable {self : Uuid} {now : SimTime} {c c' : SimpleClient P} {event : Event} {pending : List Event}
  {sends : List (Send Event)}

theorem mem_sendAttempt (c : SimpleClient P) (request : RequestId) (attemptNumber : Nat) :
    timeoutOf request (c.sendAttempt self now request attemptNumber).1.id ∈
      (c.sendAttempt self now request attemptNumber).2.2.filterMap (Send.eventFor self) :=
  List.mem_filterMap.mpr ⟨_, List.mem_cons_self, if_pos rfl⟩

/-- The requests but for one are as before, and the event that is processed is none of theirs. -/
theorem Attended.rest (h : c.Attended (event :: pending)) {request : RequestId} {new : List Event}
    (hothers : ∀ r, r ≠ request → c'.activeRequests.lookup r = c.activeRequests.lookup r)
    (hevent : ∀ r attempt policy, r ≠ request → c.activeRequests.lookup r = some (attempt, policy) →
      event ≠ timeoutOf r attempt.id ∧ event ≠ retryOf r)
    (hnew : ∀ attempt policy, c'.activeRequests.lookup request = some (attempt, policy) →
      timeoutOf request attempt.id ∈ new ∨ retryOf request ∈ new) : c'.Attended (new ++ pending) := by
  intro r attempt policy hr
  by_cases he : r = request
  · subst he
    exact (hnew attempt policy hr).imp (List.mem_append_left _) (List.mem_append_left _)
  · rw [hothers r he] at hr
    obtain ⟨htimeout, hretry⟩ := hevent r attempt policy he hr
    refine (h r attempt policy hr).imp (fun hmem => ?_) fun hmem => ?_
    · exact List.mem_append_right _ ((List.mem_cons.mp hmem).resolve_left (Ne.symm htimeout))
    · exact List.mem_append_right _ ((List.mem_cons.mp hmem).resolve_left (Ne.symm hretry))

variable [RetryPolicy P]

/-- Every event keeps that the active requests are attended to. -/
theorem Attended.processEvent (h : c.Attended (event :: pending))
    (hp : code.processEvent c self event now = some (c', sends)) :
    c'.Attended (sends.filterMap (Send.eventFor self) ++ pending) := by
  by_cases hretry : ∃ request, event = retryOf request
  · obtain ⟨request, rfl⟩ := hretry
    obtain ⟨rfl, rfl⟩ := Prod.ext_iff.mp (Option.some.inj hp)
    have hevent : ∀ r attempt (policy : P), r ≠ request →
        c.activeRequests.lookup r = some (attempt, policy) →
          retryOf request ≠ timeoutOf r attempt.id ∧ retryOf request ≠ retryOf r := by
      intro r attempt policy hne _
      refine ⟨fun he => (by cases he), fun he => hne ?_⟩
      cases he
      rfl
    cases hactive : c.activeRequests.lookup request with
    | none =>
      simp only [handleRetry, hactive]
      refine h.rest (fun _ _ => rfl) hevent fun attempt policy hr => ?_
      rw [hactive] at hr
      cases hr
    | some entry =>
      simp only [handleRetry, hactive]
      refine h.rest (fun r hne => ?_) hevent fun attempt policy hr => .inl ?_
      · exact (AList.lookup_insert_ne hne).trans (AList.lookup_erase_ne hne)
      · rw [AList.lookup_insert, Option.some.injEq, Prod.mk.injEq] at hr
        obtain ⟨rfl, -⟩ := hr
        exact mem_sendAttempt ..
  · have hasked : ∀ {request : RequestId}, failure? c (.inl event) = some request →
        ∀ r attempt (policy : P),
          r ≠ request → c.activeRequests.lookup r = some (attempt, policy) →
          event ≠ timeoutOf r attempt.id ∧ event ≠ retryOf r := by
      refine fun {request} hask r attempt policy hne hr => ⟨?_, fun he => hretry ⟨r, he⟩⟩
      rintro rfl
      simp only [timeoutOf, failure?, hr, Option.any_some, decide_true, if_true,
        Option.some.injEq] at hask
      exact hne hask
    cases moved hp with
    | begun =>
      refine h.rest (fun (r : RequestId) (hne : r ≠ ⟨c.nextRequestId⟩) => ?_)
        (fun r attempt policy _ _ => ?_)
        fun attempt policy hr => .inl ?_
      · exact AList.lookup_insert_ne hne
      · exact ⟨fun he => (by cases he), fun he => (by cases he)⟩
      · rw [sendRequest, AList.lookup_insert, Option.some.injEq, Prod.mk.injEq] at hr
        obtain ⟨rfl, -⟩ := hr
        exact mem_sendAttempt ..
    | ignored _ hnone =>
      intro r attempt policy hr
      refine (h r attempt policy hr).imp (fun hmem => ?_) fun hmem => ?_
      · refine (List.mem_cons.mp hmem).resolve_left ?_
        rintro rfl
        simp [timeoutOf, failure?, hr] at hnone
      · exact (List.mem_cons.mp hmem).resolve_left fun he => hretry ⟨r, he.symm⟩
    | @succeeded response entry m _ hactive _ _ =>
      refine h.rest (fun r hne => AList.lookup_erase_ne hne)
        (fun r attempt policy _ _ => ?_) fun attempt policy hr => ?_
      · exact ⟨fun he => (by cases he), fun he => (by cases he)⟩
      · rw [AList.lookup_erase] at hr
        cases hr
    | @granted _ request _ _ _ _ delay _ hask _ hactive _ _ _ =>
      refine h.rest (fun r (hne : r ≠ request) => AList.lookup_insert_ne hne)
        (hasked hask) fun _ _ _ => .inr ?_
      simp [Send.eventFor, retryOf]
    | @failed _ request _ _ _ _ _ hask _ hactive _ _ _ =>
      refine h.rest (fun r (hne : r ≠ request) => AList.lookup_erase_ne hne)
        (hasked hask) fun attempt policy hr => ?_
      rw [AList.lookup_erase] at hr
      cases hr
    | retried => exact absurd ⟨_, rfl⟩ hretry

/-- What an event makes a client send: no response, and an attempt with the next number, or none. -/
theorem Moved.requests (hm : c.Moved self now event c' sends) :
    c'.serverKey = c.serverKey ∧ sends.filterMap reply? = [] ∧
    (sends.filterMap requested? = [] ∧ c'.nextAttemptId = c.nextAttemptId ∨
      ∃ attempt, attempt.id = ⟨c.nextAttemptId⟩ ∧ sends.filterMap requested? =
        [(c.serverKey, attempt, self)] ∧
        c'.nextAttemptId = c.nextAttemptId + 1) := by
  cases hm with
  | begun => exact ⟨rfl, rfl, .inr ⟨_, rfl, rfl, rfl⟩⟩
  | retried hactive =>
    simp only [handleRetry, hactive]
    exact ⟨rfl, rfl, .inr ⟨_, rfl, rfl, rfl⟩⟩
  | _ => exact ⟨rfl, rfl, .inl ⟨rfl, rfl⟩⟩

/-- No event that completes a request is sent by a client. -/
theorem Moved.not_completion (hm : c.Moved self now event c' sends) :
    ∀ send ∈ sends, send.event.isCompletion = false := by
  cases hm with
  | begun => simp [sendRequest, sendAttempt, Event.isCompletion]
  | retried hactive => simp [handleRetry, hactive, sendAttempt, Event.isCompletion]
  | granted => simp [Event.isCompletion]
  | _ => exact List.forall_mem_nil _

/-- What holds of a client of the server, its pending events and its history. -/
structure Attending {κ : Type} (key serverKey : Uuid) (c : SimpleClient P) (pending : List Event)
    (hs : List (Handled κ Event Empty)) : Prop where
  server : c.serverKey = serverKey
  counted : ∃ out, c.Counted out
  attended : c.Attended pending
  silent : responses hs = []
  sent : ∃ attempts : List RequestAttempt,
    requested hs = attempts.map (fun attempt => (serverKey, attempt, key)) ∧
    attempts.map (·.id) = (List.range' 1 (c.nextAttemptId - 1)).map RequestAttemptId.mk ∧
    1 ≤ c.nextAttemptId

theorem Attending.processEvent {κ : Type} {serverKey : Uuid} {hs : List (Handled κ Event Empty)}
    {before after : κ} (h : c.Attending self serverKey (event :: pending) hs)
    (hp : code.processEvent c self event now = some (c', sends)) :
    c'.Attending self serverKey (sends.filterMap (Send.eventFor self) ++ pending)
      (hs ++ [⟨before, .inl event, now, after, sends⟩]) := by
  obtain ⟨hkey, hreply, hsent⟩ := (moved hp).requests
  obtain ⟨out, hcounted⟩ := h.counted
  obtain ⟨attempts, hattempts, hids, hone⟩ := h.sent
  refine ⟨hkey.trans h.server, ⟨_, (moved hp).counted hcounted⟩, h.attended.processEvent hp, ?_, ?_⟩
  · have hsilent := h.silent
    simp only [responses] at hsilent ⊢
    rw [List.flatMap_append, hsilent, List.flatMap_singleton, hreply]
    rfl
  have happend : requested (hs ++ [⟨before, .inl event, now, after, sends⟩]) =
      requested hs ++ sends.filterMap requested? := by
    simp [requested]
  rw [happend, hattempts]
  rcases hsent with ⟨hnone, hnext⟩ | ⟨attempt, hid, hsome, hnext⟩
  · exact ⟨attempts, by rw [hnone, List.append_nil], by rw [hnext]; exact hids, hnext ▸ hone⟩
  · refine ⟨attempts ++ [attempt], ?_, ?_, hnext ▸ Nat.le_add_left 1 _⟩
    · rw [hsome, h.server, List.map_append]
      rfl
    · have hrange : List.range' 1 c.nextAttemptId = List.range' 1
          (c.nextAttemptId - 1) ++ [c.nextAttemptId] := by
        obtain ⟨n, hn⟩ := Nat.exists_eq_add_of_le' hone
        rw [hn, List.range'_1_concat, Nat.add_sub_cancel, Nat.add_comm 1]
      rw [hnext, Nat.add_sub_cancel, hrange, List.map_append, List.map_append, hids,
        List.map_singleton, List.map_singleton, hid]

end SimpleClient

/-! ## A server -/

namespace Server

variable {δ : Type} [ServiceTimeDistribution δ] {self : Uuid} {now : SimTime} {s s' : Server δ}
  {event : Event}
  {sends : List (Send Event)}

/-- What a server sends: responses, and events for itself. -/
theorem sends_processEvent (hp : code.processEvent s self event now = some (s', sends)) :
    ∀ send ∈ sends, (∃ response, send.event = .client (.responseReceived response)) ∨
      send.target = self ∧ requested? send = none ∧ ∃ e, send.event = .server e := by
  have hloop : ∀ (n : Nat) (s : Server δ), ∀ send ∈ (s.processQueuedLoop self n).2,
      send.target = self ∧ requested? send = none ∧ ∃ e, send.event = .server e := by
    intro n
    induction n with
    | zero => simp [processQueuedLoop]
    | succ n ih =>
      intro s send hsend
      simp only [processQueuedLoop] at hsend
      split at hsend
      · split at hsend
        · cases hsend
        · split at hsend
          · cases hsend
          · rcases List.mem_cons.mp hsend with rfl | hsend
            · exact ⟨rfl, rfl, _, rfl⟩
            · exact ih _ send hsend
      · cases hsend
  rcases event with (⟨attempt, clientId⟩ | ⟨attemptId, requestId, clientId, payload⟩ | _) | event
  · obtain ⟨rfl, rfl⟩ := Prod.ext_iff.mp (Option.some.inj hp)
    simp only [handleRequest]
    split
    · simp [startProcessingRequest, requested?]
    · split
      · simp [rejectRequest]
      · split <;> simp [rejectRequest]
  · obtain ⟨rfl, rfl⟩ := Prod.ext_iff.mp (Option.some.inj hp)
    simp only [completeRequest]
    split <;> simp [requested?]
  · obtain ⟨rfl, rfl⟩ := Prod.ext_iff.mp (Option.some.inj hp)
    exact fun send hsend => .inr (hloop _ _ send hsend)
  · cases hp

end Server

/-! ## Each of them in a run -/

namespace Node

variable {δ P : Type}

/-- A component that has just been made; a client is made for a server that there is. -/
inductive Fresh (nodes : Uuid → Option (Node δ P)) : Node δ P → Prop
  | server (threadCapacity : Nat) (d : δ) {queue : Option Queue} : (∀ q ∈ queue, q.Fresh) →
    Fresh nodes (.server (.new threadCapacity d queue))
  | client (name : List Char) {serverKey : Uuid} {s : Server δ} (policy : P) (requestTimeout : Nat) :
    nodes serverKey = some (.server s) →
    Fresh nodes (.client ((SimpleClient.new name serverKey policy).withTimeout requestTimeout))

/-- What a server has done. -/
def ofServer (h : Handled (Server δ) Event Empty) : Handled (Node δ P) Event Empty :=
  ⟨.server h.before, h.input, h.now, .server h.after, h.sends⟩

/-- What holds of a component, its pending events and its history. -/
def Keeps (nodes : Uuid → Option (Node δ P)) (key : Uuid) (node : Node δ P) (pending : List Event)
    (hs : List (Handled (Node δ P) Event Empty)) : Prop :=
  match node with
  | .server s => ∃ s₀ hs', nodes key = some (.server s₀) ∧ s.threadCapacity = s₀.threadCapacity ∧
      hs = hs'.map ofServer ∧ s.Kept pending hs'
  | .client c => ∃ c₀, nodes key = some (.client c₀) ∧ c.Attending key c₀.serverKey pending hs

variable {nodes : Uuid → Option (Node δ P)} {key : Uuid} {node node' : Node δ P} {pending : List Event}
  {hs : List (Handled (Node δ P) Event Empty)} {now : SimTime} {event : Event} {sends : List (Send Event)}

theorem Keeps.perm {pending' : List Event} (h : node.Keeps nodes key pending hs)
    (hperm : pending.Perm pending') :
    node.Keeps nodes key pending' hs := by
  cases node with
  | server s =>
    obtain ⟨s₀, hs', h₀, hcapacity, rfl, hkept⟩ := h
    exact ⟨s₀, hs', h₀, hcapacity, rfl, by rwa [Server.Kept, ← Multiset.coe_eq_coe.mpr hperm]⟩
  | client c =>
    obtain ⟨c₀, h₀, hserver, hcounted, hattended, hsilent, hsent⟩ := h
    refine ⟨c₀, h₀, hserver, hcounted, fun r attempt policy hr => ?_, hsilent, hsent⟩
    exact (hattended r attempt policy hr).imp (fun hmem => hperm.mem_iff.mp hmem) fun hmem =>
      hperm.mem_iff.mp hmem

/-- An event arrives that completes nothing. -/
theorem Keeps.arrive (h : node.Keeps nodes key pending hs) (he : event.isCompletion = false) :
    node.Keeps nodes key (event :: pending) hs := by
  cases node with
  | server s =>
    obtain ⟨s₀, hs', h₀, hcapacity, rfl, ⟨l, hb⟩, hd⟩ := h
    refine ⟨s₀, hs', h₀, hcapacity, rfl, ⟨l, hb.of_filter ?_⟩, Server.Drained.append hd [event]⟩
    exact Server.filter_add_of_not_completion (n := [event]) (List.forall_mem_singleton.mpr he) pending
  | client c =>
    obtain ⟨c₀, h₀, hserver, hcounted, hattended, hsilent, hsent⟩ := h
    refine ⟨c₀, h₀, hserver, hcounted, fun r attempt policy hr => ?_, hsilent, hsent⟩
    exact (hattended r attempt policy hr).imp (List.mem_cons_of_mem _) (List.mem_cons_of_mem _)

theorem Fresh.keeps (h : node.Fresh nodes) (hkey : nodes key = some node) :
    node.Keeps nodes key [] [] := by
  cases h with
  | server threadCapacity d hq => exact ⟨_, [], hkey, rfl, rfl, Server.kept_new threadCapacity d hq⟩
  | client name policy requestTimeout hserver =>
    exact ⟨_, hkey, rfl, ⟨[], nofun, rfl, List.nodup_nil, nofun, rfl⟩,
      fun r attempt policy hr => (by cases hr),
      rfl, [], rfl, rfl, le_rfl⟩

variable [ServiceTimeDistribution δ] [RetryPolicy P]

/-- A component sends to others nothing that completes a request. -/
theorem not_completion (hp : code.processEvent node key event now = some (node', sends))
    {send : Send Event} (hsend : send ∈ sends) (htarget : send.target ≠ key) :
    send.event.isCompletion = false := by
  cases node with
  | server s =>
    simp only [code, Option.map_eq_some_iff, Prod.mk.injEq, Prod.exists] at hp
    obtain ⟨s', sends', hs, -, rfl⟩ := hp
    rcases Server.sends_processEvent hs send hsend with ⟨response, he⟩ | ⟨hself, -⟩
    · rw [he]
      rfl
    · exact absurd hself htarget
  | client c =>
    simp only [code, Option.map_eq_some_iff, Prod.mk.injEq, Prod.exists] at hp
    obtain ⟨c', sends', hc, -, rfl⟩ := hp
    exact (SimpleClient.moved hc).not_completion send hsend

theorem Keeps.processEvent (h : node.Keeps nodes key (event :: pending) hs)
    (hp : code.processEvent node key event now = some (node', sends)) :
    node'.Keeps nodes key (sends.filterMap (Send.eventFor key) ++ pending)
      (hs ++ [⟨node, .inl event, now, node', sends⟩]) := by
  cases node with
  | server s =>
    simp only [code, Option.map_eq_some_iff, Prod.mk.injEq, Prod.exists] at hp
    obtain ⟨s', sends', hs', rfl, rfl⟩ := hp
    obtain ⟨s₀, hs, h₀, hcapacity, rfl, hkept⟩ := h
    exact ⟨s₀, hs ++ [⟨s, .inl event, now, s', sends'⟩], h₀,
      (Server.threadCapacity_processEvent hs').trans hcapacity,
      by simp [ofServer], hkept.processEvent hs'⟩
  | client c =>
    simp only [code, Option.map_eq_some_iff, Prod.mk.injEq, Prod.exists] at hp
    obtain ⟨c', sends', hc, rfl, rfl⟩ := hp
    obtain ⟨c₀, h₀, hattending⟩ := h
    exact ⟨c₀, h₀, hattending.processEvent hc⟩

variable {τ ρ φ : Type} [EventFrontierPolicy φ] {seed : BitVec 64} {ops : List (Op Event τ ρ φ)}
  {a : Assembly (Node δ P) Event τ ρ} {answers : List (Assembly.Answer (Node δ P) Event Empty)}

open Assembly

/-- In every run, if only the components send anything but requests to send requests. -/
theorem run_keeps (hnodes : ∀ key node, nodes key = some node → node.Fresh nodes)
    (hops : ∀ delay key e, .schedule delay key e ∈ ops → nodes key ≠ none → e = .client .sendRequest)
    (hrun : Machine.run (step code) ⟨nodes, .fresh seed⟩ ops = some (a, answers)) :
    (∀ key, a.components key = none ↔ nodes key = none) ∧
    ∀ key node, a.components key = some node →
    node.Keeps nodes key (a.session.inbox key) (historyOf key answers) :=
  run_local (I := fun _ e => e.isCompletion = false) (Q := fun key node => node.Keeps nodes key)
    (fun _ _ _ _ _ hperm h => h.perm hperm) (fun _ _ _ _ _ he h => h.arrive he)
    (fun _ _ _ _ _ _ hp _ hsend htarget => not_completion hp hsend htarget)
    (fun _ _ _ _ _ _ _ _ hp h => h.processEvent hp)
    (fun delay key e he hkey => by rw [hops delay key e he hkey]; rfl)
    (fun key node hkey => (hnodes key node hkey).keeps hkey) hrun

/-! ## From a client to its server and back -/

/-- The attempt of the client that an event asks a server to process. -/
def askedBy (client : Uuid) : Event → Option RequestAttempt
  | .server (.processRequest attempt clientId) => if clientId = client then some attempt else none
  | _ => none

/-- The response that an event is. -/
def response? : Event → Option Response
  | .client (.responseReceived response) => some response
  | _ => none

/-- The attempts that a client has sent. -/
def attemptsOf (client : Uuid) (answers : List (Assembly.Answer (Node δ P) Event Empty)) :
    List RequestAttempt :=
  (requested (historyOf client answers)).map (·.2.1)

/-- The responses that a client has been given. -/
def responsesTo (client : Uuid) (answers : List (Assembly.Answer (Node δ P) Event Empty)) :
    List Response :=
  (taken (historyOf client answers)).filterMap response?

/-- A response to an attempt: it was processed, and its payload is returned, or it was rejected. -/
def AnsweredBy (attempt : RequestAttempt) (response : Response) : Prop :=
  response.attemptId = attempt.id ∧ response.requestId = attempt.requestId ∧
    (response.payload = attempt.payload ∧ response.status = .ok ∨
      response.payload = [] ∧ response.status = .error 503 "Server overloaded".toList)

/-- The reply that a response is. -/
def replyOf (client : Uuid) (response : Response) : Reply :=
  (client, response.attemptId, response.requestId, response.payload, response.status)

omit [ServiceTimeDistribution δ] [RetryPolicy P] in
theorem answeredBy_iff (client : Uuid) (attempt : RequestAttempt) (response : Response) :
    AnsweredBy attempt response ↔
      replyOf client response = served (attempt, client) ∨
      replyOf client response = refused (attempt, client) := by
  simp only [AnsweredBy, replyOf, served, refused, Prod.mk.injEq, true_and]
  tauto

theorem sends_server {s : Server δ}
    (hp : code.processEvent (.server s : Node δ P) key event now = some (node', sends)) :
    sends.filterMap requested? = [] := by
  simp only [code, Option.map_eq_some_iff, Prod.mk.injEq, Prod.exists] at hp
  obtain ⟨s', sends', hs, -, rfl⟩ := hp
  refine List.filterMap_eq_nil_iff.mpr fun send hsend => ?_
  rcases Server.sends_processEvent hs send hsend with ⟨response, he⟩ | ⟨-, hnone, -⟩
  · simp [requested?, he]
  · exact hnone

theorem sends_client {c : SimpleClient P}
    (hp : code.processEvent (.client c : Node δ P) key event now = some (node', sends)) :
    sends.filterMap reply? = [] ∧ ∀ r ∈ sends.filterMap requested?, r.2.2 = key := by
  simp only [code, Option.map_eq_some_iff, Prod.mk.injEq, Prod.exists] at hp
  obtain ⟨c', sends', hc, -, rfl⟩ := hp
  obtain ⟨-, hreply, ⟨hnone, -⟩ | ⟨attempt, -, hsome, -⟩⟩ := (SimpleClient.moved hc).requests
  · exact ⟨hreply, hnone ▸ List.forall_mem_nil _⟩
  · exact ⟨hreply, hsome ▸ List.forall_mem_singleton.mpr rfl⟩

/-- The attempts of a client are those that it has sent. -/
theorem filter_requested (client : Uuid)
    (hrun : Machine.run (step code) ⟨nodes, .fresh seed⟩ ops = some (a, answers)) :
    ((sent answers).filterMap requested?).filter (·.2.2 = client) =
      (requested (historyOf client answers)).filter (·.2.2 = client) := by
  refine filter_sent fun o key ⟨before, input, now, after, sends⟩ hx hne r hr => ?_
  obtain ⟨-, event, -, hp⟩ := run_performed hrun hx
  cases before with
  | server s =>
    rw [sends_server hp] at hr
    cases hr
  | client c => simpa [(sends_client hp).2 r hr] using hne

/-- What is sent to a component and is of one kind. -/
theorem filterMap_eventFor {β : Type} (key : Uuid) (f : Event → Option β) (l : List (Send Event)) :
    (l.filterMap (Send.eventFor key)).filterMap f = l.filterMap fun send =>
      if send.target = key then f send.event else none := by
  rw [List.filterMap_filterMap]
  refine List.filterMap_congr fun send _ => ?_
  by_cases h : send.target = key <;> simp [Send.eventFor, h]

section

variable {client : Uuid} {c₀ : SimpleClient P}
  (hnodes : ∀ key node, nodes key = some node → node.Fresh nodes)
  (hops : ∀ delay key e, .schedule delay key e ∈ ops → nodes key ≠ none → e = .client .sendRequest)
  (hrun : Machine.run (step code) ⟨nodes, .fresh seed⟩ ops = some (a, answers))
  (hclient : nodes client = some (.client c₀))

include hnodes hops hrun hclient

/-- A client and its history after the run. -/
theorem exists_client : ∃ c, a.components client = some (.client c) ∧
    c.Attending client c₀.serverKey (a.session.inbox client) (historyOf client answers) := by
  obtain ⟨hdomain, hkeeps⟩ := run_keeps hnodes hops hrun
  cases hnode : a.components client with
  | none =>
    rw [(hdomain client).mp hnode] at hclient
    cases hclient
  | some node =>
    have hkept := hkeeps client node hnode
    cases node with
    | server s =>
      obtain ⟨s₀, -, h₀, -⟩ := hkept
      rw [h₀] at hclient
      cases hclient
    | client c =>
      obtain ⟨c₁, h₁, hattending⟩ := hkept
      rw [hclient] at h₁
      cases h₁
      exact ⟨c, rfl, hattending⟩

/-- What the client sends goes to its server. -/
theorem requested_client : ((sent answers).filterMap requested?).filter (·.2.2 = client) =
    (attemptsOf client answers).map fun attempt => (c₀.serverKey, attempt, client) := by
  obtain ⟨c, -, -, -, -, -, attempts, hattempts, -⟩ := exists_client hnodes hops hrun hclient
  rw [filter_requested client hrun, attemptsOf, hattempts, List.filter_eq_self.mpr (by simp)]
  simp [Function.comp_def]

/-- The attempts of the client are on the way to a server only if that is its own, or have been
taken by it. -/
theorem taken_server {key : Uuid} (hkey : nodes key ≠ none) :
    ((a.session.inbox key ++ taken (historyOf key answers)).filterMap (askedBy client)).Perm
      (if key = c₀.serverKey then attemptsOf client answers else []) := by
  have hperm := run_post hkey hrun
  unfold Posted at hperm
  have hempty : (Session.fresh seed : Session Event τ ρ).inbox key = [] := rfl
  have hnone : (ops.filterMap (Op.eventFor key)).filterMap (askedBy client) = [] := by
    refine List.filterMap_eq_nil_iff.mpr fun e he => ?_
    obtain ⟨delay, hop⟩ := Op.mem_filterMap_eventFor.mp he
    rw [hops delay key e hop hkey]
    rfl
  have hsent : ((sent answers).filterMap (Send.eventFor key)).filterMap (askedBy client) =
      (((sent answers).filterMap requested?).filter (·.2.2 = client)).filterMap
        fun r => if r.1 = key then some r.2.1 else none := by
    rw [filterMap_eventFor, List.filter_filterMap, List.filterMap_filterMap]
    refine List.filterMap_congr fun ⟨delay, target, event⟩ _ => ?_
    rcases event with (⟨attempt, clientId⟩ | _ | _) | event
    · by_cases hc : clientId = client <;> simp [requested?, askedBy, Option.filter, hc]
    all_goals simp [requested?, askedBy]
  rw [requested_client hnodes hops hrun hclient] at hsent
  rw [hempty, List.append_nil] at hperm
  have hall := hperm.symm.filterMap (askedBy client)
  rw [List.filterMap_append, List.filterMap_append, hnone, hsent, List.nil_append,
    List.filterMap_map] at hall
  rw [List.filterMap_append]
  refine hall.trans (.of_eq ?_)
  split
  · rename_i he
    simp [he]
  · rename_i hne
    simp [Ne.symm hne]

end

/-- The attempts of the client among the requests that a server has taken. -/
def own (client : Uuid) (l : Multiset Received) : Multiset RequestAttempt :=
  (l.filter (·.2 = client)).map (·.1)

omit [ServiceTimeDistribution δ] [RetryPolicy P] in
theorem askedBy_taken (client : Uuid) (hs : List (Handled (Node δ P) Event Empty)) :
    (((taken hs).filterMap (askedBy client) : List RequestAttempt) : Multiset RequestAttempt) =
      own client (requests hs) := by
  rw [own, Multiset.filter_coe, Multiset.map_coe, taken, requests, List.filterMap_filterMap,
    List.filter_filterMap,
    List.map_filterMap]
  refine congrArg _ (List.filterMap_congr fun x _ => ?_)
  obtain ⟨before, (⟨⟨attempt, clientId⟩ | _ | _⟩ | _) | _, now, after, sends⟩ := x
  · by_cases hc : clientId = client <;> simp [askedBy, received?, Option.filter, hc]
  all_goals simp [askedBy, received?]

section

variable {key : Uuid} {s₀ : Server δ} (hnodes : ∀ key node, nodes key = some node → node.Fresh nodes)
  (hops : ∀ delay key e, .schedule delay key e ∈ ops → nodes key ≠ none → e = .client .sendRequest)
  (hrun : Machine.run (step code) ⟨nodes, .fresh seed⟩ ops = some (a, answers))

include hnodes hops hrun

/-- A server after the run, and its ledger. -/
theorem exists_server (hserver : nodes key = some (.server s₀)) :
    ∃ s l, a.components key = some (.server s) ∧ s.threadCapacity = s₀.threadCapacity ∧
      s.Balanced (a.session.inbox key) (requests (historyOf key answers))
        (responses (historyOf key answers)) l ∧
      s.Drained (a.session.inbox key) := by
  obtain ⟨hdomain, hkeeps⟩ := run_keeps hnodes hops hrun
  cases hnode : a.components key with
  | none =>
    rw [(hdomain key).mp hnode] at hserver
    cases hserver
  | some node =>
    have hkept := hkeeps key node hnode
    cases node with
    | server s =>
      obtain ⟨s₁, hs, h₁, hcapacity, hhistory, ⟨l, hb⟩, hd⟩ := hkept
      rw [hserver] at h₁
      cases h₁
      have hrequests : requests (historyOf key answers) = requests hs := by
        rw [hhistory, requests, requests, List.filterMap_map]
        rfl
      have hresponses : responses (historyOf key answers) = responses hs := by
        rw [hhistory, responses, responses, List.flatMap_map]
        rfl
      exact ⟨s, l, rfl, hcapacity, by rwa [hrequests, hresponses], hd⟩
    | client c =>
      obtain ⟨c₁, h₁, -⟩ := hkept
      rw [h₁] at hserver
      cases hserver

/-- A component that has sent a response to the client has taken a request from it. -/
theorem exists_taken {client : Uuid} {reply : Reply}
    (hreply : reply ∈ responses (historyOf key answers)) (hto : reply.1 = client)
    (hkey : nodes key ≠ none) :
    (taken (historyOf key answers)).filterMap (askedBy client) ≠ [] := by
  obtain ⟨node, hnode⟩ := Option.ne_none_iff_exists'.mp hkey
  cases node with
  | server s₀ =>
    obtain ⟨s, l, -, -, hb, -⟩ := exists_server hnodes hops hrun hnode
    have hmem : reply ∈ l.processed.map served + l.rejected.map refused :=
      hb.sent ▸ Multiset.mem_coe.mpr hreply
    obtain ⟨r, hr, rfl⟩ : ∃ r ∈ l.processed + l.rejected, r.2 = client := by
      rcases Multiset.mem_add.mp hmem with hmem | hmem
      · obtain ⟨r, hr, rfl⟩ := Multiset.mem_map.mp hmem
        exact ⟨r, Multiset.mem_add.mpr (.inl hr), hto⟩
      · obtain ⟨r, hr, rfl⟩ := Multiset.mem_map.mp hmem
        exact ⟨r, Multiset.mem_add.mpr (.inr hr), hto⟩
    have hown : r.1 ∈ own r.2 (requests (historyOf key answers)) := by
      rw [hb.received, Multiset.add_assoc]
      exact Multiset.mem_map_of_mem _ (Multiset.mem_filter.mpr ⟨Multiset.mem_add.mpr (.inl hr), rfl⟩)
    rw [← askedBy_taken, Multiset.mem_coe] at hown
    exact List.ne_nil_of_mem hown
  | client c₀ =>
    obtain ⟨c, -, hattending⟩ := exists_client hnodes hops hrun hnode
    rw [hattending.silent] at hreply
    cases hreply

variable {client : Uuid} {c₀ : SimpleClient P} (hclient : nodes client = some (.client c₀))

include hclient

/-- The responses to the client are sent by its server. -/
theorem filter_replies : ((sent answers).filterMap reply?).filter (·.1 = client) =
    (responses (historyOf c₀.serverKey answers)).filter (·.1 = client) := by
  refine filter_sent fun o key x hx hne reply hreply hto => ?_
  obtain ⟨hkey, -⟩ := run_performed hrun hx
  have hmem : reply ∈ responses (historyOf key answers) :=
    List.mem_flatMap.mpr ⟨x, mem_historyOf hx, hreply⟩
  refine exists_taken hnodes hops hrun hmem (of_decide_eq_true hto) hkey ?_
  have hperm := taken_server hnodes hops hrun hclient hkey
  rw [if_neg hne, List.perm_nil, List.filterMap_append, List.append_eq_nil_iff] at hperm
  exact hperm.2

/-- The responses that are on the way to the client or have been given to it. -/
theorem replies_client :
    ((a.session.inbox client ++ taken (historyOf client answers)).filterMap response?).map
      (replyOf client) |>.Perm
      ((responses (historyOf c₀.serverKey answers)).filter (·.1 = client)) := by
  have hkey : nodes client ≠ none := hclient ▸ Option.some_ne_none _
  have hperm := run_post hkey hrun
  unfold Posted at hperm
  have hempty : (Session.fresh seed : Session Event τ ρ).inbox client = [] := rfl
  have hnone : (ops.filterMap (Op.eventFor client)).filterMap response? = [] := by
    refine List.filterMap_eq_nil_iff.mpr fun e he => ?_
    obtain ⟨delay, hop⟩ := Op.mem_filterMap_eventFor.mp he
    rw [hops delay client e hop hkey]
    rfl
  have hsent : (((sent answers).filterMap (Send.eventFor client)).filterMap response?).map
      (replyOf client) =
        ((sent answers).filterMap reply?).filter (·.1 = client) := by
    rw [filterMap_eventFor, List.filter_filterMap, List.map_filterMap]
    refine List.filterMap_congr fun ⟨delay, target, event⟩ _ => ?_
    rcases event with event | (_ | response | _ | _)
    · simp [reply?, response?]
    · simp [reply?, response?]
    · by_cases ht : target = client <;> simp [reply?, response?, replyOf, Option.filter, ht]
    all_goals simp [reply?, response?]
  rw [hempty, List.append_nil] at hperm
  have hall := (hperm.symm.filterMap response?).map (replyOf client)
  rw [List.filterMap_append, List.filterMap_append, hnone, List.nil_append, hsent] at hall
  rw [← filter_replies hnodes hops hrun hclient, List.filterMap_append]
  exact hall

omit hnodes hops hrun hclient [ServiceTimeDistribution δ] [RetryPolicy P] [EventFrontierPolicy φ] in
/-- The responses to a client of a server with the ledger. -/
theorem rel_answeredBy {processed rejected : Multiset Received} {responses : List Response}
    (h : (responses.map (replyOf client) : Multiset Reply) =
      (processed.map served + rejected.map refused).filter (·.1 = client)) :
    Multiset.Rel AnsweredBy (own client processed + own client rejected) responses := by
  have hserved : (processed.map served).filter (·.1 = client) = (own client processed).map fun r =>
    served (r, client) := by
    rw [Multiset.filter_map, own, Multiset.map_map]
    refine Multiset.map_congr rfl fun r hr => ?_
    obtain ⟨attempt, clientId⟩ := r
    rw [← (Multiset.mem_filter.mp hr).2]
    rfl
  have hrefused : (rejected.map refused).filter (·.1 = client) = (own client rejected).map fun r =>
    refused (r, client) := by
    rw [Multiset.filter_map, own, Multiset.map_map]
    refine Multiset.map_congr rfl fun r hr => ?_
    obtain ⟨attempt, clientId⟩ := r
    rw [← (Multiset.mem_filter.mp hr).2]
    rfl
  have hrel : Multiset.Rel (fun attempt reply => reply = served (attempt, client) ∨
      reply = refused (attempt, client))
        (own client processed + own client rejected) (responses.map (replyOf client) : List Reply) := by
    rw [h, Multiset.filter_add, hserved, hrefused]
    refine .add (Multiset.rel_map_right.mpr ?_) (Multiset.rel_map_right.mpr ?_)
    · exact Multiset.rel_refl_of_refl_on fun _ _ => .inl rfl
    · exact Multiset.rel_refl_of_refl_on fun _ _ => .inr rfl
  rw [← Multiset.map_coe, Multiset.rel_map_right] at hrel
  exact hrel.mono fun attempt _ response _ hreply => (answeredBy_iff client attempt response).mpr hreply

/-- Where the attempts of the client are, and which of them have been answered. -/
theorem flow :
    ∃ s s₀ l, nodes c₀.serverKey = some (.server s₀) ∧ a.components c₀.serverKey = some (.server s) ∧
    s.Balanced (a.session.inbox c₀.serverKey) (requests (historyOf c₀.serverKey answers))
      (responses (historyOf c₀.serverKey answers)) l ∧
    (attemptsOf client answers : Multiset RequestAttempt) =
      (a.session.inbox c₀.serverKey).filterMap
        (askedBy client) + (own client l.processed + own client l.rejected) +
        (own client l.inService + own client l.queued) ∧
    Multiset.Rel AnsweredBy (own client l.processed + own client l.rejected)
      (responsesTo client answers + (a.session.inbox client).filterMap response?) := by
  obtain ⟨s₀, hserver⟩ : ∃ s₀, nodes c₀.serverKey = some (.server s₀) := by
    cases hnodes client _ hclient with
    | client name policy requestTimeout hserver => exact ⟨_, hserver⟩
  obtain ⟨s, l, hs, -, hb, -⟩ := exists_server hnodes hops hrun hserver
  refine ⟨s, s₀, l, hserver, hs, hb, ?_, ?_⟩
  · have hkey : nodes c₀.serverKey ≠ none := hserver ▸ Option.some_ne_none _
    have hperm := taken_server hnodes hops hrun hclient hkey
    rw [if_pos rfl, List.filterMap_append] at hperm
    rw [← Multiset.coe_eq_coe.mpr hperm, ← Multiset.coe_add, askedBy_taken, hb.received, own,
      Multiset.filter_add,
      Multiset.filter_add, Multiset.filter_add, Multiset.map_add, Multiset.map_add, Multiset.map_add]
    simp only [own, Multiset.add_assoc]
  · have hperm := replies_client hnodes hops hrun hclient
    rw [← Multiset.coe_eq_coe, ← Multiset.filter_coe, hb.sent, List.filterMap_append] at hperm
    have hrel := rel_answeredBy hperm
    rw [← Multiset.coe_add] at hrel
    rw [Multiset.add_comm (responsesTo client answers : Multiset Response)]
    exact hrel

end

section

variable (hnodes : ∀ key node, nodes key = some node → node.Fresh nodes)
  (hops : ∀ delay key e, .schedule delay key e ∈ ops → nodes key ≠ none → e = .client .sendRequest)
  (hrun : Machine.run (step code) ⟨nodes, .fresh seed⟩ ops = some (a, answers))

include hnodes hops hrun

/-- A server with no event pending has nothing to do. -/
theorem settled_server {key : Uuid} {s₀ s : Server δ} (hserver : nodes key = some (.server s₀))
    (hcapacity : 0 < s₀.threadCapacity) (hs : a.components key = some (.server s)) {l : Ledger}
    (hb : s.Balanced (a.session.inbox key) (requests (historyOf key answers))
      (responses (historyOf key answers)) l)
    (hidle : a.session.inbox key = []) : l.inService = 0 ∧ l.queued = 0 := by
  obtain ⟨s', -, hs', hsame, -, hd⟩ := exists_server hnodes hops hrun hserver
  rw [hs] at hs'
  cases hs'
  have hservice : l.inService = 0 := by
    have hpending := hb.pending
    rw [hidle] at hpending
    exact Multiset.map_eq_zero.mp hpending.symm
  have hfree : s.hasCapacity := by
    have hactive := hb.active
    rw [hservice, Multiset.card_zero] at hactive
    rw [Server.hasCapacity, decide_eq_true_eq, hactive, hsame]
    exact hcapacity
  have hwaiting : s.waiting = [] := by
    by_contra hne
    have hmem := hd hfree hne
    rw [hidle] at hmem
    exact absurd hmem (Multiset.notMem_zero _)
  have hqueued := congrArg Multiset.card hb.queued
  rw [hwaiting, Multiset.card_map] at hqueued
  exact ⟨hservice, Multiset.card_eq_zero.mp hqueued.symm⟩

end

/-- In every run of servers and clients, whatever their numbers, in which the owner only asks clients to
send requests: no two attempts of a client have one id, and the responses that a client has been given
answer attempts that it has sent, no two of them the same one. -/
theorem run_answered (seed : BitVec 64) (hnodes : ∀ key node, nodes key = some node → node.Fresh nodes)
    (hops : ∀ delay key e, .schedule delay key e ∈ ops → nodes key ≠ none → e = .client .sendRequest)
    (hrun : Machine.run (step code) ⟨nodes, .fresh seed⟩ ops = some (a, answers))
    {client : Uuid} {c₀ : SimpleClient P} (hclient : nodes client = some (.client c₀)) :
    ((attemptsOf client answers).map (·.id)).Nodup ∧
    ∃ answered unanswered : Multiset RequestAttempt,
      (attemptsOf client answers : Multiset RequestAttempt) = answered + unanswered ∧
      Multiset.Rel AnsweredBy answered (responsesTo client answers) := by
  obtain ⟨c, -, -, -, -, -, attempts, hattempts, hids, -⟩ := exists_client hnodes hops hrun hclient
  obtain ⟨s, s₀, l, -, -, -, hattemptsOf, hrel⟩ := flow hnodes hops hrun hclient
  constructor
  · have hmap : attemptsOf client answers = attempts := by
      rw [attemptsOf, hattempts]
      simp [Function.comp_def]
    rw [hmap, hids]
    exact List.Nodup.map (fun n m h => congrArg RequestAttemptId.id h) List.nodup_range'
  · obtain ⟨answered, rest, hanswered, -, hsum⟩ := Multiset.rel_add_right.mp hrel
    refine ⟨answered, rest + ((a.session.inbox c₀.serverKey).filterMap (askedBy client) +
      (own client l.inService + own client l.queued)), ?_, hanswered⟩
    rw [hattemptsOf, hsum]
    ac_rfl

/-- When no event is left for any of them and every server has a thread: no server has a request, in
service or queued, and each that it was sent it has processed or rejected; and no client has an active
request, each has succeeded or failed permanently, and each of its attempts has been answered, once. -/
theorem run_settled (seed : BitVec 64)
    (hnodes : ∀ key node, nodes key = some node → node.Fresh nodes)
    (hops : ∀ delay key e, .schedule delay key e ∈ ops → nodes key ≠ none → e = .client .sendRequest)
    (hrun : Machine.run (step code) ⟨nodes, .fresh seed⟩ ops = some (a, answers))
    (hcapacity : ∀ key s, nodes key = some (.server s) → 0 < s.threadCapacity)
    (hidle : ∀ key, nodes key ≠ none → a.session.inbox key = []) :
    (∀ key s, a.components key = some (.server s) → s.activeThreads = 0 ∧ s.queueDepth = 0 ∧
      (requests (historyOf key answers)).length = s.requestsProcessed + s.requestsRejected) ∧
    ∀ key c, a.components key = some (.client c) → c.activeRequests.len = 0 ∧
      c.requestsSent = c.metrics.responsesSuccess + c.metrics.requestsFailedPermanently ∧
      Multiset.Rel AnsweredBy (attemptsOf key answers) (responsesTo key answers) := by
  obtain ⟨hdomain, hkeeps⟩ := run_keeps hnodes hops hrun
  refine ⟨fun key s hs => ?_, fun key c hc => ?_⟩
  · obtain ⟨s₀, -, h₀, -⟩ := hkeeps key _ hs
    obtain ⟨s', l, hs', -, hb, -⟩ := exists_server hnodes hops hrun h₀
    rw [hs] at hs'
    cases hs'
    obtain ⟨hservice, hqueued⟩ := settled_server hnodes hops hrun h₀ (hcapacity key s₀ h₀) hs hb
      (hidle key (h₀ ▸ Option.some_ne_none _))
    refine ⟨?_, ?_, ?_⟩
    · rw [hb.active, hservice]
      rfl
    · rw [← Server.length_waiting, ← Multiset.coe_card, hb.queued, hqueued]
      rfl
    · rw [← Multiset.coe_card, hb.received, hservice, hqueued, Multiset.add_zero, Multiset.add_zero,
        Multiset.card_add,
        hb.processed, hb.rejected]
  · obtain ⟨c₀, h₀, hattending⟩ := hkeeps key _ hc
    obtain ⟨s, s₀, l, hserver, hs, hb, hattempts, hrel⟩ := flow hnodes hops hrun h₀
    obtain ⟨hservice, hqueued⟩ := settled_server hnodes hops hrun hserver (hcapacity _ s₀ hserver) hs hb
      (hidle _ (hserver ▸ Option.some_ne_none _))
    have hempty : c.activeRequests.len = 0 := by
      refine List.length_eq_zero_iff.mpr
        (List.eq_nil_iff_forall_not_mem.mpr fun ⟨request, attempt, policy⟩ hmem => ?_)
      have hpending := hattending.attended request attempt policy (AList.mem_lookup_iff.mpr hmem)
      rw [hidle key (h₀ ▸ Option.some_ne_none _)] at hpending
      exact hpending.elim List.not_mem_nil List.not_mem_nil
    obtain ⟨out, hcounted⟩ := hattending.counted
    refine ⟨hempty, by rw [hcounted.counts, hempty, Nat.add_zero], ?_⟩
    rw [hattempts, hidle _ (hserver ▸ Option.some_ne_none _), hservice, hqueued]
    rw [hidle key (h₀ ▸ Option.some_ne_none _)] at hrel
    simpa [own] using hrel

/-- A client with one retry that waits less long than its server needs. -/
def impatient : Uuid → Option (Node ConstantServiceTime FixedRetryPolicy) := fun key =>
  if key = 1 then some (.server (.new 1 ⟨5⟩ none))
  else if key = 2 then some (.client ((SimpleClient.new [] 1 (.new 1 0)).withTimeout 3)) else none

/-- It is asked to send a request, and all events are processed. -/
def impatientRun : List (Op Event Unit Unit FifoFrontierPolicy) :=
  .schedule .zero 2 (.client .sendRequest) :: List.replicate 9 .pop

theorem fresh_impatient : ∀ key node, impatient key = some node → node.Fresh impatient := by
  intro key node hkey
  simp only [impatient] at hkey
  split at hkey
  · cases hkey
    exact Fresh.server 1 (ConstantServiceTime.mk 5) fun q hq => (by cases hq)
  · split at hkey
    · cases hkey
      have hserver : impatient 1 = some (.server (.new 1 ⟨5⟩ none)) := rfl
      exact Fresh.client [] (FixedRetryPolicy.new 1 0) 3 hserver
    · cases hkey

theorem sendRequest_impatientRun : ∀ delay key e, .schedule delay key e ∈ impatientRun →
    impatient key ≠ none → e = .client .sendRequest := by
  intro delay key e he _
  simp only [impatientRun, List.mem_cons, Op.schedule.injEq, List.mem_replicate, reduceCtorEq,
    and_false, or_false] at he
  exact he.2.2

/-- The second attempt is sent while the first one is in service, and rejected. -/
theorem run_answered_impatient :
    ∃ (a : Assembly (Node ConstantServiceTime FixedRetryPolicy) Event Unit Unit) (answers : _),
    Machine.run (step code) ⟨impatient, .fresh 0⟩ impatientRun = some (a, answers) ∧
    (attemptsOf 2 answers).map (·.id.id) = [1, 2] ∧
    (responsesTo 2 answers).map (·.attemptId.id) = [2, 1] ∧
    ((attemptsOf 2 answers).map (·.id)).Nodup :=
  ⟨_, _, rfl, rfl, rfl, (run_answered 0 fresh_impatient sendRequest_impatientRun rfl rfl).1⟩

end Node

end DesCartes.Service
