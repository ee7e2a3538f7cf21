import DesCartes.Framework.Machine
import DesCartes.Framework.Trace
import DesCartes.Impl.Tower.Service
import DesCartes.Proof.Hosted
import DesCartes.Proof.Http
import DesCartes.Proof.Service.Server
import Mathlib.Data.Multiset.ZeroCons
import Mathlib.Tactic.Abel

/-!
# Calls of a service and their responses

Of every attempt that has no response yet there is one event in flight: its request, its completion
or its response (`Carries`). So the load is the number of events in flight, a thread of the server
is taken by one of them, and a response finds the sender of its own attempt.

* `effect`: what an operation does;
* `Kept.step`: what it keeps;
* `run_kept`: any run.
-/

namespace DesCartes.Tower

open Service (Event Response RequestAttempt RequestAttemptId RequestId Server ServiceTimeDistribution)

namespace DesService

variable {χ δ τ ρ φ σ w : Type}

namespace Output

/-- The future of a call, and its attempt. -/
def called? : Output σ w → Option (Nat × RequestAttempt)
  | called future attempt _ => some (future, attempt)
  | _ => none

/-- The response that has been routed. -/
def routed? : Output σ w → Option Response
  | routed response _ => some response
  | _ => none

/-- The call was made while there was no capacity. -/
def overbooks : Output σ w → Prop
  | called _ _ hadCapacity => hadCapacity = false
  | _ => False

/-- A service is not ready; it is to be woken with this waker. -/
def refuses (o : Output σ w) (waker : w) : Prop :=
  match o with
  | ready waker' .pending => waker' = waker
  | _ => False

end Output

/-- The calls so far. -/
def calls (answers : List (Answer σ w)) : List (Nat × RequestAttempt) := answers.filterMap fun a => a.output.called?

/-- The responses that have been routed. -/
def routed (answers : List (Answer σ w)) : List Response := answers.filterMap fun a => a.output.routed?

/-- The calls whose responses have not been routed. -/
def outstanding (answers : List (Answer σ w)) : List (Nat × RequestAttempt) :=
  (calls answers).filter fun call => ∀ r ∈ routed answers, r.attemptId ≠ call.2.id

/-- The response is one that a server sends for the attempt. -/
def Answers (r : Response) (a : RequestAttempt) : Prop :=
  r.attemptId = a.id ∧ r.requestId = a.requestId ∧
    (r.status = .ok ∧ r.payload = a.payload ∨ r.status = .error 503 "Server overloaded".toList ∧ r.payload = [])

/-- What is made of a response of a server has the status 200, or 503 where it was overloaded. -/
theorem Answers.asU16_status [StatusCode σ] [LawfulStatusCode σ] {r : Response} {a : RequestAttempt} (h : Answers r a) :
    ∃ response : HttpResponse σ, responseToHttp r = .ok response ∧
      StatusCode.asU16 response.status = if r.status = .ok then 200 else 503 := by
  rcases h.2.2 with ⟨hstatus, -⟩ | ⟨hstatus, -⟩
  · rw [hstatus, responseToHttp, hstatus]
    exact ⟨_, rfl, LawfulStatusCode.asU16_ok⟩
  · have hvalid : (StatusCode.fromU16 503 : Option σ).isSome = true :=
      (LawfulStatusCode.fromU16_isSome 503).mpr ⟨by decide, by decide⟩
    obtain ⟨status, hsome⟩ := Option.isSome_iff_exists.mp hvalid
    have hcode : StatusCode.fromU16 (UInt16.ofNat 503) = some status := hsome
    rw [hstatus, responseToHttp, hstatus]
    simp only [hcode, Option.getD_some]
    exact ⟨_, rfl, LawfulStatusCode.fromU16_eq_some.mp hsome⟩

/-- The event is what there is of the attempt: its request, its completion or its response. -/
def Carries (router : Uuid) (e : Event) (call : Nat × RequestAttempt) : Prop :=
  match e with
  | .server (.processRequest attempt clientId) => attempt = call.2 ∧ clientId = router
  | .server (.requestCompleted attemptId requestId clientId payload) =>
    attemptId = call.2.id ∧ requestId = call.2.requestId ∧ clientId = router ∧ payload = call.2.payload
  | .client (.responseReceived r) => Answers r call.2
  | _ => False

/-- The events for the server and the router among those that are scheduled. -/
def own (keys : ServiceKeys) (sends : List (Send Event)) : Multiset Event :=
  sends.filterMap (Send.eventFor keys.server) + sends.filterMap (Send.eventFor keys.router)

theorem own_append (keys : ServiceKeys) (a b : List (Send Event)) :
    own keys (a ++ b) = own keys a + own keys b := by
  simp only [own, List.filterMap_append, ← Multiset.coe_add]
  abel

/-- The events for the server and the router that have not been processed. -/
def flow (s : DesService χ δ τ ρ w) : Multiset Event :=
  own s.handle.keys s.deferred + (s.session.inbox s.handle.keys.server + s.session.inbox s.handle.keys.router)

theorem keys_createRequestAttempt (h : TowerSchedulerHandle w) (req : Request) :
    (h.createRequestAttempt req).2.keys = h.keys := by
  unfold TowerSchedulerHandle.createRequestAttempt
  split <;> rfl

variable {s s' : DesService χ δ τ ρ w} {output : Output σ w}

/-- Calls of `schedule`, with the events that are in flight then. -/
theorem flow_sendAll {session : Session Event τ ρ} {sends : List (Send Event)}
    (h : s.session.sendAll sends = some session) :
    ({ s with session } : DesService χ δ τ ρ w).flow = own s.handle.keys sends + s.flow := by
  have h₁ := Multiset.coe_eq_coe.mpr (Session.inbox_sendAll h s.handle.keys.server)
  have h₂ := Multiset.coe_eq_coe.mpr (Session.inbox_sendAll h s.handle.keys.router)
  rw [← Multiset.coe_add] at h₁ h₂
  rw [flow, flow, h₁, h₂, own.eq_def s.handle.keys sends]
  abel

theorem own_server (keys : ServiceKeys) (delay : SimTime) (e : Event) :
    own keys [⟨delay, keys.server, e⟩] = {e} := by
  have hserver : Send.eventFor keys.server ⟨delay, keys.server, e⟩ = some e := if_pos rfl
  have hrouter : Send.eventFor keys.router ⟨delay, keys.server, e⟩ = none := if_neg keys.ne
  rw [own, List.filterMap_cons_some hserver, List.filterMap_cons_none hrouter]
  rfl

theorem own_router (keys : ServiceKeys) (delay : SimTime) (e : Event) :
    own keys [⟨delay, keys.router, e⟩] = {e} := by
  have hserver : Send.eventFor keys.server ⟨delay, keys.router, e⟩ = none := if_neg keys.ne.symm
  have hrouter : Send.eventFor keys.router ⟨delay, keys.router, e⟩ = some e := if_pos rfl
  rw [own, List.filterMap_cons_none hserver, List.filterMap_cons_some hrouter]
  rfl

theorem own_processRequest (attempt : RequestAttempt) :
    own s.handle.keys [s.handle.processRequest attempt] =
      {.server (.processRequest attempt s.handle.keys.router)} :=
  own_server ..

/-! ## What an operation does -/

variable [Oneshot χ] [ServiceTimeDistribution δ]

/-- What an operation can do, and what it returns. -/
inductive Effect [StatusCode σ] (s s' : DesService χ δ τ ρ w) : Output σ w → Prop
  | keep : s'.server = s.server → s'.handle = s.handle → s'.futures = s.futures → s'.flow = s.flow → Effect s s' .done
  | ready (waker : w) : s' = s → Effect s s' (.ready waker (.ready (.ok ())))
  | refuse (waker : w) : s' = { s with handle := s.handle.registerWaker waker } → Effect s s' (.ready waker .pending)
  | call (attempt : RequestAttempt) (handle : TowerSchedulerHandle w) (req : Request) :
    s.handle.createRequestAttempt req = (attempt, handle) → s'.server = s.server →
    s'.handle = { handle with
      currentLoad := handle.currentLoad + 1
      pendingResponses := handle.pendingResponses.insert attempt.id s.futures.next } →
    s'.futures = dropSender (s.futures.insert Oneshot.channel) (handle.pendingResponses.lookup attempt.id) →
    s'.flow = .server (.processRequest attempt s.handle.keys.router) ::ₘ s.flow →
    Effect s s' (.called s.futures.next attempt s.handle.hasCapacity)
  | poll (i : Nat) (receiver : χ) : s.futures.get i = some receiver → s' = (s.poll σ i receiver).1 →
    Effect s s' (.polled i (s.poll σ i receiver).2)
  | drop (i : Nat) : s' = { s with futures := s.futures.erase i } → Effect s s' .done
  | serve (event : Event) (rest : Multiset Event) (now : SimTime) (sends : List (Send Event)) :
    s.flow = event ::ₘ rest → Server.code.processEvent s.server s.handle.keys.server event now = some (s'.server, sends) →
    s'.handle = s.handle → s'.futures = s.futures →
    s'.flow = own s.handle.keys sends + rest → Effect s s' .served
  | route (response : Response) : s.flow = .client (.responseReceived response) ::ₘ s'.flow → s'.server = s.server →
    s'.handle = { s.handle with
      currentLoad := if s.handle.currentLoad = 0 then u64Max else s.handle.currentLoad - 1
      pendingResponses := s.handle.pendingResponses.erase response.attemptId
      wakers := [] } →
    s'.futures = sendTo s.futures response (s.handle.pendingResponses.lookup response.attemptId) →
    Effect s s' (.routed response s.handle.wakers)
  | ignore (event : Event) : event ∈ s.flow → (∀ router call, ¬Carries router event call) → s'.handle = s.handle →
    Effect s s' .done

omit [ServiceTimeDistribution δ] in
theorem scheduleRequest_spec {attempt : RequestAttempt} {inside : Bool} {i : Nat}
    (h : s.scheduleRequest inside attempt i = some s') : s'.server = s.server ∧
    s'.handle = { s.handle with
      currentLoad := s.handle.currentLoad + 1
      pendingResponses := s.handle.pendingResponses.insert attempt.id i } ∧
    s'.futures = dropSender s.futures (s.handle.pendingResponses.lookup attempt.id) ∧
    s'.flow = .server (.processRequest attempt s.handle.keys.router) ::ₘ s.flow := by
  simp only [scheduleRequest] at h
  split at h
  · cases h
    refine ⟨rfl, rfl, rfl, ?_⟩
    rw [flow, own_append, add_comm (own _ _), add_assoc, ← Multiset.singleton_add]
    exact congrArg₂ (· + ·) (own_processRequest attempt) rfl
  · obtain ⟨session, hsession, rfl⟩ := Option.map_eq_some_iff.mp h
    refine ⟨rfl, rfl, rfl, (flow_sendAll hsession).trans ?_⟩
    rw [← Multiset.singleton_add]
    exact congrArg₂ (· + ·) (own_processRequest attempt) rfl

omit [Oneshot χ] in
theorem effect_serve {event : Event} (h : s.serve event = some (s', output)) :
    ∃ sends, Server.code.processEvent s.server s.handle.keys.server event s.session.scheduler.clock =
      some (s'.server, sends) ∧
      s'.handle = s.handle ∧ s'.futures = s.futures ∧ s'.flow = own s.handle.keys sends + s.flow ∧
      output = .served := by
  obtain ⟨⟨server, sends⟩, hprocess, h⟩ := Option.bind_eq_some_iff.mp h
  obtain ⟨session, hsession, h⟩ := Option.map_eq_some_iff.mp h
  cases h
  exact ⟨sends, hprocess, rfl, rfl, flow_sendAll hsession, rfl⟩

theorem effect_deliver [StatusCode σ] {popped : Option (EventEntry Event)} {session : Session Event τ ρ}
    (hserver : (s.session.inbox s.handle.keys.server).Perm
      ((popped.bind (EventEntry.eventFor s.handle.keys.server)).toList ++ session.inbox s.handle.keys.server))
    (hrouter : (s.session.inbox s.handle.keys.router).Perm
      ((popped.bind (EventEntry.eventFor s.handle.keys.router)).toList ++ session.inbox s.handle.keys.router))
    (h : ({ s with session } : DesService χ δ τ ρ w).deliver popped = some (s', output)) :
    Effect s s' output := by
  have hflow : s.flow = (popped.bind (EventEntry.eventFor s.handle.keys.server)).toList +
      ((popped.bind (EventEntry.eventFor s.handle.keys.router)).toList +
        ({ s with session } : DesService χ δ τ ρ w).flow) := by
    rw [flow, Multiset.coe_eq_coe.mpr hserver, Multiset.coe_eq_coe.mpr hrouter, ← Multiset.coe_add,
      ← Multiset.coe_add, flow]
    abel
  simp only [deliver] at h
  split at h
  · rename_i event hevent
    -- the event is not one for the router also
    have hnone : popped.bind (EventEntry.eventFor s.handle.keys.router) = none := by
      obtain ⟨e, rfl, he⟩ := Option.bind_eq_some_iff.mp hevent
      cases e with
      | component i t key v =>
        simp only [EventEntry.eventFor, Option.ite_none_right_eq_some] at he
        rw [Option.bind_some, EventEntry.eventFor, he.1, if_neg s.handle.keys.ne]
      | task i t id => cases he
    rw [hevent, hnone] at hflow
    obtain ⟨sends, hprocess, h₁, h₂, h₃, rfl⟩ := effect_serve h
    exact .serve event _ _ sends (by simpa using hflow) hprocess h₁ h₂ h₃
  · rename_i hnone
    rw [hnone] at hflow
    split at h
    · rename_i event hevent
      rw [hevent] at hflow
      have hcons : s.flow = event ::ₘ ({ s with session } : DesService χ δ τ ρ w).flow := by simpa using hflow
      have hmem : event ∈ s.flow := hcons ▸ Multiset.mem_cons_self ..
      rcases event with event | _ | response | _ | _
      · cases h
      · cases h
        exact .ignore _ hmem (fun _ _ => id) rfl
      · cases h
        exact .route response hcons rfl rfl rfl
      · cases h
        exact .ignore _ hmem (fun _ _ => id) rfl
      · cases h
        exact .ignore _ hmem (fun _ _ => id) rfl
    · rename_i hnone'
      rw [hnone'] at hflow
      cases h
      exact .keep rfl rfl rfl (by simpa using hflow.symm)

omit [Oneshot χ] [ServiceTimeDistribution δ] in
/-- An operation that spares a key schedules nothing for it. -/
theorem scheduled_of_spares {r r' : Session Event τ ρ} {op : DesCartes.Op Event τ ρ φ}
    {o : DesCartes.Answer Event} {key : Uuid} (h : Session.Effect r r' op o)
    (hspares : Spares key op = true) : o.scheduled?.bind (EventEntry.eventFor key) = none := by
  rw [Option.bind_eq_none_iff]
  intro e he
  cases hv : e.eventFor key with
  | none => rfl
  | some v =>
    obtain ⟨delay, rfl⟩ := h.sender e he key v hv
    simp [Spares] at hspares

theorem effect [EventFrontierPolicy φ] [StatusCode σ] {op : Op τ ρ φ w} (h : s.perform op = some (s', output)) :
    Effect s s' output := by
  cases op with
  | other op =>
    simp only [perform] at h
    split at h
    · rename_i hspares
      rw [Bool.and_eq_true] at hspares
      obtain ⟨⟨session, answer⟩, hstep, h⟩ := Option.bind_eq_some_iff.mp h
      have heffect := Session.effect hstep
      have hserver := heffect.inbox s.handle.keys.server
      have hrouter := heffect.inbox s.handle.keys.router
      rw [scheduled_of_spares heffect hspares.1] at hserver
      rw [scheduled_of_spares heffect hspares.2] at hrouter
      exact effect_deliver hserver hrouter h
    · cases h
  | pollReady waker =>
    simp only [perform, pollReady] at h
    split at h
    · cases h
      exact .ready waker rfl
    · cases h
      exact .refuse waker rfl
  | call inside req =>
    obtain ⟨⟨s₁, a⟩, hcall, h⟩ := Option.map_eq_some_iff.mp h
    cases h
    unfold call at hcall
    generalize hreq : s.handle.createRequestAttempt req = q at hcall
    obtain ⟨attempt, handle⟩ := q
    obtain ⟨s₂, hschedule, h⟩ := Option.map_eq_some_iff.mp hcall
    obtain ⟨rfl, rfl⟩ := Prod.mk.inj h
    have hkeys : handle.keys = s.handle.keys := by
      rw [show handle = (s.handle.createRequestAttempt req).2 from congrArg Prod.snd hreq.symm]
      exact keys_createRequestAttempt s.handle req
    obtain ⟨h₁, h₂, h₃, h₄⟩ := scheduleRequest_spec hschedule
    refine .call attempt handle req hreq h₁ h₂ h₃ ?_
    simp only [flow, hkeys] at h₄ ⊢
    exact h₄
  | poll i =>
    obtain ⟨receiver, hreceiver, h⟩ := Option.map_eq_some_iff.mp h
    cases h
    exact .poll i receiver hreceiver rfl
  | drop i =>
    obtain ⟨receiver, hreceiver, h⟩ := Option.map_eq_some_iff.mp h
    cases h
    exact .drop i rfl
  | drain =>
    obtain ⟨session, hsession, h⟩ := Option.map_eq_some_iff.mp h
    cases h
    refine .keep rfl rfl rfl ?_
    have hflow := flow_sendAll (s := { s with deferred := [] }) hsession
    refine hflow.trans ?_
    simp only [flow]
    abel

/-! ## Histories -/

section
omit [Oneshot χ] [ServiceTimeDistribution δ]

variable {answers : List (Answer σ w)} {a : Answer σ w}

theorem calls_snoc : calls (answers ++ [a]) = calls answers ++ a.output.called?.toList := by
  cases h : a.output.called? <;> simp [calls, h]

theorem routed_snoc : routed (answers ++ [a]) = routed answers ++ a.output.routed?.toList := by
  cases h : a.output.routed? <;> simp [routed, h]

variable (answers) in
theorem outstanding_other (hcalled : a.output.called? = none) (hrouted : a.output.routed? = none) :
    calls (answers ++ [a]) = calls answers ∧ routed (answers ++ [a]) = routed answers ∧
      outstanding (answers ++ [a]) = outstanding answers := by
  have h₁ : calls (answers ++ [a]) = calls answers := by
    rw [calls_snoc, hcalled, Option.toList_none, List.append_nil]
  have h₂ : routed (answers ++ [a]) = routed answers := by
    rw [routed_snoc, hrouted, Option.toList_none, List.append_nil]
  exact ⟨h₁, h₂, by rw [outstanding, outstanding, h₁, h₂]⟩

theorem outstanding_called {call : Nat × RequestAttempt} (hcalled : a.output.called? = some call)
    (hrouted : a.output.routed? = none) (hnew : ∀ r ∈ routed answers, r.attemptId ≠ call.2.id) :
    outstanding (answers ++ [a]) = outstanding answers ++ [call] := by
  rw [outstanding, calls_snoc, routed_snoc, hcalled, hrouted, Option.toList_none, List.append_nil,
    Option.toList_some,
    List.filter_append, List.filter_cons_of_pos (by simpa using hnew), List.filter_nil, outstanding]

theorem outstanding_routed {r : Response} (hcalled : a.output.called? = none)
    (hrouted : a.output.routed? = some r) :
    outstanding (answers ++ [a]) = (outstanding answers).filter fun call => r.attemptId ≠ call.2.id := by
  rw [outstanding, outstanding, calls_snoc, routed_snoc, hcalled, hrouted, Option.toList_none,
    List.append_nil, Option.toList_some,
    List.filter_filter]
  refine List.filter_congr fun call _ => ?_
  simp [or_imp, forall_and, and_comm]

theorem mem_outstanding {call : Nat × RequestAttempt} :
    call ∈ outstanding answers ↔ call ∈ calls answers ∧ ∀ r ∈ routed answers, r.attemptId ≠ call.2.id := by
  simp [outstanding]

end

/-! ## The server -/

omit [Oneshot χ] in
/-- The server makes of an event for an attempt the next one. It rejects an attempt only where all
its threads are taken. -/
theorem serve_spec {server server' : Server δ} {keys : ServiceKeys} {event : Event} {now : SimTime}
    {sends : List (Send Event)} {call : Nat × RequestAttempt} (hqueue : server.queue = none)
    (hcarries : Carries keys.router event call)
    (h : Server.code.processEvent server keys.server event now = some (server', sends)) :
    ∃ next, own keys sends = {next} ∧ Carries keys.router next call ∧ server'.queue = none ∧
      server'.threadCapacity = server.threadCapacity ∧
      (event.isCompletion = false ∧ server.activeThreads < server.threadCapacity ∧ next.isCompletion ∧
          server'.activeThreads = server.activeThreads + 1 ∧
          server'.requestsRejected = server.requestsRejected ∨
        event.isCompletion ∧ next.isCompletion = false ∧ server'.activeThreads = server.activeThreads - 1 ∧
          server'.requestsRejected = server.requestsRejected ∨
        event.isCompletion = false ∧ server.threadCapacity ≤ server.activeThreads ∧
        next.isCompletion = false ∧
          server'.activeThreads = server.activeThreads) := by
  rcases event with (⟨attempt, clientId⟩ | ⟨attemptId, requestId, clientId, payload⟩ | _) | event
  · obtain ⟨rfl, rfl⟩ := hcarries
    obtain ⟨rfl, rfl⟩ := Prod.ext_iff.mp (Option.some.inj h)
    by_cases hcapacity : server.activeThreads < server.threadCapacity
    · have hhandle : server.handleRequest keys.server now call.2 keys.router =
          ((server.startProcessingRequest keys.server call.2 keys.router).1,
            [(server.startProcessingRequest keys.server call.2 keys.router).2]) := if_pos
              (decide_eq_true hcapacity)
      rw [hhandle]
      exact ⟨_, own_server .., ⟨rfl, rfl, rfl, rfl⟩, hqueue, rfl, .inl ⟨rfl, hcapacity, rfl, rfl, rfl⟩⟩
    · have hhandle : server.handleRequest keys.server now call.2 keys.router =
          ((server.rejectRequest now call.2 keys.router).1,
            [(server.rejectRequest now call.2 keys.router).2]) := by
        rw [Server.handleRequest, if_neg (by simpa [Server.hasCapacity] using hcapacity), hqueue]
      rw [hhandle]
      exact ⟨_, own_router .., ⟨rfl, rfl, .inr ⟨rfl, rfl⟩⟩, hqueue, rfl,
        .inr (.inr ⟨rfl, not_lt.mp hcapacity, rfl, rfl⟩)⟩
  · obtain ⟨rfl, rfl, rfl, rfl⟩ := hcarries
    obtain ⟨rfl, rfl⟩ := Prod.ext_iff.mp (Option.some.inj h)
    have hsends :
        (server.completeRequest keys.server now call.2.id call.2.requestId keys.router call.2.payload).2 =
        [⟨.fromDuration 1000000, keys.router,
          .client (.responseReceived (.success call.2.id call.2.requestId now call.2.payload))⟩] := by
      simp [Server.completeRequest, Server.queueDepth, hqueue]
    rw [hsends]
    exact ⟨_, own_router .., ⟨rfl, rfl, .inl ⟨rfl, rfl⟩⟩, hqueue, rfl, .inr (.inl ⟨rfl, rfl, rfl, rfl⟩)⟩
  · exact hcarries.elim
  · cases h

/-! ## The attempts -/

/-- What the handle and the events in flight say of the attempts that have no response yet. -/
structure Accounts (s : DesService χ δ τ ρ w) (answers : List (Answer σ w)) : Prop where
  inFlight : Multiset.Rel (Carries s.handle.keys.router) s.flow (outstanding answers)
  load : s.handle.currentLoad = (outstanding answers).length
  fresh : ∀ call ∈ calls answers, call.1 < s.futures.next ∧ call.2.id.id < s.handle.nextAttemptId
  futures_nodup : ((calls answers).map fun call => call.1).Nodup
  ids_nodup : ((calls answers).map fun call => call.2.id).Nodup
  answered : ∀ r ∈ routed answers, ∃ call ∈ calls answers, Answers r call.2
  pending : ∀ id i, s.handle.pendingResponses.lookup id = some i ↔ ∃ call ∈ outstanding answers, call.2.id = id ∧ call.1 = i

section
omit [Oneshot χ] [ServiceTimeDistribution δ]

variable {answers : List (Answer σ w)} {a : Answer σ w}

theorem createRequestAttempt_spec {h handle : TowerSchedulerHandle w} {req : Request}
    {attempt : RequestAttempt} (hreq : h.createRequestAttempt req = (attempt, handle)) :
    attempt.id = ⟨h.nextAttemptId⟩ ∧
    ∃ nextRequestId, handle = { h with nextRequestId, nextAttemptId := h.nextAttemptId + 1 } := by
  unfold TowerSchedulerHandle.createRequestAttempt at hreq
  split at hreq
  · cases hreq
    exact ⟨rfl, _, rfl⟩
  · cases hreq
    exact ⟨rfl, _, rfl⟩

/-- An operation that neither calls nor routes. -/
theorem Accounts.other (hs : Accounts s answers) (hcalled : a.output.called? = none)
    (hrouted : a.output.routed? = none) (hhandle : ∃ wakers, s'.handle = { s.handle with wakers })
    (hnext : s'.futures.next = s.futures.next)
    (hflow : Multiset.Rel (Carries s.handle.keys.router) s'.flow (outstanding answers)) :
    Accounts s' (answers ++ [a]) := by
  obtain ⟨h₁, h₂, h₃⟩ := outstanding_other answers hcalled hrouted
  obtain ⟨wakers, hhandle⟩ := hhandle
  constructor
  · rw [h₃, hhandle]
    exact hflow
  · rw [h₃, hhandle]
    exact hs.load
  · rw [h₁, hhandle, hnext]
    exact hs.fresh
  · exact h₁ ▸ hs.futures_nodup
  · exact h₁ ▸ hs.ids_nodup
  · rw [h₁, h₂]
    exact hs.answered
  · rw [h₃, hhandle]
    exact hs.pending

/-- An attempt that is about to be made has been neither made nor answered. -/
theorem Accounts.new_id (hs : Accounts s answers) :
    (∀ call ∈ calls answers, call.2.id ≠ ⟨s.handle.nextAttemptId⟩) ∧
    (∀ r ∈ routed answers, r.attemptId ≠ ⟨s.handle.nextAttemptId⟩) ∧
    s.handle.pendingResponses.lookup ⟨s.handle.nextAttemptId⟩ = none := by
  have hcalls : ∀ call ∈ calls answers, call.2.id ≠ ⟨s.handle.nextAttemptId⟩ := by
    intro call hcall heq
    have := (hs.fresh call hcall).2
    rw [heq] at this
    exact lt_irrefl _ this
  refine ⟨hcalls, fun r hr heq => ?_, ?_⟩
  · obtain ⟨call, hcall, hanswers⟩ := hs.answered r hr
    exact hcalls call hcall (hanswers.1.symm.trans heq)
  · cases hlookup : s.handle.pendingResponses.lookup ⟨s.handle.nextAttemptId⟩ with
    | none => rfl
    | some i =>
      obtain ⟨call, hcall, hid, -⟩ := (hs.pending _ i).mp hlookup
      exact absurd hid (hcalls call (mem_outstanding.mp hcall).1)

theorem Accounts.call {attempt : RequestAttempt} {handle : TowerSchedulerHandle w} {req : Request}
    (hs : Accounts s answers)
    (hreq : s.handle.createRequestAttempt req = (attempt, handle))
    (hhandle : s'.handle = { handle with
      currentLoad := handle.currentLoad + 1
      pendingResponses := handle.pendingResponses.insert attempt.id s.futures.next })
    (hnext : s'.futures.next = s.futures.next + 1)
    (hflow : s'.flow = .server (.processRequest attempt s.handle.keys.router) ::ₘ s.flow)
    (hcalled : a.output.called? = some (s.futures.next, attempt)) (hrouted : a.output.routed? = none) :
    Accounts s' (answers ++ [a]) := by
  obtain ⟨hid, nextRequestId, rfl⟩ := createRequestAttempt_spec hreq
  obtain ⟨hcalls, hresponses, hlookup⟩ := hs.new_id
  have hcalls' : calls (answers ++ [a]) = calls answers ++ [(s.futures.next, attempt)] := by
    rw [calls_snoc, hcalled]; rfl
  have hrouted' : routed (answers ++ [a]) = routed answers := by
    rw [routed_snoc, hrouted]; exact List.append_nil _
  have hout : outstanding (answers ++ [a]) = outstanding answers ++ [(s.futures.next, attempt)] :=
    outstanding_called hcalled hrouted fun r hr => hid ▸ hresponses r hr
  constructor
  · have hcons : (↑(outstanding answers ++ [(s.futures.next, attempt)]) : Multiset (Nat × RequestAttempt)) =
        (s.futures.next, attempt) ::ₘ ↑(outstanding answers) :=
        Multiset.coe_eq_coe.mpr (List.perm_append_singleton ..)
    rw [hout, hflow, hhandle, hcons]
    exact .cons ⟨rfl, rfl⟩ hs.inFlight
  · rw [hout, hhandle, List.length_append, ← hs.load]
    rfl
  · rw [hcalls', hhandle, hnext]
    refine List.forall_mem_append.mpr ⟨fun call hcall => ?_,
      List.forall_mem_singleton.mpr ⟨Nat.lt_succ_self _, ?_⟩⟩
    · obtain ⟨h₁, h₂⟩ := hs.fresh call hcall
      exact ⟨Nat.lt_succ_of_lt h₁, Nat.lt_succ_of_lt h₂⟩
    · rw [hid]
      exact Nat.lt_succ_self _
  · rw [hcalls', List.map_append, List.nodup_append]
    refine ⟨hs.futures_nodup, List.nodup_singleton _, fun i hi j hj => ?_⟩
    obtain ⟨call, hcall, rfl⟩ := List.mem_map.mp hi
    rw [List.mem_singleton.mp hj]
    exact (hs.fresh call hcall).1.ne
  · rw [hcalls', List.map_append, List.nodup_append]
    refine ⟨hs.ids_nodup, List.nodup_singleton _, fun i hi j hj => ?_⟩
    obtain ⟨call, hcall, rfl⟩ := List.mem_map.mp hi
    rw [List.mem_singleton.mp hj]
    show call.2.id ≠ attempt.id
    rw [hid]
    exact hcalls call hcall
  · rw [hcalls', hrouted']
    intro r hr
    obtain ⟨call, hcall, h⟩ := hs.answered r hr
    exact ⟨call, List.mem_append_left _ hcall, h⟩
  · intro id i
    rw [hout, hhandle]
    by_cases h : id = attempt.id
    · rw [h, AList.lookup_insert]
      constructor
      · rintro ⟨⟩
        exact ⟨_, List.mem_append_right _ List.mem_cons_self, rfl, rfl⟩
      · rintro ⟨call, hcall, h₁, rfl⟩
        rcases List.mem_append.mp hcall with hcall | hcall
        · exact absurd (h₁.trans hid) (hcalls call (mem_outstanding.mp hcall).1)
        · rw [List.mem_singleton.mp hcall]
    · rw [AList.lookup_insert_ne h, hs.pending]
      refine exists_congr fun call => and_congr_left fun hcall => ?_
      rw [List.mem_append, List.mem_singleton, or_iff_left]
      rintro rfl
      exact h hcall.1.symm

theorem Accounts.route {response : Response} (hs : Accounts s answers)
    (hflow : s.flow = .client (.responseReceived response) ::ₘ s'.flow)
    (hhandle : s'.handle = { s.handle with
      currentLoad := if s.handle.currentLoad = 0 then u64Max else s.handle.currentLoad - 1
      pendingResponses := s.handle.pendingResponses.erase response.attemptId
      wakers := [] })
    (hnext : s'.futures.next = s.futures.next)
    (hcalled : a.output.called? = none) (hrouted : a.output.routed? = some response) :
    Accounts s' (answers ++ [a]) ∧ s'.handle.currentLoad + 1 = s.handle.currentLoad ∧
      ∃ call ∈ outstanding answers, Answers response call.2 := by
  have hcalls' : calls (answers ++ [a]) = calls answers := by
    rw [calls_snoc, hcalled]; exact List.append_nil _
  have hrouted' : routed (answers ++ [a]) = routed answers ++ [response] := by rw [routed_snoc, hrouted]; rfl
  have hinFlight := hs.inFlight
  rw [hflow, Multiset.rel_cons_left] at hinFlight
  obtain ⟨call, rest, hcarries, hrest, hcons⟩ := hinFlight
  have hanswers : Answers response call.2 := hcarries
  have hmem : call ∈ outstanding answers := Multiset.mem_coe.mp (hcons ▸ Multiset.mem_cons_self _ _)
  -- no other attempt has the id
  have hothers : ∀ c ∈ rest, response.attemptId ≠ c.2.id := by
    intro c hc heq
    have hnodup : ((outstanding answers : Multiset (Nat × RequestAttempt)).map fun call => call.2.id).Nodup :=
      Multiset.coe_nodup.mpr (hs.ids_nodup.sublist (List.filter_sublist.map _))
    rw [hcons, Multiset.map_cons, Multiset.nodup_cons] at hnodup
    exact hnodup.1 (Multiset.mem_map.mpr ⟨c, hc, heq.symm.trans hanswers.1⟩)
  have hout : (outstanding (answers ++ [a]) : Multiset (Nat × RequestAttempt)) = rest := by
    rw [outstanding_routed hcalled hrouted, ← Multiset.filter_coe, hcons,
      Multiset.filter_cons_of_neg (p := fun c : Nat × RequestAttempt => response.attemptId ≠ c.2.id) rest
        (not_not_intro hanswers.1)]
    exact Multiset.filter_eq_self.mpr hothers
  have hlength : s.handle.currentLoad = (outstanding (answers ++ [a])).length + 1 := by
    rw [hs.load, ← Multiset.coe_card, ← Multiset.coe_card, hout, hcons, Multiset.card_cons]
  have hload : s'.handle.currentLoad = s.handle.currentLoad - 1 := by
    rw [hhandle]
    exact if_neg (by omega)
  refine ⟨⟨?_, by omega, ?_, hcalls' ▸ hs.futures_nodup, hcalls' ▸ hs.ids_nodup, ?_, fun id i => ?_⟩,
    by omega, call, hmem, hanswers⟩
  · rw [hout, hhandle]
    exact hrest
  · rw [hcalls', hhandle, hnext]
    exact hs.fresh
  · rw [hcalls', hrouted']
    exact List.forall_mem_append.mpr ⟨hs.answered, List.forall_mem_singleton.mpr
      ⟨call, (mem_outstanding.mp hmem).1, hanswers⟩⟩
  · rw [outstanding_routed hcalled hrouted, hhandle]
    by_cases h : id = response.attemptId
    · rw [h, AList.lookup_erase]
      simp only [reduceCtorEq, List.mem_filter, decide_eq_true_eq, false_iff, not_exists, not_and]
      rintro c ⟨-, hne⟩ heq
      exact absurd heq.symm hne
    · rw [AList.lookup_erase_ne h, hs.pending]
      refine exists_congr fun c => and_congr_left fun hc => ?_
      rw [List.mem_filter, decide_eq_true_eq, and_iff_left]
      exact fun heq => h (hc.1.symm.trans heq.symm)

theorem Accounts.call_unique (hs : Accounts s answers) {c d : Nat × RequestAttempt}
    (hc : c ∈ calls answers) (hd : d ∈ calls answers) (h : c.1 = d.1 ∨ c.2.id = d.2.id) :
    c = d := by
  rcases h with h | h
  · exact List.inj_on_of_nodup_map hs.futures_nodup hc hd h
  · exact List.inj_on_of_nodup_map hs.ids_nodup hc hd h

end

/-! ## The receivers -/

variable [LawfulOneshot χ] [StatusCode σ]

open LawfulOneshot (Waiting)

/-- The receiver of a future waits for the response to its attempt, or has it. -/
structure Receivers (s : DesService χ δ τ ρ w) (answers : List (Answer σ w)) : Prop where
  futures : ∀ i receiver, s.futures.get i = some receiver → ∃ attempt, (i, attempt) ∈ calls answers ∧
    ((i, attempt) ∈ outstanding answers ∧ Waiting receiver ∨
      ∃ r ∈ routed answers, Answers r attempt ∧ ∃ empty, Waiting empty ∧ receiver = Oneshot.send empty r)
  polled : ∀ a ∈ answers, ∀ i result, a.output = .polled i (.ready result) →
    ∃ attempt r, (i, attempt) ∈ calls answers ∧ r ∈ routed answers ∧ Answers r attempt ∧ result = responseToHttp r

section

variable {answers : List (Answer σ w)} {a : Answer σ w}

omit [ServiceTimeDistribution δ] in
/-- An operation that neither calls nor routes, and polls no future that is ready. -/
theorem Receivers.other (hs : Receivers s answers) (hcalled : a.output.called? = none)
    (hrouted : a.output.routed? = none)
    (hfutures : ∀ i receiver, s'.futures.get i = some receiver → s.futures.get i = some receiver)
    (hpolled : ∀ i result, a.output ≠ .polled i (.ready result)) :
    Receivers s' (answers ++ [a]) := by
  obtain ⟨h₁, h₂, h₃⟩ := outstanding_other answers hcalled hrouted
  constructor
  · rw [h₁, h₂, h₃]
    exact fun i receiver h => hs.futures i receiver (hfutures i receiver h)
  · rw [h₁, h₂]
    exact List.forall_mem_append.mpr ⟨hs.polled, List.forall_mem_singleton.mpr fun i result h =>
      absurd h (hpolled i result)⟩

omit [ServiceTimeDistribution δ] in
theorem poll_open (i : Nat) {receiver : χ} (hopen : Waiting receiver) :
    s.poll σ i receiver = ({ s with futures := s.futures.set i (Oneshot.poll receiver).2 }, .pending) := by
  have hpending := (LawfulOneshot.poll_pending receiver hopen).1
  unfold DesService.poll
  generalize Oneshot.poll receiver = q at hpending ⊢
  obtain ⟨result, receiver'⟩ := q
  cases hpending
  rfl

omit [ServiceTimeDistribution δ] in
theorem poll_sent (i : Nat) (r : Response) {empty : χ} (hopen : Waiting empty) :
    s.poll σ i (Oneshot.send empty r) = ({ s with futures := s.futures.erase i },
      .ready (responseToHttp r)) := by
  have hready := LawfulOneshot.poll_send empty r hopen
  unfold DesService.poll
  generalize Oneshot.poll (Oneshot.send empty r) = q at hready ⊢
  obtain ⟨result, receiver'⟩ := q
  cases hready
  rfl

omit [ServiceTimeDistribution δ] in
/-- A future is polled. -/
theorem Receivers.poll {i : Nat} {receiver : χ} (hs : Receivers s answers)
    (hreceiver : s.futures.get i = some receiver) (hs' : s' = (s.poll σ i receiver).1)
    (ha : a.output = .polled i (s.poll σ i receiver).2) : Receivers s' (answers ++ [a]) := by
  have hcalled : a.output.called? = none := by rw [ha]; rfl
  have hrouted : a.output.routed? = none := by rw [ha]; rfl
  obtain ⟨h₁, h₂, h₃⟩ := outstanding_other answers hcalled hrouted
  obtain ⟨attempt, hcall, hstate⟩ := hs.futures i receiver hreceiver
  have hpolled : ∀ b ∈ answers, ∀ i result, b.output = .polled i (.ready result) →
      ∃ attempt r, (i, attempt) ∈ calls (answers ++ [a]) ∧ r ∈ routed (answers ++ [a]) ∧ Answers r attempt ∧
        result = responseToHttp r := by
    rw [h₁, h₂]
    exact hs.polled
  rcases hstate with ⟨hout, hopen⟩ | ⟨r, hr, hanswers, empty, hopen, rfl⟩
  · rw [poll_open i hopen] at hs' ha
    refine ⟨fun j c hj => ?_, List.forall_mem_append.mpr
      ⟨hpolled, List.forall_mem_singleton.mpr fun j result h => ?_⟩⟩
    · rw [h₁, h₂, h₃]
      rw [hs'] at hj
      rcases (Table.get_set_eq_some hreceiver).mp hj with ⟨rfl, rfl⟩ | ⟨-, hj⟩
      · exact ⟨attempt, hcall, .inl ⟨hout, (LawfulOneshot.poll_pending receiver hopen).2⟩⟩
      · exact hs.futures j c hj
    · cases ha.symm.trans h
  · rw [poll_sent i r hopen] at hs' ha
    refine ⟨fun j c hj => ?_, List.forall_mem_append.mpr
      ⟨hpolled, List.forall_mem_singleton.mpr fun j result h => ?_⟩⟩
    · rw [h₁, h₂, h₃]
      rw [hs'] at hj
      exact hs.futures j c (Table.get_erase_eq_some.mp hj).2
    · cases ha.symm.trans h
      rw [h₁, h₂]
      exact ⟨attempt, r, hcall, hr, hanswers, rfl⟩

omit [ServiceTimeDistribution δ] in
/-- A call is made. -/
theorem Receivers.call {attempt : RequestAttempt} (hs : Receivers s answers)
    (hnew : ∀ r ∈ routed answers, r.attemptId ≠ attempt.id)
    (hfutures : s'.futures = s.futures.insert Oneshot.channel) {hadCapacity : Bool}
    (ha : a.output = .called s.futures.next attempt hadCapacity) :
    Receivers s' (answers ++ [a]) := by
  have hcalled : a.output.called? = some (s.futures.next, attempt) := by rw [ha]; rfl
  have hrouted : a.output.routed? = none := by rw [ha]; rfl
  have hcalls' : calls (answers ++ [a]) = calls answers ++ [(s.futures.next, attempt)] := by
    rw [calls_snoc, hcalled]; rfl
  have hrouted' : routed (answers ++ [a]) = routed answers := by
    rw [routed_snoc, hrouted]; exact List.append_nil _
  have hout := outstanding_called hcalled hrouted hnew
  constructor
  · rw [hcalls', hrouted', hout]
    intro i c hi
    rw [hfutures] at hi
    rcases Table.get_insert_eq_some.mp hi with ⟨rfl, rfl⟩ | hi
    · refine ⟨attempt, List.mem_append_right _ List.mem_cons_self, .inl ⟨?_, LawfulOneshot.waiting_channel⟩⟩
      exact List.mem_append_right _ List.mem_cons_self
    · obtain ⟨b, hb, hstate⟩ := hs.futures i c hi
      exact ⟨b, List.mem_append_left _ hb, hstate.imp_left fun h => ⟨List.mem_append_left _ h.1, h.2⟩⟩
  · rw [hcalls', hrouted']
    refine List.forall_mem_append.mpr ⟨fun b hb i result h => ?_,
      List.forall_mem_singleton.mpr fun i result h => ?_⟩
    · obtain ⟨attempt, r, h₁, h₂⟩ := hs.polled b hb i result h
      exact ⟨attempt, r, List.mem_append_left _ h₁, h₂⟩
    · cases ha.symm.trans h

omit [ServiceTimeDistribution δ] in
/-- A response is routed. -/
theorem Receivers.route {response : Response} {woken : List w} (hs : Receivers s answers)
    (haccounts : Accounts s answers) {call : Nat × RequestAttempt}
    (hcall : call ∈ outstanding answers) (hanswers : Answers response call.2)
    (hfutures : s'.futures = sendTo s.futures response (s.handle.pendingResponses.lookup response.attemptId))
    (ha : a.output = .routed response woken) : Receivers s' (answers ++ [a]) := by
  have hcalled : a.output.called? = none := by rw [ha]; rfl
  have hrouted : a.output.routed? = some response := by rw [ha]; rfl
  have hcalls' : calls (answers ++ [a]) = calls answers := by
    rw [calls_snoc, hcalled]; exact List.append_nil _
  have hrouted' : routed (answers ++ [a]) = routed answers ++ [response] := by rw [routed_snoc, hrouted]; rfl
  have hmade := (mem_outstanding.mp hcall).1
  have hlookup : s.handle.pendingResponses.lookup response.attemptId = some call.1 :=
    (haccounts.pending _ _).mpr ⟨call, hcall, hanswers.1.symm, rfl⟩
  -- the future of another attempt
  have hother : ∀ i c, s.futures.get i = some c → i ≠ call.1 → ∃ attempt,
      (i, attempt) ∈ calls (answers ++ [a]) ∧
        ((i, attempt) ∈ outstanding (answers ++ [a]) ∧ Waiting c ∨
          ∃ r ∈ routed (answers ++ [a]), Answers r attempt ∧ ∃ empty,
          Waiting empty ∧ c = Oneshot.send empty r) := by
    intro i c hi hne
    obtain ⟨attempt, hattempt, hstate⟩ := hs.futures i c hi
    rw [hcalls', hrouted', outstanding_routed hcalled hrouted]
    refine ⟨attempt, hattempt, hstate.imp
      (fun h => ⟨List.mem_filter.mpr ⟨h.1, decide_eq_true fun heq => ?_⟩, h.2⟩)
      fun ⟨r, hr, h⟩ => ⟨r, List.mem_append_left _ hr, h⟩⟩
    exact hne (congrArg Prod.fst (haccounts.call_unique hattempt hmade (.inr (heq.symm.trans hanswers.1))))
  constructor
  · intro i c hi
    rw [hfutures, hlookup, sendTo] at hi
    cases hget : s.futures.get call.1 with
    | none =>
      rw [hget] at hi
      refine hother i c hi fun heq => ?_
      rw [heq] at hi
      cases hget.symm.trans hi
    | some receiver =>
      rw [hget, Option.map_some, Option.getD_some] at hi
      rcases (Table.get_set_eq_some hget).mp hi with ⟨rfl, rfl⟩ | ⟨hne, hi⟩
      · obtain ⟨attempt, hattempt, hstate⟩ := hs.futures _ _ hget
        obtain rfl : attempt = call.2 := congrArg Prod.snd (haccounts.call_unique hattempt hmade (.inl rfl))
        rw [hcalls', hrouted']
        refine ⟨call.2, hattempt, .inr ⟨response, List.mem_append_right _ List.mem_cons_self, hanswers,
          receiver, ?_, rfl⟩⟩
        rcases hstate with ⟨-, hopen⟩ | ⟨r, hr, hr', -⟩
        · exact hopen
        · exact absurd hr'.1 ((mem_outstanding.mp hcall).2 r hr)
      · exact hother i c hi hne
  · rw [hcalls', hrouted']
    refine List.forall_mem_append.mpr ⟨fun b hb i result h => ?_,
      List.forall_mem_singleton.mpr fun i result h => ?_⟩
    · obtain ⟨attempt, r, h₁, h₂, h₃⟩ := hs.polled b hb i result h
      exact ⟨attempt, r, h₁, List.mem_append_left _ h₂, h₃⟩
    · cases ha.symm.trans h

/-! ## Operations -/

omit [ServiceTimeDistribution δ] [LawfulOneshot χ] in
theorem poll_keep (σ : Type) [StatusCode σ] (s : DesService χ δ τ ρ w) (i : Nat) (receiver : χ) :
    (s.poll σ i receiver).1.server = s.server ∧ (s.poll σ i receiver).1.handle = s.handle ∧
    (s.poll σ i receiver).1.flow = s.flow ∧ (s.poll σ i receiver).1.futures.next = s.futures.next := by
  unfold DesService.poll
  split <;> exact ⟨rfl, rfl, rfl, rfl⟩

omit [LawfulOneshot χ] in
theorem next_sendTo (futures : Table χ) (response : Response) (i : Option Nat) :
    (sendTo futures response i).next = futures.next := by
  cases i with
  | none => rfl
  | some i =>
    rw [sendTo]
    cases futures.get i <;> rfl

/-- The futures and the attempts, after any operation. -/
theorem Effect.accounts (h : Effect s s' a.output) (hs : Accounts s answers) (hr : Receivers s answers)
    (hqueue : s.server.queue = none) :
    Accounts s' (answers ++ [a]) ∧ Receivers s' (answers ++ [a]) ∧
      (a.output.routed?.isSome → s'.handle.currentLoad + 1 = s.handle.currentLoad) := by
  obtain ⟨before, after, output⟩ := a
  simp only at h
  cases h with
  | keep hserver hhandle hfutures hflow =>
    exact ⟨hs.other rfl rfl ⟨s.handle.wakers, hhandle⟩ (by rw [hfutures]) (hflow ▸ hs.inFlight),
      hr.other rfl rfl (fun _ _ h => hfutures ▸ h) nofun, nofun⟩
  | ready waker hs' =>
    subst hs'
    exact ⟨hs.other rfl rfl ⟨s'.handle.wakers, rfl⟩ rfl hs.inFlight,
      hr.other rfl rfl (fun _ _ h => h) nofun, nofun⟩
  | refuse waker hs' =>
    subst hs'
    exact ⟨hs.other rfl rfl ⟨_, rfl⟩ rfl hs.inFlight, hr.other rfl rfl (fun _ _ h => h) nofun, nofun⟩
  | call attempt handle req hreq hserver hhandle hfutures hflow =>
    obtain ⟨hid, nextRequestId, rfl⟩ := createRequestAttempt_spec hreq
    obtain ⟨-, hresponses, hlookup⟩ := hs.new_id
    have hinsert : s'.futures = s.futures.insert Oneshot.channel := by
      rw [hfutures]
      show dropSender _ (s.handle.pendingResponses.lookup attempt.id) = _
      rw [hid, hlookup]
      rfl
    exact ⟨hs.call hreq hhandle (by rw [hinsert]; rfl) hflow rfl rfl,
      hr.call (fun r hr => hid ▸ hresponses r hr) hinsert rfl, nofun⟩
  | poll i receiver hreceiver hs' =>
    obtain ⟨h₁, h₂, h₃, h₄⟩ := poll_keep σ s i receiver
    rw [← hs'] at h₁ h₂ h₃ h₄
    exact ⟨hs.other rfl rfl ⟨s.handle.wakers, h₂⟩ h₄ (h₃ ▸ hs.inFlight), hr.poll hreceiver hs' rfl, nofun⟩
  | drop i hs' =>
    subst hs'
    exact ⟨hs.other rfl rfl ⟨s.handle.wakers, rfl⟩ rfl hs.inFlight,
      hr.other rfl rfl (fun j c h => (Table.get_erase_eq_some.mp h).2) nofun, nofun⟩
  | serve event rest now sends hflow hprocess hhandle hfutures hflow' =>
    have hinFlight := hs.inFlight
    rw [hflow, Multiset.rel_cons_left] at hinFlight
    obtain ⟨call, others, hcarries, hrest, hcons⟩ := hinFlight
    obtain ⟨next, hown, hnext, -⟩ := serve_spec hqueue hcarries hprocess
    refine ⟨hs.other rfl rfl ⟨s.handle.wakers, hhandle⟩ (by rw [hfutures]) ?_,
      hr.other rfl rfl (fun _ _ h => hfutures ▸ h) nofun,
      nofun⟩
    rw [hflow', hown, Multiset.singleton_add, hcons]
    exact .cons hnext hrest
  | route response hflow hserver hhandle hfutures =>
    obtain ⟨haccounts, hload, call, hcall, hanswers⟩ :=
      hs.route (a := ⟨before, after, .routed response s.handle.wakers⟩) hflow hhandle
      (by rw [hfutures, next_sendTo]) rfl rfl
    exact ⟨haccounts, hr.route hs hcall hanswers hfutures rfl, fun _ => hload⟩
  | ignore event hmem hno =>
    obtain ⟨call, -, hcarries⟩ := Multiset.exists_mem_of_rel_of_mem hs.inFlight hmem
    exact absurd hcarries (hno _ _)

omit [LawfulOneshot χ] in
/-- What the server has: no queue, a thread for each attempt that it completes, and none for more
than the load. -/
structure Threads (s : DesService χ δ τ ρ w) (answers : List (Answer σ w)) : Prop where
  queue : s.server.queue = none
  capacity : s.server.threadCapacity = s.handle.capacity
  active : s.server.activeThreads = s.flow.countP fun e => e.isCompletion = true
  accepted : (∀ a ∈ answers, ¬a.output.overbooks) → s.handle.currentLoad ≤ s.handle.capacity ∧ s.server.requestsRejected = 0

omit [LawfulOneshot χ] in
theorem Effect.threads (h : Effect s s' a.output) (hs : Accounts s answers) (ht : Threads s answers)
    (hload : a.output.routed?.isSome → s'.handle.currentLoad + 1 = s.handle.currentLoad) :
    Threads s' (answers ++ [a]) := by
  obtain ⟨before, after, output⟩ := a
  have hbefore : (∀ b ∈ answers ++ [(⟨before, after, output⟩ : Answer σ w)], ¬b.output.overbooks) →
      (∀ b ∈ answers, ¬b.output.overbooks) ∧ ¬output.overbooks := fun h =>
    ⟨fun b hb => h b (List.mem_append_left _ hb), h _ (List.mem_append_right _ List.mem_cons_self)⟩
  simp only at h
  cases h with
  | keep hserver hhandle hfutures hflow =>
    exact ⟨by rw [hserver, ht.queue], by rw [hserver, hhandle, ht.capacity],
      by rw [hserver, hflow, ht.active],
      fun h => by rw [hserver, hhandle]; exact ht.accepted (hbefore h).1⟩
  | ready waker hs' =>
    subst hs'
    exact ⟨ht.queue, ht.capacity, ht.active, fun h => ht.accepted (hbefore h).1⟩
  | refuse waker hs' =>
    subst hs'
    exact ⟨ht.queue, ht.capacity, ht.active, fun h => ht.accepted (hbefore h).1⟩
  | call attempt handle req hreq hserver hhandle hfutures hflow =>
    obtain ⟨hid, nextRequestId, rfl⟩ := createRequestAttempt_spec hreq
    refine ⟨by rw [hserver, ht.queue], by rw [hserver, hhandle, ht.capacity], ?_, fun h => ?_⟩
    · rw [hserver, hflow, Multiset.countP_cons_of_neg _ (by simp [Event.isCompletion]), ht.active]
    · obtain ⟨hle, hrejected⟩ := ht.accepted (hbefore h).1
      have hcapacity : s.handle.currentLoad < s.handle.capacity := by
        by_contra hfull
        exact (hbefore h).2 (decide_eq_false hfull)
      rw [hserver, hhandle]
      exact ⟨hcapacity, hrejected⟩
  | poll i receiver hreceiver hs' =>
    obtain ⟨h₁, h₂, h₃, -⟩ := poll_keep σ s i receiver
    rw [← hs'] at h₁ h₂ h₃
    exact ⟨by rw [h₁, ht.queue], by rw [h₁, h₂, ht.capacity], by rw [h₁, h₃, ht.active],
      fun h => by rw [h₁, h₂]; exact ht.accepted (hbefore h).1⟩
  | drop i hs' =>
    subst hs'
    exact ⟨ht.queue, ht.capacity, ht.active, fun h => ht.accepted (hbefore h).1⟩
  | serve event rest now sends hflow hprocess hhandle hfutures hflow' =>
    have hinFlight := hs.inFlight
    rw [hflow, Multiset.rel_cons_left] at hinFlight
    obtain ⟨call, others, hcarries, hrest, hcons⟩ := hinFlight
    obtain ⟨next, hown, hnext, hqueue, hcapacity, hcases⟩ := serve_spec ht.queue hcarries hprocess
    have hactive := ht.active
    rw [hflow] at hactive
    rw [hown, Multiset.singleton_add] at hflow'
    have hcard : s.handle.currentLoad = rest.card + 1 := by
      rw [hs.load, ← Multiset.coe_card, ← Multiset.card_eq_card_of_rel hs.inFlight, hflow, Multiset.card_cons]
    have hcount := Multiset.countP_le_card (fun e : Event => e.isCompletion = true) rest
    refine ⟨hqueue, by rw [hcapacity, hhandle, ht.capacity], ?_, fun h => ?_⟩
    · rw [hflow']
      rcases hcases with ⟨he, -, hn, ha, -⟩ | ⟨he, hn, ha, -⟩ | ⟨he, -, hn, ha⟩
      · rw [Multiset.countP_cons_of_neg _ (by simp [he])] at hactive
        rw [Multiset.countP_cons_of_pos (p := fun e : Event => e.isCompletion = true) _ hn, ha, hactive]
      · rw [Multiset.countP_cons_of_pos (p := fun e : Event => e.isCompletion = true) _ he] at hactive
        rw [Multiset.countP_cons_of_neg _ (by simp [hn]), ha, hactive, Nat.add_sub_cancel]
      · rw [Multiset.countP_cons_of_neg _ (by simp [he])] at hactive
        rw [Multiset.countP_cons_of_neg _ (by simp [hn]), ha, hactive]
    · obtain ⟨hle, hrejected⟩ := ht.accepted (hbefore h).1
      refine ⟨by rw [hhandle]; exact hle, ?_⟩
      rcases hcases with ⟨-, -, -, -, hr⟩ | ⟨-, -, -, hr⟩ | ⟨he, hfull, -, -⟩
      · rw [hr, hrejected]
      · rw [hr, hrejected]
      · -- the request itself is part of the load, so that a thread is free
        rw [Multiset.countP_cons_of_neg _ (by simp [he])] at hactive
        have := ht.capacity
        omega
  | route response hflow hserver hhandle hfutures =>
    have hactive := ht.active
    rw [hflow, Multiset.countP_cons_of_neg _ (by simp [Event.isCompletion])] at hactive
    refine ⟨by rw [hserver, ht.queue], by rw [hserver, hhandle, ht.capacity], by rw [hserver, hactive],
      fun h => ?_⟩
    obtain ⟨hle, hrejected⟩ := ht.accepted (hbefore h).1
    have := hload rfl
    have hcapacity : s'.handle.capacity = s.handle.capacity := by rw [hhandle]
    exact ⟨by omega, by rw [hserver, hrejected]⟩
  | ignore event hmem hno =>
    obtain ⟨call, -, hcarries⟩ := Multiset.exists_mem_of_rel_of_mem hs.inFlight hmem
    exact absurd hcarries (hno _ _)

/-- Who has been refused, with no response routed since, is registered. -/
def Waits (s : DesService χ δ τ ρ w) (answers : List (Answer σ w)) : Prop :=
  ∀ waker, Trace.Since (fun a => a.output.refuses waker) (fun a => a.output.routed?.isSome) answers → waker ∈ s.handle.wakers

omit [LawfulOneshot χ] in
/-- An operation wakes everybody, or registers who is refused. -/
theorem Effect.wakers (h : Effect s s' output) :
    (∀ r woken, output = .routed r woken → woken = s.handle.wakers) ∧
    (output.routed? = none → ∀ waker ∈ s.handle.wakers, waker ∈ s'.handle.wakers) ∧
    ∀ waker, output.refuses waker → waker ∈ s'.handle.wakers := by
  cases h with
  | keep hserver hhandle => exact ⟨nofun, fun _ _ h => hhandle ▸ h, nofun⟩
  | ready waker hs' => exact ⟨nofun, fun _ _ h => hs' ▸ h, nofun⟩
  | refuse waker hs' =>
    subst hs'
    refine ⟨nofun, fun _ _ h => List.mem_append_left _ h, ?_⟩
    rintro waker' rfl
    exact List.mem_append_right _ List.mem_cons_self
  | call attempt handle req hreq hserver hhandle =>
    obtain ⟨-, nextRequestId, rfl⟩ := createRequestAttempt_spec hreq
    exact ⟨nofun, fun _ _ h => by rw [hhandle]; exact h, nofun⟩
  | poll i receiver hreceiver hs' =>
    refine ⟨nofun, fun _ _ h => ?_, nofun⟩
    rw [hs', (poll_keep σ s i receiver).2.1]
    exact h
  | drop i hs' => exact ⟨nofun, fun _ _ h => hs' ▸ h, nofun⟩
  | serve event rest now sends hflow hprocess hhandle => exact ⟨nofun, fun _ _ h => hhandle ▸ h, nofun⟩
  | route response =>
    refine ⟨?_, nofun, nofun⟩
    rintro r woken ⟨⟩
    rfl
  | ignore event hmem hno hhandle => exact ⟨nofun, fun _ _ h => hhandle ▸ h, nofun⟩

omit [LawfulOneshot χ] in
theorem Effect.waits (h : Effect s s' a.output) (hs : Waits s answers) : Waits s' (answers ++ [a]) := by
  intro waker hsince
  obtain ⟨-, hkeep, hrefused⟩ := h.wakers
  rcases Trace.since_concat.mp hsince with ⟨hsince, hnone⟩ | hrefuses
  · exact hkeep (Option.not_isSome_iff_eq_none.mp hnone) waker (hs waker hsince)
  · exact hrefused waker hrefuses

end

/-! ## Runs -/

/-- What a service promises, after these operations. -/
structure Served (s : DesService χ δ τ ρ w) (answers : List (Answer σ w)) : Prop where
  /-- The load is the number of attempts whose response has not been routed; each of them has one
  event in flight. -/
  load : s.handle.currentLoad = (outstanding answers).length
  inFlight : Multiset.Rel (Carries s.handle.keys.router) s.flow (outstanding answers)
  no_underflow : ∀ a ∈ answers, a.output.routed?.isSome → a.after + 1 = a.before
  accepted : (∀ a ∈ answers, ¬a.output.overbooks) → s.server.requestsRejected = 0
  /-- Calls have futures and attempts of their own. -/
  futures_nodup : ((calls answers).map fun call => call.1).Nodup
  ids_nodup : ((calls answers).map fun call => call.2.id).Nodup
  /-- A future that is alive waits until the response to its attempt is routed, and is ready with
  that then. -/
  alive : ∀ i receiver, s.futures.get i = some receiver → ∃ attempt, (i, attempt) ∈ calls answers ∧
    ((i, attempt) ∈ outstanding answers ∧ (s.poll σ i receiver).2 = .pending ∨
      ∃ r ∈ routed answers, Answers r attempt ∧ (s.poll σ i receiver).2 = .ready (responseToHttp r))
  /-- A future that was ready was ready with the response to its attempt. -/
  resolved : ∀ a ∈ answers, ∀ i result, a.output = .polled i (.ready result) →
    ∃ attempt r, (i, attempt) ∈ calls answers ∧ r ∈ routed answers ∧ Answers r attempt ∧ result = responseToHttp r
  /-- Who was refused is woken by the next response that is routed. -/
  woken : Trace.Each (fun before b => ∀ waker r woken, b.output = .routed r woken →
    Trace.Since (fun a => a.output.refuses waker) (fun a => a.output.routed?.isSome) before → waker ∈ woken) answers

/-- What holds after any operations. -/
structure Kept (s : DesService χ δ τ ρ w) (answers : List (Answer σ w)) : Prop where
  accounts : Accounts s answers
  receivers : Receivers s answers
  threads : Threads s answers
  waits : Waits s answers
  no_underflow : ∀ a ∈ answers, a.output.routed?.isSome → a.after + 1 = a.before
  woken : Trace.Each (fun before b => ∀ waker r woken, b.output = .routed r woken →
    Trace.Since (fun a => a.output.refuses waker) (fun a => a.output.routed?.isSome) before → waker ∈ woken) answers

omit [ServiceTimeDistribution δ] in
theorem kept_build (keys : ServiceKeys) (threadCapacity : Nat) (d : δ) (idSeed : BitVec 64) :
    Kept (build keys threadCapacity d idSeed : DesService χ δ τ ρ w) ([] : List (Answer σ w)) := by
  have hflow : (build keys threadCapacity d idSeed : DesService χ δ τ ρ w).flow = 0 := rfl
  refine ⟨⟨?_, rfl, List.forall_mem_nil _, List.nodup_nil, List.nodup_nil, List.forall_mem_nil _,
    fun id i => ?_⟩,
    ⟨fun i c hi => (by cases hi), List.forall_mem_nil _⟩, ⟨rfl, rfl, rfl, fun _ => ⟨Nat.zero_le _, rfl⟩⟩,
    fun waker h => absurd h Trace.not_since_nil, List.forall_mem_nil _, .nil⟩
  · rw [hflow]
    exact .zero
  · constructor
    · intro h
      cases h
    · rintro ⟨call, hcall, -⟩
      cases hcall

variable [EventFrontierPolicy φ] {answers : List (Answer σ w)} {a : Answer σ w}

theorem Kept.step {op : Op τ ρ φ w} (h : Kept s answers) (hstep : s.step op = some (s', a)) :
    Kept s' (answers ++ [a]) := by
  obtain ⟨⟨s₁, output⟩, hperform, h₁⟩ := Option.map_eq_some_iff.mp hstep
  cases h₁
  have heffect := effect hperform
  obtain ⟨haccounts, hreceivers, hload⟩ := Effect.accounts
    (a := ⟨_, _, output⟩) heffect h.accounts h.receivers h.threads.queue
  refine ⟨haccounts, hreceivers, heffect.threads (a := ⟨_, _, output⟩) h.accounts h.threads hload,
    heffect.waits (a := ⟨_, _, output⟩) h.waits,
    List.forall_mem_append.mpr ⟨h.no_underflow, List.forall_mem_singleton.mpr hload⟩,
    h.woken.concat fun waker r woken hrouted hsince => ?_⟩
  rw [heffect.wakers.1 r woken hrouted]
  exact h.waits waker hsince

omit [ServiceTimeDistribution δ] [EventFrontierPolicy φ] in
theorem Kept.served (h : Kept s answers) : Served s answers := by
  refine ⟨h.accounts.load, h.accounts.inFlight, h.no_underflow,
    fun hcapacity => (h.threads.accepted hcapacity).2,
    h.accounts.futures_nodup, h.accounts.ids_nodup, fun i receiver hi => ?_, h.receivers.polled, h.woken⟩
  obtain ⟨attempt, hattempt, hstate⟩ := h.receivers.futures i receiver hi
  refine ⟨attempt, hattempt, hstate.imp (fun ⟨hout, hopen⟩ => ⟨hout, ?_⟩) fun ⟨r, hr, hanswers, empty,
    hopen, hsent⟩ =>
    ⟨r, hr, hanswers, ?_⟩⟩
  · rw [poll_open i hopen]
  · rw [hsent, poll_sent i r hopen]

/-- Any run of a service, its clones and their simulation. -/
theorem run_served {keys : ServiceKeys} {threadCapacity : Nat} {d : δ} {idSeed : BitVec 64} {ops : List (Op τ ρ φ w)}
    (hrun : Machine.run step (build keys threadCapacity d idSeed : DesService χ δ τ ρ w) ops = some (s, answers)) :
    Served s answers :=
  (Machine.run_history (P := Kept) (fun _ _ _ _ _ h hs => h.step hs)
    (kept_build keys threadCapacity d idSeed) hrun).served

omit [ServiceTimeDistribution δ] [LawfulOneshot χ] in
/-- A future that was ready was ready with a response, whose status is 200 or 503. -/
theorem Served.asU16_status [LawfulStatusCode σ] (h : Served s answers) (ha : a ∈ answers) {i : Nat}
    {result : Except ServiceError (HttpResponse σ)} (hpolled : a.output = .polled i (.ready result)) :
    ∃ response, result = .ok response ∧
      (StatusCode.asU16 response.status = 200 ∨ StatusCode.asU16 response.status = 503) := by
  obtain ⟨attempt, r, -, -, hanswers, rfl⟩ := h.resolved a ha i result hpolled
  obtain ⟨response, hresponse, hstatus⟩ : ∃ response : HttpResponse σ, _ ∧ _ := hanswers.asU16_status
  refine ⟨response, hresponse, ?_⟩
  split at hstatus
  · exact .inl hstatus
  · exact .inr hstatus

/-- A channel that keeps what is sent. -/
inductive Mailbox where
  | waiting
  | sent (response : Response)
  | closed

instance : Oneshot Mailbox where
  channel := .waiting
  send _ response := .sent response
  dropSender _ := .closed
  poll
    | .waiting => (.pending, .waiting)
    | .sent response => (.ready (.ok response), .closed)
    | .closed => (.ready (.error ()), .closed)

instance : LawfulOneshot Mailbox where
  Waiting c := c = .waiting
  waiting_channel := rfl
  poll_pending c h := by
    subst h
    exact ⟨rfl, rfl⟩
  poll_send c response _ := rfl

/-- `GET /`. -/
def getRoot : Request := ⟨⟨"GET".toList, "/".toList, [], [], by decide, by decide⟩, none⟩

/-- Two services for a server with one thread: the second one waits until the response to the first
one has been routed. -/
def oneThread : List (Op Unit Unit FifoFrontierPolicy Nat) :=
  [.pollReady 1, .call false getRoot, .pollReady 2, .other .pop, .other .pop, .other .pop, .poll 0,
    .pollReady 2, .call true getRoot,
    .drain]

theorem run_served_oneThread : ∃ (s : DesService Mailbox Service.ConstantServiceTime Unit Unit Nat)
    (answers : List (Answer Plain.Status Nat)),
    Machine.run step (build ⟨7, 8, by decide⟩ 1 ⟨5⟩ 0) oneThread = some (s, answers) ∧
      answers.map (·.after) = [0, 1, 1, 1, 1, 0, 0, 0, 1, 1] ∧
    Served s answers :=
  have hrun := (rfl : Machine.run step (build ⟨7, 8, by decide⟩ 1
    ⟨5⟩ 0 : DesService Mailbox Service.ConstantServiceTime Unit Unit Nat)
    oneThread = some (_, _))
  ⟨_, _, hrun, by decide, run_served hrun⟩

end DesService

end DesCartes.Tower
