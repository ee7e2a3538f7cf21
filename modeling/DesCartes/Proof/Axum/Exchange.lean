import DesCartes.Framework.HashMap
import DesCartes.Framework.Machine
import DesCartes.Impl.Axum.Exchange
import DesCartes.Proof.Axum.Http
import DesCartes.Proof.Transport.Endpoints

/-!
# A request is handled at most once, and gets its own response

There is at most one task for a request: the message on its way to the server, what the server does
with it, the message on its way back. The response is known at the client by the number of the
request, and no other component gets it as long as no endpoint of a client is shared (`Unshared`).

* `Numbered`: the requests of a client and its pending ones; `Tracked`: the tasks; `History`: what was
  returned, routed and responded;
* `Kept.step`: an operation;
* `run_exchanged`: any run.
-/

namespace DesCartes.Axum

open Transport (ClientEndpoint Component EndpointId EndpointInfo Endpoints SimTransport SimEndpointRegistry TransportEvent TransportMessage NetworkModel SimpleNetworkModel)
open Transport.Endpoints (IsClient isClient_setClient clientEndpointId moved_sends moved_one)

section
variable {http : HttpCrate} {ω : Type}

/-- The request was sent, has got no response, and has not timed out; its future may be dropped. -/
def Stage.Outstanding : Stage http ω → Prop
  | .sent response => response.senderAlive = true
  | _ => False

/-- The future has returned, or was dropped. -/
def Stage.Over : Stage http ω → Prop
  | .sent response => response.receiverAlive = false
  | .ended => True
  | _ => False

/-- The request was sent. -/
def Stage.Sent : Stage http ω → Prop
  | .sent _ => True
  | _ => False

end

namespace Exchanges

variable {ν ω : Type} {http : HttpCrate} {s s' : Exchanges ν http ω}

/-! ## Conditions and histories -/

/-- The endpoint of a component that is installed is not the one of a client. -/
def Unshared (s : Exchanges ν http ω) : Op http ω → Prop
  | .serve serviceName instanceName => s.Free (EndpointInfo.new serviceName instanceName).id
  | .install _ clientName endpointId _ => s.Free (endpointId.getD (clientEndpointId clientName))
  | .connect serviceName => s.Free (clientEndpointId (s.nextClientName serviceName))
  | .connectSocketAddr serviceName _ => s.Free (clientEndpointId (s.nextClientName serviceName))
  | _ => True

instance (s : Exchanges ν http ω) (op : Op http ω) : Decidable (s.Unshared op) := by
  unfold Unshared
  split <;> infer_instance

/-- The request that has returned. -/
def Output.returned? : Output http → Option Nat
  | .returned k _ => some k
  | _ => none

/-- The request that the router was called with. -/
def Output.routed? : Output http → Option Nat
  | .routed k _ => some k
  | _ => none

/-- The request that there was a response to. -/
def Output.responded? : Output http → Option Nat
  | .responded k _ => some k
  | _ => none

/-- The requests that have returned. -/
def returned (answers : List (Output http)) : List Nat := answers.filterMap Output.returned?

/-- The requests that a router was called with. -/
def routed (answers : List (Output http)) : List Nat := answers.filterMap Output.routed?

/-- The requests that there was a response to. -/
def responded (answers : List (Output http)) : List Nat := answers.filterMap Output.responded?

/-- The request of the client was sent, has got no response, and has not timed out. -/
def Outstanding (s : Exchanges ν http ω) (k : Nat) (key : Uuid) : Prop :=
  ∃ call, s.calls.get k = some call ∧ call.client = key ∧ call.stage.Outstanding

section
variable [Bincode HttpResponseWire]

/-- The result is what the client makes of a response to the request. -/
def Own (answers : List (Output http)) (k : Nat) (result : Except Error (Response http)) : Prop :=
  ∃ respWire, .responded k respWire ∈ answers ∧ result = responseResult (responsePayload respWire)

/-- What a request returns that has got no response. -/
def Unanswered (result : Except Error (Response http)) : Prop :=
  ∃ text, result = .error (.notFound text) ∨ result = .error (.timeout text) ∨
    result = .error (.internal text)

/-- A request returns once; a router is called with it once at most, as it is received, and what it
returns is responded once at most. A request that returns a response returns its own one; no request
is cancelled. The pending requests of a client are those that are outstanding. -/
structure Exchanged (s : Exchanges ν http ω) (answers : List (Output http)) : Prop where
  returned_once : (returned answers).Nodup
  routed_once : (routed answers).Nodup
  responded_once : (responded answers).Nodup
  routed : ∀ k req, .routed k req ∈ answers → ∃ call, s.calls.get k = some call ∧ call.request.Received req
  responded : ∀ k respWire, .responded k respWire ∈ answers →
    ∃ req, ∃ result : Routed http, .routed k req ∈ answers ∧ respWire = result.respWire
  own : ∀ k result, .returned k result ∈ answers → Own answers k result ∨ Unanswered result
  not_cancelled : ∀ k, .returned k (.error .cancelled) ∉ answers
  pending : ∀ key c k, s.IsClient key c →
    ((∃ correlationId, c.pending.lookup correlationId = some k) ↔ s.Outstanding k key)

end

/-! ## Requests -/

/-- A client numbers its requests, and knows those that wait by their numbers. -/
structure Numbered (s : Exchanges ν http ω) : Prop where
  home : ∀ k call, s.calls.get k = some call → ∃ c, s.IsClient call.client c ∧ call.number ≤ c.nextCounter
  unique : ∀ k k' call call', s.calls.get k = some call → s.calls.get k' = some call' →
    call.client = call'.client →
    call.number = call'.number → k = k'
  pending : ∀ key c correlationId k, s.IsClient key c → (c.pending.lookup correlationId = some k ↔
    ∃ call, s.calls.get k = some call ∧ call.client = key ∧
      c.correlationId call.number = correlationId ∧ call.stage.Outstanding)

/-- The stage of a request is another one, and the pending requests of its client are so too. -/
theorem Numbered.update (h : Numbered s) {k : Nat} {call : Call http ω}
    (hcall : s.calls.get k = some call) {c : ClientEndpoint} (hc : s.IsClient call.client c)
    {stage : Stage http ω} {pending : AList fun _ : List Char => Nat}
    (hpending : ∀ correlationId k', pending.lookup correlationId = some k' ↔ k' = k ∧
      c.correlationId call.number = correlationId ∧ stage.Outstanding ∨ k' ≠ k ∧
      c.pending.lookup correlationId = some k')
    (hcalls : s'.calls = s.calls.set k { call with stage })
    (hclients : ∀ key c', s'.IsClient key c' ↔ key = call.client ∧ c' = { c with pending } ∨
      key ≠ call.client ∧ s.IsClient key c') :
    Numbered s' := by
  have hget : ∀ k' call', s'.calls.get k' = some call' ↔
      k' = k ∧ call' = { call with stage } ∨ k' ≠ k ∧ s.calls.get k' = some call' := by
    rw [hcalls]
    exact fun k' call' => Table.get_set_eq_some hcall
  refine ⟨fun k' call' hcall' => ?_, fun k₁ k₂ call₁ call₂ h₁ h₂ hclient hnumber => ?_,
    fun key c' correlationId k' hc' => ?_⟩
  · obtain ⟨old, hold, hclient, hnumber⟩ : ∃ old, s.calls.get k' = some old ∧ call'.client = old.client ∧
        call'.number = old.number := by
      rcases (hget k' call').mp hcall' with ⟨rfl, rfl⟩ | ⟨-, hsame⟩
      · exact ⟨call, hcall, rfl, rfl⟩
      · exact ⟨call', hsame, rfl, rfl⟩
    obtain ⟨c₁, hc₁, hle⟩ := h.home k' old hold
    rw [hclient, hnumber]
    by_cases hne : old.client = call.client
    · rw [hne] at hc₁ ⊢
      cases hc₁.unique hc
      exact ⟨_, (hclients _ _).mpr (.inl ⟨rfl, rfl⟩), hle⟩
    · exact ⟨c₁, (hclients _ _).mpr (.inr ⟨hne, hc₁⟩), hle⟩
  · have hold : ∀ k' call', s'.calls.get k' = some call' → ∃ old, s.calls.get k' = some old ∧
        old.client = call'.client ∧ old.number = call'.number := fun k' call' hcall' => by
      rcases (hget k' call').mp hcall' with ⟨rfl, rfl⟩ | ⟨-, hsame⟩
      · exact ⟨call, hcall, rfl, rfl⟩
      · exact ⟨call', hsame, rfl, rfl⟩
    obtain ⟨old₁, hold₁, hclient₁, hnumber₁⟩ := hold k₁ call₁ h₁
    obtain ⟨old₂, hold₂, hclient₂, hnumber₂⟩ := hold k₂ call₂ h₂
    exact h.unique k₁ k₂ old₁ old₂ hold₁ hold₂ (by rw [hclient₁, hclient₂, hclient])
      (by rw [hnumber₁, hnumber₂, hnumber])
  · rcases (hclients key c').mp hc' with ⟨rfl, rfl⟩ | ⟨hne, hc'⟩
    · rw [hpending correlationId k', h.pending _ c correlationId k' hc]
      constructor
      · rintro (⟨rfl, hid, hwaits⟩ | ⟨hne, call', hcall', hrest⟩)
        · exact ⟨_, (hget _ _).mpr (.inl ⟨rfl, rfl⟩), rfl, hid, hwaits⟩
        · exact ⟨call', (hget _ _).mpr (.inr ⟨hne, hcall'⟩), hrest⟩
      · rintro ⟨call', hcall', hclient, hid, hwaits⟩
        rcases (hget k' call').mp hcall' with ⟨rfl, rfl⟩ | ⟨hne, hsame⟩
        · exact .inl ⟨rfl, hid, hwaits⟩
        · exact .inr ⟨hne, call', hsame, hclient, hid, hwaits⟩
    · rw [h.pending key c' correlationId k' hc']
      constructor
      · rintro ⟨call', hcall', hclient, hrest⟩
        refine ⟨call', (hget _ _).mpr (.inr ⟨fun heq => hne ?_, hcall'⟩), hclient, hrest⟩
        cases (heq ▸ hcall').symm.trans hcall
        exact hclient.symm
      · rintro ⟨call', hcall', hclient, hrest⟩
        rcases (hget k' call').mp hcall' with ⟨-, rfl⟩ | ⟨-, hsame⟩
        · exact absurd hclient.symm hne
        · exact ⟨call', hsame, hclient, hrest⟩

/-- The stage of a request is another one, in which it waits as it did. -/
theorem Numbered.setStage (h : Numbered s) {k : Nat} {call : Call http ω}
    (hcall : s.calls.get k = some call) {stage : Stage http ω}
    (hwaits : stage.Outstanding ↔ call.stage.Outstanding) : Numbered (s.setStage k call stage) := by
  obtain ⟨c, hc, -⟩ := h.home k call hcall
  suffices hpending : ∀ correlationId k', c.pending.lookup correlationId = some k' ↔
      k' = k ∧ c.correlationId call.number = correlationId ∧ stage.Outstanding ∨
        k' ≠ k ∧ c.pending.lookup correlationId = some k' from
    h.update hcall hc hpending rfl fun key c' => hc.iff
  intro correlationId k'
  rw [hwaits, h.pending _ c correlationId k' hc]
  constructor
  · rintro ⟨call', hcall', hclient, hid, hw⟩
    by_cases hk : k' = k
    · subst hk
      cases hcall.symm.trans hcall'
      exact .inl ⟨rfl, hid, hw⟩
    · exact .inr ⟨hk, call', hcall', hclient, hid, hw⟩
  · rintro (⟨rfl, hid, hw⟩ | ⟨-, hold⟩)
    · exact ⟨call, hcall, rfl, hid, hw⟩
    · exact hold

/-- What the other requests of a client are known by. -/
theorem Numbered.lookup_ne (h : Numbered s) {k : Nat} {call : Call http ω}
    (hcall : s.calls.get k = some call) {c : ClientEndpoint} (hc : s.IsClient call.client c)
    {correlationId : List Char} {k' : Nat} (hlookup : c.pending.lookup correlationId = some k') :
    k' = k ↔ correlationId = c.correlationId call.number := by
  obtain ⟨call', hcall', hclient, rfl, -⟩ := (h.pending _ c correlationId k' hc).mp hlookup
  constructor
  · rintro rfl
    cases hcall.symm.trans hcall'
    rfl
  · exact fun hid => h.unique k' k call' call hcall' hcall hclient (ClientEndpoint.correlationId_inj hid)

/-- A request that is sent is pending. -/
theorem Numbered.insert (h : Numbered s) {k : Nat} {call : Call http ω}
    (hcall : s.calls.get k = some call) {c : ClientEndpoint} (hc : s.IsClient call.client c)
    (hnot : ¬call.stage.Outstanding) :
    c.pending.lookup (c.correlationId call.number) = none ∧
      Numbered ((s.setStage k call (.sent .new)).setClient call.client
        { c with pending := c.pending.insert (c.correlationId call.number) k }) := by
  have hnone : c.pending.lookup (c.correlationId call.number) = none := by
    refine Option.eq_none_iff_forall_ne_some.mpr fun k' hk' => hnot ?_
    cases (h.lookup_ne hcall hc hk').mpr rfl
    obtain ⟨call', hcall', -, -, hwaits⟩ := (h.pending _ c _ _ hc).mp hk'
    cases hcall.symm.trans hcall'
    exact hwaits
  refine ⟨hnone, h.update hcall hc (fun correlationId k' => ?_) rfl fun key c' => isClient_setClient⟩
  rw [AList.lookup_insert_eq_some]
  constructor
  · rintro (⟨rfl, rfl⟩ | ⟨hne, hlookup⟩)
    · exact .inl ⟨rfl, rfl, rfl⟩
    · exact .inr ⟨fun hk => hne ((h.lookup_ne hcall hc hlookup).mp hk), hlookup⟩
  · rintro (⟨rfl, rfl, -⟩ | ⟨hne, hlookup⟩)
    · exact .inl ⟨rfl, rfl⟩
    · exact .inr ⟨fun hid => hne ((h.lookup_ne hcall hc hlookup).mpr hid), hlookup⟩

/-- A request that does not wait any more is not pending. -/
theorem Numbered.erase (h : Numbered s) {k : Nat} {call : Call http ω}
    (hcall : s.calls.get k = some call) {c : ClientEndpoint} (hc : s.IsClient call.client c)
    {stage : Stage http ω} (hnot : ¬stage.Outstanding) :
    Numbered ((s.setStage k call stage).setClient call.client
      { c with pending := c.pending.erase (c.correlationId call.number) }) := by
  refine h.update hcall hc (fun correlationId k' => ?_) rfl fun key c' => isClient_setClient
  rw [AList.lookup_erase_eq_some]
  constructor
  · rintro ⟨hne, hlookup⟩
    exact .inr ⟨fun hk => hne ((h.lookup_ne hcall hc hlookup).mp hk), hlookup⟩
  · rintro (⟨-, -, hwaits⟩ | ⟨hne, hlookup⟩)
    · exact absurd hwaits hnot
    · exact ⟨fun hid => hne ((h.lookup_ne hcall hc hlookup).mpr hid), hlookup⟩

/-- A request is made. -/
theorem Numbered.request (h : Numbered s) {key : Uuid} {c : ClientEndpoint} (hc : s.IsClient key c)
    (request : Request http) (timeout : Option Nat) :
    Numbered ({ s with calls := s.calls.insert ⟨key, c.nextCounter + 1, request, timeout, .selecting false⟩ }.setClient key
      { c with nextCounter := c.nextCounter + 1 }) := by
  refine ⟨fun k call hcall => ?_, fun k k' call call' hcall hcall' hclient hnumber => ?_,
    fun key' c' correlationId k hc' => ?_⟩
  · rcases Table.get_insert_eq_some.mp hcall with ⟨-, rfl⟩ | hcall
    · exact ⟨_, isClient_setClient.mpr (.inl ⟨rfl, rfl⟩), le_rfl⟩
    · obtain ⟨c₁, hc₁, hle⟩ := h.home k call hcall
      by_cases hne : call.client = key
      · rw [hne] at hc₁ ⊢
        cases hc₁.unique hc
        exact ⟨_, isClient_setClient.mpr (.inl ⟨rfl, rfl⟩), Nat.le_succ_of_le hle⟩
      · exact ⟨c₁, isClient_setClient.mpr (.inr ⟨hne, hc₁⟩), hle⟩
  · have hnew : ∀ k call, s.calls.get k = some call → call.client = key →
        call.number ≠ c.nextCounter + 1 := by
      intro k₁ call₁ hcall₁ hclient₁ hnumber₁
      obtain ⟨c₁, hc₁, hle⟩ := h.home k₁ call₁ hcall₁
      rw [hclient₁] at hc₁
      cases hc₁.unique hc
      omega
    rcases Table.get_insert_eq_some.mp hcall with ⟨rfl, rfl⟩ | hcall
    · rcases Table.get_insert_eq_some.mp hcall' with ⟨rfl, -⟩ | hcall'
      · rfl
      · exact absurd hnumber.symm (hnew k' call' hcall' hclient.symm)
    · rcases Table.get_insert_eq_some.mp hcall' with ⟨rfl, rfl⟩ | hcall'
      · exact absurd hnumber (hnew k call hcall hclient)
      · exact h.unique k k' call call' hcall hcall' hclient hnumber
  · obtain ⟨c₀, hc₀, hpending, hid⟩ : ∃ c₀, s.IsClient key' c₀ ∧ c'.pending = c₀.pending ∧
        ∀ n, c'.correlationId n = c₀.correlationId n := by
      rcases isClient_setClient.mp hc' with ⟨rfl, rfl⟩ | ⟨-, hc'⟩
      · exact ⟨c, hc, rfl, fun _ => rfl⟩
      · exact ⟨c', hc', rfl, fun _ => rfl⟩
    rw [hpending, h.pending key' c₀ correlationId k hc₀]
    simp only [hid]
    constructor
    · rintro ⟨call, hcall, hrest⟩
      exact ⟨call, Table.get_insert_eq_some.mpr (.inr hcall), hrest⟩
    · rintro ⟨call, hcall, hclient, hid, hwaits⟩
      rcases Table.get_insert_eq_some.mp hcall with ⟨-, rfl⟩ | hcall
      · exact hwaits.elim
      · exact ⟨call, hcall, hclient, hid, hwaits⟩

/-- A component that is added has no requests. -/
theorem Numbered.added (h : Numbered s) (hkeyed : s.Keyed) {component : Component Unit}
    {endpoints : Endpoints ν Unit} {key : Uuid} (hadded : s.Added component endpoints key)
    (hpending : ∀ c, component = .client c → c.pending = ∅) : Numbered { s with toEndpoints := endpoints } := by
  refine ⟨fun k call hcall => ?_, h.unique, fun key' c correlationId k hc => ?_⟩
  · obtain ⟨c, hc, hle⟩ := h.home k call hcall
    exact ⟨c, hadded.keep hkeyed hc, hle⟩
  · rcases hadded.isClient.mp hc with ⟨rfl, hcomponent⟩ | ⟨-, hc⟩
    · rw [hpending c hcomponent]
      refine ⟨fun hlookup => absurd hlookup (by simp), ?_⟩
      rintro ⟨call, hcall, hclient, -⟩
      obtain ⟨c', hc', -⟩ := h.home k call hcall
      exact absurd (hclient ▸ hkeyed _ _ hc') hadded.fresh
    · exact h.pending key' c correlationId k hc

/-! ## Tasks and answers -/

/-- The clients and the requests are still there. -/
structure Later (s s' : Exchanges ν http ω) : Prop where
  endpoints : s.toEndpoints.Later s'.toEndpoints
  calls : ∀ k call, s.calls.get k = some call → ∃ call', s'.calls.get k = some call' ∧
    call'.client = call.client ∧
    call'.number = call.number ∧ call'.request = call.request ∧ (call.stage.Sent → call'.stage.Sent)

theorem Later.refl (s : Exchanges ν http ω) : Later s s :=
  ⟨.refl _, fun _ call hcall => ⟨call, hcall, rfl, rfl, rfl, id⟩⟩

theorem Later.trans {s₁ s₂ s₃ : Exchanges ν http ω} (h₁ : Later s₁ s₂) (h₂ : Later s₂ s₃) :
    Later s₁ s₃ := by
  refine ⟨h₁.endpoints.trans h₂.endpoints, fun k call hcall => ?_⟩
  obtain ⟨call', hcall', hclient', hnumber', hrequest', hsent'⟩ := h₁.calls k call hcall
  obtain ⟨call'', hcall'', hclient'', hnumber'', hrequest'', hsent''⟩ := h₂.calls k call' hcall'
  exact ⟨call'', hcall'', hclient''.trans hclient', hnumber''.trans hnumber',
    hrequest''.trans hrequest', hsent'' ∘ hsent'⟩

theorem Later.setClient {key : Uuid} {c c' : ClientEndpoint} (hc : s.IsClient key c)
    (hendpoint : c'.clientEndpoint = c.clientEndpoint) (hname : c'.serviceName = c.serviceName) :
    Later s (s.setClient key c') :=
  ⟨.setClient hc hendpoint hname, (Later.refl s).calls⟩

theorem Later.setStage {k : Nat} {call : Call http ω} (hcall : s.calls.get k = some call)
    {stage : Stage http ω} (hsent : call.stage.Sent → stage.Sent) :
    Later s (s.setStage k call stage) := by
  refine ⟨.refl _, fun k' call' hcall' => ?_⟩
  by_cases hk : k' = k
  · subst hk
    cases hcall.symm.trans hcall'
    exact ⟨_, Table.get_set_self hcall, rfl, rfl, rfl, hsent⟩
  · exact ⟨call', (Table.get_set_eq_some hcall).mpr (.inr ⟨hk, hcall'⟩), rfl, rfl, rfl, id⟩

/-- The request was sent. -/
def IsSent (s : Exchanges ν http ω) (k : Nat) : Prop :=
  ∃ call, s.calls.get k = some call ∧ call.stage.Sent

/-- The request was sent from the endpoint, and with the id. -/
def Issued (s : Exchanges ν http ω) (k : Nat) (endpoint : EndpointId)
    (correlationId : Option (List Char)) : Prop :=
  ∃ call c, s.calls.get k = some call ∧ s.IsClient call.client c ∧ c.clientEndpoint = endpoint ∧
    correlationId = some (c.correlationId call.number) ∧ call.stage.Sent

theorem Issued.isSent {k : Nat} {endpoint : EndpointId} {correlationId : Option (List Char)}
    (h : s.Issued k endpoint correlationId) : s.IsSent k := by
  obtain ⟨call, c, hcall, -, -, -, hsent⟩ := h
  exact ⟨call, hcall, hsent⟩

theorem IsSent.later {k : Nat} (h : s.IsSent k) (hlater : Later s s') : s'.IsSent k := by
  obtain ⟨call, hcall, hsent⟩ := h
  obtain ⟨call', hcall', -, -, -, hkeep⟩ := hlater.calls k call hcall
  exact ⟨call', hcall', hkeep hsent⟩

theorem Issued.later {k : Nat} {endpoint : EndpointId} {correlationId : Option (List Char)}
    (h : s.Issued k endpoint correlationId) (hlater : Later s s') :
    s'.Issued k endpoint correlationId := by
  obtain ⟨call, c, hcall, hc, hendpoint, hid, hsent⟩ := h
  obtain ⟨call', hcall', hclient, hnumber, -, hkeep⟩ := hlater.calls k call hcall
  obtain ⟨c', hc', hendpoint', hname⟩ := hlater.endpoints.clients _ c hc
  refine ⟨call', c', hcall', hclient ▸ hc', hendpoint'.trans hendpoint, ?_, hkeep hsent⟩
  rw [hid, ClientEndpoint.correlationId, ClientEndpoint.correlationId, hendpoint', hname, hnumber]

/-- Neither was a router called with the request, nor was there a response to it. -/
def Unserved (answers : List (Output http)) (k : Nat) : Prop :=
  k ∉ routed answers ∧ k ∉ responded answers

section
variable {answers : List (Output http)} {o : Output http} {k : Nat}

theorem returned_snoc : returned (answers ++ [o]) = returned answers ++ o.returned?.toList := by
  cases h : o.returned? <;> simp [returned, h]

theorem routed_snoc : routed (answers ++ [o]) = routed answers ++ o.routed?.toList := by
  cases h : o.routed? <;> simp [routed, h]

theorem responded_snoc : responded (answers ++ [o]) = responded answers ++ o.responded?.toList := by
  cases h : o.responded? <;> simp [responded, h]

theorem mem_routed : k ∈ routed answers ↔ ∃ req, .routed k req ∈ answers := by
  simp only [routed, List.mem_filterMap]
  constructor
  · rintro ⟨o, ho, hk⟩
    cases o with
    | routed k' req =>
      cases hk
      exact ⟨req, ho⟩
    | _ => cases hk
  · rintro ⟨req, hreq⟩
    exact ⟨_, hreq, rfl⟩

/-- The answer is not about the service of the request. -/
def Aside (o : Output http) (k : Nat) : Prop := o.routed? ≠ some k ∧ o.responded? ≠ some k

theorem Unserved.snoc (h : Unserved answers k) (ho : Aside o k) : Unserved (answers ++ [o]) k := by
  rw [Unserved, routed_snoc, responded_snoc, List.mem_append, List.mem_append, Option.mem_toList,
    Option.mem_toList]
  exact ⟨fun hk => hk.elim h.1 ho.1, fun hk => hk.elim h.2 ho.2⟩

variable [Bincode HttpRequestWire] [Bincode HttpResponseWire]

omit [Bincode HttpRequestWire] in
theorem Own.snoc {result : Except Error (Response http)} (h : Own answers k result) :
    Own (answers ++ [o]) k result := by
  obtain ⟨respWire, hresp, hresult⟩ := h
  exact ⟨respWire, List.mem_append_left _ hresp, hresult⟩

/-- The payload is the one of the request. -/
def Asked (s : Exchanges ν http ω) (k : Nat) (payload : List UInt8) : Prop :=
  ∃ call req, s.calls.get k = some call ∧ requestResult payload = .ok req ∧ call.request.Received req

omit [Bincode HttpResponseWire] in
theorem Asked.later {payload : List UInt8} (h : s.Asked k payload) (hlater : Later s s') :
    s'.Asked k payload := by
  obtain ⟨call, req, hcall, hpayload, hreceived⟩ := h
  obtain ⟨call', hcall', -, -, hrequest, -⟩ := hlater.calls k call hcall
  exact ⟨call', req, hcall', hpayload, hrequest ▸ hreceived⟩

/-- What is to be done about a request is what comes next. -/
def Good (s : Exchanges ν http ω) (answers : List (Output http)) (task : Task) : Prop :=
  match task.work with
  | .event e =>
    let m := e.event.message
    m.messageType = .unaryRequest ∧ s.Issued task.call m.source m.correlationId ∧
      s.Asked task.call m.payload ∧
        Unserved answers task.call ∨
      m.messageType = .unaryResponse ∧ s.Issued task.call m.destination m.correlationId ∧
        (∃ respWire, .responded task.call respWire ∈ answers ∧ m.payload = responsePayload respWire) ∧
        (e.target = s.transportKey ∨ ∃ call, s.calls.get task.call = some call ∧ e.target = call.client)
  | .handle src _ correlationId encodedReq =>
    s.Issued task.call src (some correlationId) ∧ s.Asked task.call encodedReq ∧
      Unserved answers task.call
  | .route src _ correlationId =>
    s.Issued task.call src (some correlationId) ∧ task.call ∈ routed answers ∧
      task.call ∉ responded answers

theorem Good.isSent {task : Task} (h : Good s answers task) : s.IsSent task.call := by
  obtain ⟨k, work⟩ := task
  cases work with
  | event e => exact h.elim (fun h => h.2.1.isSent) fun h => h.2.1.isSent
  | handle => exact h.1.isSent
  | route => exact h.1.isSent

theorem Good.later {task : Task} (h : Good s answers task) (hlater : Later s s') :
    Good s' answers task := by
  obtain ⟨k, work⟩ := task
  cases work with
  | event e =>
    rcases h with ⟨htype, hissued, hasked, hserved⟩ | ⟨htype, hissued, hresp, htarget⟩
    · exact .inl ⟨htype, hissued.later hlater, hasked.later hlater, hserved⟩
    · refine .inr ⟨htype, hissued.later hlater, hresp, ?_⟩
      rcases htarget with htarget | ⟨call, hcall, htarget⟩
      · exact .inl (htarget.trans hlater.endpoints.transportKey.symm)
      · obtain ⟨call', hcall', hclient, -⟩ := hlater.calls _ call hcall
        exact .inr ⟨call', hcall', htarget.trans hclient.symm⟩
  | handle src dst correlationId encodedReq => exact ⟨h.1.later hlater, h.2.1.later hlater, h.2.2⟩
  | route src dst correlationId => exact ⟨h.1.later hlater, h.2⟩

theorem Good.snoc {task : Task} (h : Good s answers task) (ho : Aside o task.call) :
    Good s (answers ++ [o]) task := by
  obtain ⟨k, work⟩ := task
  cases work with
  | event e =>
    rcases h with ⟨htype, hissued, hasked, hserved⟩
      | ⟨htype, hissued, ⟨respWire, hresp, hpayload⟩, htarget⟩
    · exact .inl ⟨htype, hissued, hasked, hserved.snoc ho⟩
    · exact .inr ⟨htype, hissued, ⟨respWire, List.mem_append_left _ hresp, hpayload⟩, htarget⟩
  | handle src dst correlationId encodedReq => exact ⟨h.1, h.2.1, h.2.2.snoc ho⟩
  | route src dst correlationId =>
    refine ⟨h.1, ?_, ?_⟩
    · rw [routed_snoc]
      exact List.mem_append_left _ h.2.1
    · rw [responded_snoc, List.mem_append, Option.mem_toList]
      exact fun hk => hk.elim h.2.2 ho.2

/-- There is one thing to be done for a request, if any, and nothing before it is sent. -/
structure Tracked (s : Exchanges ν http ω) (answers : List (Output http)) : Prop where
  good : ∀ task ∈ s.tasks, Good s answers task
  single : (s.tasks.map Task.call).Nodup
  unsent : ∀ k, ¬s.IsSent k → Unserved answers k

/-- What has come to a request is its own response, and its sender is not dropped before. -/
def Sound (answers : List (Output http)) (k : Nat) : Stage http ω → Prop
  | .sent response => (∀ result, response.value = some result → Own answers k result) ∧
      (response.receiverAlive = true → response.value = none → response.senderAlive = true)
  | _ => True

omit [Bincode HttpRequestWire] in
theorem Sound.snoc {stage : Stage http ω} (h : Sound answers k stage) :
    Sound (answers ++ [o]) k stage := by
  cases stage with
  | sent response => exact ⟨fun result hresult => (h.1 result hresult).snoc, h.2⟩
  | _ => trivial

/-- What was returned, routed and responded. -/
structure History (s : Exchanges ν http ω) (answers : List (Output http)) : Prop where
  sound : ∀ k call, s.calls.get k = some call → Sound answers k call.stage
  ended : ∀ k ∈ returned answers, ∃ call, s.calls.get k = some call ∧ call.stage.Over
  returned_once : (returned answers).Nodup
  own : ∀ k result, .returned k result ∈ answers → Own answers k result ∨ Unanswered result
  routed_once : (routed answers).Nodup
  routed : ∀ k req, .routed k req ∈ answers → ∃ call, s.calls.get k = some call ∧ call.request.Received req
  responded_once : (responded answers).Nodup
  responded : ∀ k respWire, .responded k respWire ∈ answers →
    ∃ req, ∃ result : Routed http, .routed k req ∈ answers ∧ respWire = result.respWire

/-- What holds after any operations, where no endpoint is shared. -/
structure Kept (s : Exchanges ν http ω) (answers : List (Output http)) : Prop where
  wired : s.Wired
  numbered : Numbered s
  tracked : Tracked s answers
  history : History s answers

theorem kept_new (seed : BitVec 64) (n : Nat) (networkModel : ν) :
    Kept (new seed n networkModel : Exchanges ν http ω) [] := by
  -- there are no components, no requests and no tasks
  have hcomponents : ∀ key component,
      (new seed n networkModel : Exchanges ν http ω).components.lookup key ≠ some component := by
    rintro _ _ ⟨⟩
  have hcalls : ∀ k call, (new seed n networkModel : Exchanges ν http ω).calls.get k ≠ some call := by
    rintro _ _ ⟨⟩
  have hnumbered : Numbered (new seed n networkModel : Exchanges ν http ω) :=
    ⟨fun k call h => absurd h (hcalls k call), fun k _ call _ h => absurd h (hcalls k call),
      fun key c _ _ h => absurd h (hcomponents key _)⟩
  have htracked : Tracked (new seed n networkModel : Exchanges ν http ω) [] :=
    ⟨fun task h => absurd h List.not_mem_nil, List.nodup_nil,
      fun k _ => ⟨List.not_mem_nil, List.not_mem_nil⟩⟩
  exact ⟨Endpoints.wired_new seed n networkModel, hnumbered, htracked, ⟨fun k call h => absurd h (hcalls k call),
    fun k h => absurd h List.not_mem_nil, List.nodup_nil,
    fun k _ h => absurd h List.not_mem_nil, List.nodup_nil, fun k _ h => absurd h List.not_mem_nil,
    List.nodup_nil,
    fun k _ h => absurd h List.not_mem_nil⟩⟩

/-! ## Answers -/

omit [Bincode HttpRequestWire] [Bincode HttpResponseWire] in
theorem nodup_snoc {l : List Nat} (h : l.Nodup) {a : Option Nat} (ha : ∀ k, a = some k → k ∉ l) :
    (l ++ a.toList).Nodup := by
  cases a with
  | none => rwa [Option.toList_none, List.append_nil]
  | some k =>
    exact List.nodup_append.mpr ⟨h, List.nodup_singleton k,
      fun b hb c hc heq => ha k rfl (List.mem_singleton.mp hc ▸ heq ▸ hb)⟩

/-- An answer that is not about the service of a request for which something is to be done, and that
is the first one of its kind about its request. -/
theorem Kept.snoc (h : Kept s answers) (hasideTasks : ∀ task ∈ s.tasks, Aside o task.call)
    (hasideUnsent : ∀ k, ¬s.IsSent k → Aside o k)
    (hreturned : ∀ k result, o = .returned k result → k ∉ returned answers ∧
      (∃ call, s.calls.get k = some call ∧ call.stage.Over) ∧ (Own answers k result ∨ Unanswered result))
    (hrouted : ∀ k req, o = .routed k req → k ∉ Exchanges.routed answers ∧
      ∃ call, s.calls.get k = some call ∧ call.request.Received req)
    (hresponded : ∀ k respWire, o = .responded k respWire → k ∉ Exchanges.responded answers ∧
      ∃ req, ∃ result : Routed http, .routed k req ∈ answers ∧ respWire = result.respWire) :
    Kept s (answers ++ [o]) := by
  have hmem : ∀ {o'}, o' ∈ answers ++ [o] → o' ∈ answers ∨ o = o' := fun ho' =>
    (List.mem_append.mp ho').imp id fun hlast => (List.mem_singleton.mp hlast).symm
  refine ⟨h.wired, h.numbered, ⟨fun task ht => (h.tracked.good task ht).snoc (hasideTasks task ht),
    h.tracked.single,
    fun k hk => (h.tracked.unsent k hk).snoc (hasideUnsent k hk)⟩,
    ⟨fun k call hcall => (h.history.sound k call hcall).snoc,
    fun k hk => ?_, ?_, fun k result hresult => ?_, ?_, fun k req hreq => ?_, ?_,
    fun k respWire hresp => ?_⟩⟩
  · rw [returned_snoc, List.mem_append, Option.mem_toList] at hk
    rcases hk with hk | hk
    · exact h.history.ended k hk
    · cases o with
      | returned k' result =>
        cases hk
        exact (hreturned k result rfl).2.1
      | _ => cases hk
  · rw [returned_snoc]
    refine nodup_snoc h.history.returned_once fun k hk => ?_
    cases o with
    | returned k' result =>
      cases hk
      exact (hreturned k result rfl).1
    | _ => cases hk
  · refine Or.imp Own.snoc id ?_
    exact (hmem hresult).elim (h.history.own k result) fun heq => (hreturned k result heq).2.2
  · rw [routed_snoc]
    refine nodup_snoc h.history.routed_once fun k hk => ?_
    cases o with
    | routed k' req =>
      cases hk
      exact (hrouted k req rfl).1
    | _ => cases hk
  · exact (hmem hreq).elim (h.history.routed k req) fun heq => (hrouted k req heq).2
  · rw [responded_snoc]
    refine nodup_snoc h.history.responded_once fun k hk => ?_
    cases o with
    | responded k' respWire =>
      cases hk
      exact (hresponded k respWire rfl).1
    | _ => cases hk
  · obtain ⟨req, result, hreq, hresult⟩ := (hmem hresp).elim
      (h.history.responded k respWire) fun heq => (hresponded k respWire heq).2
    exact ⟨req, result, List.mem_append_left _ hreq, hresult⟩

/-- An answer that is about no request in particular. -/
theorem Kept.log (h : Kept s answers) (hreturned : o.returned? = none) (hrouted : o.routed? = none)
    (hresponded : o.responded? = none) : Kept s (answers ++ [o]) := by
  have haside : ∀ k, Aside o k := fun k => ⟨by simp [hrouted], by simp [hresponded]⟩
  refine h.snoc (fun _ _ => haside _) (fun k _ => haside k) ?_ ?_ ?_
  · rintro k result rfl
    cases hreturned
  · rintro k req rfl
    cases hrouted
  · rintro k respWire rfl
    cases hresponded

/-- A request that is over returns. -/
theorem Kept.logReturned (h : Kept s answers) {call : Call http ω}
    (hcall : s.calls.get k = some call) (hover : call.stage.Over) (hnot : k ∉ returned answers)
    {result : Except Error (Response http)} (hown : Own answers k result ∨ Unanswered result) :
    Kept s (answers ++ [.returned k result]) := by
  refine h.snoc (fun _ _ => ⟨nofun, nofun⟩) (fun _ _ => ⟨nofun, nofun⟩)
    (fun k' result' heq => ?_) nofun nofun
  cases heq
  exact ⟨hnot, ⟨call, hcall, hover⟩, hown⟩

/-- A router is called with a request for which there is nothing else to be done. -/
theorem Kept.logRouted (h : Kept s answers) {call : Call http ω}
    (hcall : s.calls.get k = some call) {req : Request http} (hreceived : call.request.Received req)
    (hsent : s.IsSent k) (htasks : k ∉ s.tasks.map Task.call) (hnot : k ∉ routed answers) :
    Kept s (answers ++ [.routed k req]) := by
  have haside : ∀ k', k' ≠ k → Aside (.routed k req : Output http) k' :=
    fun k' hne => ⟨fun heq => hne (Option.some.inj heq).symm, nofun⟩
  refine h.snoc (fun task ht => haside _ fun heq => htasks (List.mem_map.mpr ⟨task, ht, heq⟩))
    (fun k' hk' => haside k' fun heq => hk' (heq ▸ hsent)) nofun (fun k' req' heq => ?_) nofun
  cases heq
  exact ⟨hnot, call, hcall, hreceived⟩

/-- There is a response to a request for which there is nothing else to be done. -/
theorem Kept.logResponded (h : Kept s answers) (hsent : s.IsSent k) (htasks : k ∉ s.tasks.map Task.call)
    (hrouted : k ∈ routed answers) (hnot : k ∉ responded answers) (result : Routed http) :
    Kept s (answers ++ [.responded k result.respWire]) := by
  have haside : ∀ k', k' ≠ k → Aside (.responded k result.respWire : Output http) k' := fun k' hne =>
    ⟨nofun, fun heq => hne (Option.some.inj heq).symm⟩
  refine h.snoc (fun task ht => haside _ fun heq => htasks (List.mem_map.mpr ⟨task, ht, heq⟩))
    (fun k' hk' => haside k' fun heq => hk' (heq ▸ hsent)) nofun nofun (fun k' respWire heq => ?_)
  cases heq
  obtain ⟨req, hreq⟩ := mem_routed.mp hrouted
  exact ⟨hnot, req, result, hreq, rfl⟩

/-! ## Changes of the state -/

/-- The components are other ones, and the requests are the same ones. -/
theorem Kept.same (h : Kept s answers) (hlater : Later s s') (hwired : s'.Wired) (hnumbered : Numbered s')
    (hcalls : s'.calls = s.calls) (htasks : s'.tasks = s.tasks) : Kept s' answers := by
  refine ⟨hwired, hnumbered, ⟨?_, ?_, fun k hk => h.tracked.unsent k fun hsent =>
    hk (hsent.later hlater)⟩, ?_⟩
  · rw [htasks]
    exact fun task ht => (h.tracked.good task ht).later hlater
  · rw [htasks]
    exact h.tracked.single
  · obtain ⟨h₁, h₂, h₃, h₄, h₅, h₆, h₇, h₈⟩ := h.history
    rw [← hcalls] at h₁ h₂ h₆
    exact ⟨h₁, h₂, h₃, h₄, h₅, h₆, h₇, h₈⟩

/-- The stage of a request is another one, and its client may be so too. -/
theorem Kept.update (h : Kept s answers) {call : Call http ω} (hcall : s.calls.get k = some call)
    {stage : Stage http ω} (hlater : Later s s') (hwired : s'.Wired) (hnumbered : Numbered s')
    (hsound : Sound answers k stage) (hover : call.stage.Over → stage.Over)
    (hcalls : s'.calls = s.calls.set k { call with stage }) (htasks : s'.tasks = s.tasks) :
    Kept s' answers := by
  have hget : ∀ k' call', s'.calls.get k' = some call' ↔
      k' = k ∧ call' = { call with stage } ∨ k' ≠ k ∧ s.calls.get k' = some call' := by
    rw [hcalls]
    exact fun k' call' => Table.get_set_eq_some hcall
  refine ⟨hwired, hnumbered, ⟨?_, ?_, fun k hk => h.tracked.unsent k fun hsent =>
    hk (hsent.later hlater)⟩,
    ⟨fun k' call' hcall' => ?_, fun k' hk' => ?_, h.history.returned_once, h.history.own,
      h.history.routed_once, fun k' req hreq => ?_,
    h.history.responded_once, h.history.responded⟩⟩
  · rw [htasks]
    exact fun task ht => (h.tracked.good task ht).later hlater
  · rw [htasks]
    exact h.tracked.single
  · rcases (hget k' call').mp hcall' with ⟨rfl, rfl⟩ | ⟨-, hsame⟩
    · exact hsound
    · exact h.history.sound k' call' hsame
  · obtain ⟨call', hcall', hover'⟩ := h.history.ended k' hk'
    by_cases hk : k' = k
    · subst hk
      cases hcall.symm.trans hcall'
      exact ⟨_, (hget _ _).mpr (.inl ⟨rfl, rfl⟩), hover hover'⟩
    · exact ⟨call', (hget _ _).mpr (.inr ⟨hk, hcall'⟩), hover'⟩
  · obtain ⟨call', hcall', heq⟩ := h.history.routed k' req hreq
    obtain ⟨call'', hcall'', -, -, hrequest, -⟩ := hlater.calls k' call' hcall'
    exact ⟨call'', hcall'', hrequest ▸ heq⟩

/-- The stage of a request is another one, in which it waits as it did. -/
theorem Kept.setStage (h : Kept s answers) {call : Call http ω}
    (hcall : s.calls.get k = some call) {stage : Stage http ω}
    (hwaits : stage.Outstanding ↔ call.stage.Outstanding) (hsound : Sound answers k stage)
    (hover : call.stage.Over → stage.Over) (hsent : call.stage.Sent → stage.Sent) :
    Kept (s.setStage k call stage) answers :=
  h.update hcall (Later.setStage hcall hsent) h.wired
    (h.numbered.setStage hcall hwaits) hsound hover rfl rfl

/-- A request that has not returned. -/
theorem Kept.not_returned (h : Kept s answers) {call : Call http ω}
    (hcall : s.calls.get k = some call) (hnot : ¬call.stage.Over) :
    k ∉ returned answers := fun hk => by
  obtain ⟨call', hcall', hover⟩ := h.history.ended k hk
  cases hcall.symm.trans hcall'
  exact hnot hover

/-- One thing is not to be done any more. -/
theorem Kept.take (h : Kept s answers) {i : Nat} {task : Task} (hi : s.tasks[i]? = some task) :
    Kept { s with tasks := s.tasks.eraseIdx i } answers ∧
    Good { s with tasks := s.tasks.eraseIdx i } answers task ∧
      task.call ∉ (s.tasks.eraseIdx i).map Task.call := by
  obtain ⟨hlt, hget⟩ := List.getElem?_eq_some_iff.mp hi
  have hlater : Later s { s with tasks := s.tasks.eraseIdx i } :=
    ⟨.refl _, (Later.refl s).calls⟩
  have hperm : (s.tasks.map Task.call).Perm (task.call :: (s.tasks.eraseIdx i).map Task.call) := by
    have := ((List.getElem_cons_eraseIdx_perm hlt).map Task.call).symm
    rwa [hget, List.map_cons] at this
  obtain ⟨hnot, hsingle⟩ := List.nodup_cons.mp (hperm.nodup_iff.mp h.tracked.single)
  refine ⟨⟨h.wired,
    ⟨h.numbered.home, h.numbered.unique, h.numbered.pending⟩,
    ⟨fun task' ht => (h.tracked.good task' (List.mem_of_mem_eraseIdx ht)).later hlater, hsingle,
      h.tracked.unsent⟩,
    ⟨h.history.sound, h.history.ended, h.history.returned_once, h.history.own, h.history.routed_once,
      h.history.routed,
      h.history.responded_once, h.history.responded⟩⟩,
      (h.tracked.good task (List.mem_of_getElem? hi)).later hlater, hnot⟩

/-- Something is to be done for a request for which nothing was to be done. -/
theorem Kept.push (h : Kept s answers) {task : Task} (hgood : Good s answers task)
    (hnot : task.call ∉ s.tasks.map Task.call) :
    Kept { s with tasks := s.tasks ++ [task] } answers := by
  have hlater : Later s { s with tasks := s.tasks ++ [task] } :=
    ⟨.refl _, (Later.refl s).calls⟩
  refine ⟨h.wired,
    ⟨h.numbered.home, h.numbered.unique, h.numbered.pending⟩,
    ⟨fun task' ht => ?_, ?_, h.tracked.unsent⟩,
    ⟨h.history.sound, h.history.ended, h.history.returned_once, h.history.own, h.history.routed_once,
      h.history.routed,
      h.history.responded_once, h.history.responded⟩⟩
  · rcases List.mem_append.mp ht with ht | ht
    · exact (h.tracked.good task' ht).later hlater
    · cases List.mem_singleton.mp ht
      exact hgood.later hlater
  · rw [List.map_append]
    exact nodup_snoc (a := some task.call) h.tracked.single fun k hk => by
      cases hk
      exact hnot

/-! ## Operations -/

/-- A component is added. -/
theorem Kept.added (h : Kept s answers) {component : Component Unit} {endpoints : Endpoints ν Unit} {key : Uuid}
    (hadded : s.Added component endpoints key) (hwired : endpoints.Wired)
    (hpending : ∀ c, component = .client c → c.pending = ∅) :
    Kept { s with toEndpoints := endpoints } (answers ++ [.installed key]) := by
  have hlater : Later s { s with toEndpoints := endpoints } :=
    ⟨hadded.later h.wired.keyed, (Later.refl s).calls⟩
  exact (h.same hlater hwired (h.numbered.added h.wired.keyed hadded hpending) rfl rfl).log rfl rfl rfl

/-- A component that no client has the endpoint of. -/
theorem Kept.addEndpoint (h : Kept s answers) {component : Component Unit} {endpointId : EndpointId}
    (hfree : s.Free endpointId)
    (hclient : ∀ c, component = .client c → c.clientEndpoint = endpointId ∧ c.pending = ∅)
    (hadd : s.addEndpoint component endpointId = some (s', o)) : Kept s' (answers ++ [o]) := by
  obtain ⟨⟨endpoints, key⟩, hs₁, heq⟩ := Option.map_eq_some_iff.mp hadd
  cases heq
  obtain ⟨hadded, hwired⟩ := h.wired.addEndpoint hs₁ hfree fun c hc => (hclient c hc).1
  exact h.added hadded hwired fun c hc => (hclient c hc).2

/-- The registry, and the counter of the names, are other ones. -/
theorem Kept.registry (h : Kept s answers) (endpointRegistry : SimEndpointRegistry) (nextClientId : Nat) :
    Kept { s with endpointRegistry, nextClientId } answers :=
  h.same ⟨⟨rfl, (Later.refl s).endpoints.clients⟩, (Later.refl s).calls⟩
    ⟨h.wired.transportKey, h.wired.keys, h.wired.handled⟩
    ⟨h.numbered.home, h.numbered.unique, h.numbered.pending⟩ rfl rfl

theorem Kept.install (h : Kept s answers) {serviceName clientName : List Char}
    {endpointId targetEndpoint : Option EndpointId}
    (hfree : s.Free (endpointId.getD (clientEndpointId clientName)))
    (hinstall : s.install serviceName clientName endpointId targetEndpoint = some (s', o)) :
    Kept s' (answers ++ [o]) := by
  refine h.addEndpoint hfree (fun c hc => ?_) hinstall
  cases hc
  exact ⟨rfl, rfl⟩

theorem Kept.installNext (h : Kept s answers) {serviceName : List Char}
    {targetEndpoint : Option EndpointId}
    (hfree : s.Free (clientEndpointId (s.nextClientName serviceName)))
    (hinstall : s.installNext serviceName targetEndpoint = some (s', o)) :
    Kept s' (answers ++ [o]) := by
  rw [Exchanges.installNext] at hinstall
  split at hinstall
  · refine (h.registry s.endpointRegistry (s.nextClientId + 1)).install ?_ hinstall
    exact hfree
  · cases hinstall

/-- A request is made. -/
theorem Kept.request (h : Kept s answers) {client : Uuid} {request : Request http}
    {timeout : Option Nat} (hrequest : s.request client request timeout = some (s', o)) :
    Kept s' (answers ++ [o]) := by
  rw [Exchanges.request] at hrequest
  split at hrequest
  · rename_i c hc
    split at hrequest
    · cases hrequest
      have hcalls : ∀ k call, s.calls.get k = some call → (s.calls.insert
          ⟨client, c.nextCounter + 1, request, timeout, .selecting false⟩).get k =
            some call := fun k call hcall =>
        Table.get_insert_eq_some.mpr (.inr hcall)
      have hclients : Later s (s.setClient client { c with nextCounter := c.nextCounter + 1 }) :=
        Later.setClient hc rfl rfl
      have hlater :
          Later s ({ s with calls := s.calls.insert ⟨client, c.nextCounter + 1, request, timeout, .selecting false⟩ }.setClient client
            { c with nextCounter := c.nextCounter + 1 }) :=
        ⟨hclients.endpoints, fun k call hcall => ⟨call, hcalls k call hcall, rfl, rfl, rfl, id⟩⟩
      refine Kept.log ⟨h.wired.setClient hc rfl,
        h.numbered.request hc request timeout,
        ⟨fun task ht => (h.tracked.good task ht).later hlater, h.tracked.single, fun k hk =>
          h.tracked.unsent k fun hsent => hk (hsent.later hlater)⟩,
          ⟨fun k call hcall => ?_, fun k hk => ?_, h.history.returned_once,
          h.history.own, h.history.routed_once, fun k req hreq => ?_, h.history.responded_once,
          h.history.responded⟩⟩ rfl rfl rfl
      · rcases Table.get_insert_eq_some.mp hcall with ⟨-, rfl⟩ | hcall
        · trivial
        · exact h.history.sound k call hcall
      · obtain ⟨call, hcall, hover⟩ := h.history.ended k hk
        exact ⟨call, hcalls k call hcall, hover⟩
      · obtain ⟨call, hcall, heq⟩ := h.history.routed k req hreq
        exact ⟨call, hcalls k call hcall, heq⟩
    · cases hrequest
  · cases hrequest

/-- A request that has not been sent goes on without being sent. -/
theorem Kept.setUnsent (h : Kept s answers) {call : Call http ω}
    (hcall : s.calls.get k = some call) (hsent : ¬call.stage.Sent) (hover : ¬call.stage.Over)
    {stage : Stage http ω} (hunsent : ¬stage.Sent) : Kept (s.setStage k call stage) answers := by
  have hnot : ∀ stage : Stage http ω, ¬stage.Sent → ¬stage.Outstanding ∧ Sound answers k stage :=
    fun stage hstage => by
    cases stage with
    | sent response => exact absurd trivial hstage
    | _ => exact ⟨id, trivial⟩
  exact h.setStage hcall (iff_of_false (hnot stage hunsent).1 (hnot call.stage hsent).1)
    (hnot stage hunsent).2
    (fun h => absurd h hover) fun h => absurd h hsent

/-- A request that has not been sent returns an error. -/
theorem Kept.fail (h : Kept s answers) {call : Call http ω} (hcall : s.calls.get k = some call)
    (hsent : ¬call.stage.Sent) (hover : ¬call.stage.Over) {e : Error}
    (he : Unanswered (.error e : Except Error (Response http))) :
    Kept (s.setStage k call .ended) (answers ++ [.returned k (.error e)]) := by
  have hkept : Kept (s.setStage k call .ended) answers := h.setUnsent hcall hsent hover id
  exact hkept.logReturned (Table.get_set_self hcall) trivial (h.not_returned hcall hover) (.inr he)

omit [Bincode HttpRequestWire] [Bincode HttpResponseWire] in
/-- Why no endpoint is selected. -/
theorem selectTarget_error {r r' : SimEndpointRegistry} {c : ClientEndpoint} {waits changed deadline : Bool} {e : Error}
    (h : selectTarget r c waits changed deadline = (r', some (.error e))) :
    Unanswered (.error e : Except Error (Response http)) := by
  -- at the deadline there is no endpoint, whether or not the registry was looked at
  have hdeadline : ∀ r₁ : SimEndpointRegistry,
      (r₁, if deadline then some (.error (noEndpoints c)) else none) = (r', some (.error e : Except Error EndpointId)) →
      Unanswered (.error e : Except Error (Response http)) := by
    intro r₁ h
    split at h
    · cases h
      exact ⟨_, .inr (.inl rfl)⟩
    · cases h
  rw [selectTarget] at h
  split at h
  · split at h
    · cases h
    · cases h
      exact ⟨_, .inl rfl⟩
  · split at h
    · exact hdeadline r h
    · split at h
      · cases h
      · rename_i r₁ hnone
        exact hdeadline r₁ h

theorem Kept.select (h : Kept s answers) {call : Call http ω} (hcall : s.calls.get k = some call)
    {waits : Bool} (hstage : call.stage = .selecting waits) (c : ClientEndpoint) (changed elapsed : Bool) :
    Kept (s.select k call c waits changed elapsed).1 (answers ++ [(s.select k call c waits changed elapsed).2]) := by
  have hsent : ¬call.stage.Sent := by rw [hstage]; exact id
  have hover : ¬call.stage.Over := by rw [hstage]; exact id
  have hset : ∀ (endpointRegistry : SimEndpointRegistry) (stage : Stage http ω), ¬stage.Sent →
      Kept ({ s with endpointRegistry }.setStage k call stage) answers := fun endpointRegistry stage hunsent =>
    (h.registry endpointRegistry s.nextClientId).setUnsent hcall hsent hover hunsent
  rw [Exchanges.select]
  split
  · exact (hset _ (.selecting true) id).log (o := .pending k) rfl rfl rfl
  · rename_i endpointRegistry target htarget
    exact (hset _ (.collecting target) id).log (o := .pending k) rfl rfl rfl
  · rename_i endpointRegistry e htarget
    exact (h.registry endpointRegistry s.nextClientId).fail hcall hsent hover (selectTarget_error htarget)

section
variable [LawfulHttp http] [LawfulBincode HttpRequestWire]

/-- A request is sent. -/
theorem Kept.send (h : Kept s answers) {call : Call http ω} (hcall : s.calls.get k = some call)
    {target : EndpointId} (hstage : call.stage = .collecting target) {c : ClientEndpoint}
    (hc : s.IsClient call.client c) (bodyError : Option (List Char)) (now : SimTime) :
    Kept (s.send k call c target bodyError now).1 (answers ++
      [(s.send k call c target bodyError now).2]) := by
  have hsent : ¬call.stage.Sent := by rw [hstage]; exact id
  have hover : ¬call.stage.Over := by rw [hstage]; exact id
  have hwaits : ¬call.stage.Outstanding := by rw [hstage]; exact id
  unfold Exchanges.send
  split
  · exact h.fail hcall hsent hover ⟨_, .inr (.inr rfl)⟩
  split
  · exact h.fail hcall hsent hover ⟨_, .inr (.inr rfl)⟩
  · rename_i payload hpayload
    obtain ⟨hnone, hnumbered⟩ := h.numbered.insert hcall hc hwaits
    obtain ⟨req, hreq, hreceived⟩ := requestResult_serialize hpayload
    simp only [hnone, dropTx]
    have hunsent : ¬s.IsSent k := fun ⟨call', hcall', hsent'⟩ => by
      cases hcall.symm.trans hcall'
      exact hsent hsent'
    have hlater : Later s (s.setStage k call (.sent .new)) := Later.setStage hcall fun _ => trivial
    have hclients : Later (s.setStage k call (.sent .new))
        ((s.setStage k call (.sent .new)).setClient call.client
          { c with pending := c.pending.insert (c.correlationId call.number) k }) := Later.setClient hc rfl rfl
    have hsound : Sound answers k (.sent .new : Stage http ω) := ⟨nofun, fun _ _ => rfl⟩
    have hkept := h.update hcall (hlater.trans hclients) (h.wired.setClient hc rfl) hnumbered hsound
      (fun h => absurd h hover) rfl rfl
    have hgood : Good ((s.setStage k call (.sent .new)).setClient call.client
        { c with pending := c.pending.insert (c.correlationId call.number) k }) answers
        ⟨k, .event ⟨.zero, s.transportKey, .sendMessage
          ((TransportMessage.new 0 c.clientEndpoint target payload now
          .unaryRequest).withCorrelationId (c.correlationId call.number))⟩⟩ :=
      Or.inl ⟨rfl, ⟨_, _, Table.get_set_self hcall, isClient_setClient.mpr (.inl ⟨rfl, rfl⟩), rfl,
        rfl, trivial⟩,
        ⟨_, req, Table.get_set_self hcall, hreq, hreceived⟩, h.tracked.unsent k hunsent⟩
    refine (hkept.push hgood fun hmem => ?_).log (o := .pending k) rfl rfl rfl
    obtain ⟨task, ht, heq⟩ := List.mem_map.mp hmem
    have heq : task.call = k := heq
    exact hunsent (heq ▸ (h.tracked.good task ht).isSent)

end

/-- A request that waits times out: it is forgotten. -/
theorem Kept.expire (h : Kept s answers) {call : Call http ω} (hcall : s.calls.get k = some call)
    (hover : ¬call.stage.Over) (hwaits : call.stage.Outstanding) {c : ClientEndpoint}
    (hc : s.IsClient call.client c) {response : Oneshot.State (Except Error (Response http)) ω}
    (hnone : response.value = none) (text : List Char) :
    Kept ((s.setStage k call (.sent response.dropReceiver)).removePending call.client c
      (c.correlationId call.number))
      (answers ++ [.returned k (.error (.timeout text))]) := by
  have hlookup : c.pending.lookup (c.correlationId call.number) = some k :=
    (h.numbered.pending _ c _ k hc).mpr ⟨call, hcall, rfl, rfl, hwaits⟩
  -- the sender is dropped with the entry
  obtain ⟨stage, hstage⟩ : ∃ stage : Stage http ω, stage = .sent ⟨none, none, false, false⟩ := ⟨_, rfl⟩
  have hdropped : (s.setStage k call (.sent response.dropReceiver)).removePending call.client c
      (c.correlationId call.number) =
        (s.setStage k call stage).setClient call.client { c with pending := c.pending.erase (c.correlationId call.number) } := by
    simp only [removePending, hlookup, dropTx, Exchanges.setStage, Table.get_set_self hcall,
      Oneshot.State.dropSender,
      Oneshot.State.dropReceiver, Table.set_set, hnone, hstage]
  rw [hdropped]
  have hlater : Later (s.setStage k call stage)
      ((s.setStage k call stage).setClient call.client { c with pending := c.pending.erase (c.correlationId call.number) }) :=
    Later.setClient hc rfl rfl
  have hnot : ¬stage.Outstanding := by
    rw [hstage]
    exact Bool.false_ne_true
  have hsound : Sound answers k stage := by
    rw [hstage]
    exact ⟨by rintro _ ⟨⟩, by rintro ⟨⟩⟩
  have hkept := h.update hcall ((Later.setStage hcall fun _ => by rw [hstage]; trivial).trans hlater)
    (h.wired.setClient hc rfl)
    (h.numbered.erase hcall hc hnot) hsound (fun h => absurd h hover) rfl rfl
  exact hkept.logReturned (Table.get_set_self hcall) (by rw [hstage]; rfl)
    (h.not_returned hcall hover) (.inr ⟨_, .inr (.inl rfl)⟩)

omit [Bincode HttpRequestWire] [Bincode HttpResponseWire] in
/-- What polling a receiver gives. -/
theorem poll_cases (response : Oneshot.State (Except Error (Response http)) ω) (waker : ω) :
    (∃ result, response.value = some result ∧ response.poll waker =
      ({ response with value := none }, .ready (.ok result))) ∨
    (response.value = none ∧ response.senderAlive = false ∧
      response.poll waker = (response, .ready (.error ()))) ∨
    response.value = none ∧ response.senderAlive = true ∧
      response.poll waker = ({ response with waker := some waker }, .pending) := by
  rw [Oneshot.State.poll]
  split
  · rename_i result hvalue
    exact .inl ⟨result, hvalue, rfl⟩
  · rename_i hvalue
    split
    · rename_i hsender
      exact .inr (.inl ⟨hvalue, hsender, rfl⟩)
    · rename_i hsender
      exact .inr (.inr ⟨hvalue, by simpa using hsender, rfl⟩)

/-- The future of a request is polled. -/
theorem Kept.poll (h : Kept s answers) {call : Call http ω} (hcall : s.calls.get k = some call)
    {response : Oneshot.State (Except Error (Response http)) ω}
    (hstage : call.stage = .sent response) (halive : response.receiverAlive = true) {c : ClientEndpoint}
    (hc : s.IsClient call.client c) (waker : ω) (elapsed : Bool) :
    Kept (s.poll k call c response waker elapsed).1 (answers ++
      [(s.poll k call c response waker elapsed).2]) := by
  have hover : ¬call.stage.Over := by
    rw [hstage]
    show ¬response.receiverAlive = false
    rw [halive]
    nofun
  have hnot := h.not_returned hcall hover
  have hsound := h.history.sound k call hcall
  rw [hstage] at hsound
  have hset : ∀ response' : Oneshot.State (Except Error (Response http)) ω,
      response'.senderAlive = response.senderAlive →
        Sound answers k (.sent response') → Kept (s.setStage k call (.sent response')) answers :=
      fun response' hsender hsound' =>
    h.setStage hcall (by rw [hstage, Stage.Outstanding, Stage.Outstanding, hsender]) hsound'
      (fun h => absurd h hover) fun _ => trivial
  rw [Exchanges.poll]
  rcases poll_cases response waker with ⟨result, hvalue, hpoll⟩ | ⟨hvalue, hsender, -⟩
    | ⟨hvalue, hsender, hpoll⟩
  · have hkept : Kept (s.setStage k call (.sent { response with value := none }.dropReceiver)) answers :=
      hset _ rfl ⟨nofun, nofun⟩
    rw [hpoll]
    exact hkept.logReturned (Table.get_set_self hcall) rfl hnot (.inl (hsound.1 result hvalue))
  · -- the sender is dropped with a response only
    rw [hsound.2 halive hvalue] at hsender
    cases hsender
  · rw [hpoll]
    simp only
    split
    · have hnone :
          ({ response with waker := some waker } : Oneshot.State
            (Except Error (Response http)) ω).value = none := hvalue
      exact h.expire hcall hover (by rw [hstage]; exact hsender) hc hnone _
    · have hkept : Kept (s.setStage k call (.sent { response with waker := some waker })) answers :=
        hset _ rfl ⟨fun result hresult => absurd (hvalue.symm.trans hresult) nofun, fun _ _ => hsender⟩
      exact hkept.log (o := .pending k) rfl rfl rfl

/-- The future of a request is dropped. -/
theorem Kept.drop (h : Kept s answers) {call : Call http ω} (hcall : s.calls.get k = some call)
    {response : Oneshot.State (Except Error (Response http)) ω} (hstage : call.stage = .sent response) :
    Kept (s.setStage k call (.sent response.dropReceiver)) (answers ++ [.done]) := by
  have hsound := h.history.sound k call hcall
  rw [hstage] at hsound
  have hkept : Kept (s.setStage k call (.sent response.dropReceiver)) answers :=
    h.setStage hcall (by rw [hstage]; exact Iff.rfl) ⟨hsound.1, nofun⟩ (fun _ => rfl) fun _ => trivial
  exact hkept.log rfl rfl rfl

/-- A response comes to the client of its request: it is given to the request, if that waits. -/
theorem resolve_spec (h : Kept s answers) {call : Call http ω}
    (hcall : s.calls.get k = some call) {c : ClientEndpoint} (hc : s.IsClient call.client c)
    (payload : List UInt8) :
    c.pending.lookup (c.correlationId call.number) = none ∧ ¬call.stage.Outstanding ∧
        s.resolve call.client c (c.correlationId call.number) payload = s ∨
      ∃ response, call.stage = .sent response ∧ response.senderAlive = true ∧
        s.resolve call.client c (c.correlationId call.number) payload =
          (s.setStage k call (.sent (response.send (responseResult payload)).1)).setClient call.client
            { c with pending := c.pending.erase (c.correlationId call.number) } := by
  have hpending := h.numbered.pending _ c (c.correlationId call.number) k hc
  cases hlookup : c.pending.lookup (c.correlationId call.number) with
  | none =>
    refine .inl ⟨rfl, fun hwaits => ?_, by simp only [resolve, hlookup]⟩
    rw [hpending.mpr ⟨call, hcall, rfl, rfl, hwaits⟩] at hlookup
    cases hlookup
  | some k' =>
    cases (h.numbered.lookup_ne hcall hc hlookup).mpr rfl
    obtain ⟨call', hcall', -, -, hwaits⟩ := hpending.mp hlookup
    cases hcall.symm.trans hcall'
    cases hstage : call.stage with
    | sent response =>
      rw [hstage] at hwaits
      refine .inr ⟨response, rfl, hwaits, ?_⟩
      have hget :
          (s.setClient call.client { c with pending := c.pending.erase (c.correlationId call.number) }).calls.get k =
        some call := hcall
      simp only [resolve, hlookup, hget, hstage]
      rfl
    | selecting =>
      rw [hstage] at hwaits
      exact hwaits.elim
    | collecting target =>
      rw [hstage] at hwaits
      exact hwaits.elim
    | ended =>
      rw [hstage] at hwaits
      exact hwaits.elim

omit [Bincode HttpRequestWire] in
/-- What a response does to a request that is given it. -/
theorem sound_send {response : Oneshot.State (Except Error (Response http)) ω}
    (hsound : Sound answers k (.sent response)) {result : Except Error (Response http)}
    (hown : Own answers k result) :
    (response.send result).1.senderAlive = false ∧ (response.send result).1.receiverAlive =
      response.receiverAlive ∧
      Sound answers k (.sent (response.send result).1) := by
  rw [Oneshot.State.send]
  split
  · rename_i hdead
    refine ⟨rfl, rfl, hsound.1, fun halive => ?_⟩
    have halive : response.receiverAlive = true := halive
    rw [hdead] at halive
    cases halive
  · refine ⟨rfl, rfl, fun result' hresult => ?_, by rintro - ⟨⟩⟩
    cases hresult
    exact hown

theorem Kept.resolve (h : Kept s answers) {call : Call http ω}
    (hcall : s.calls.get k = some call) {c : ClientEndpoint} (hc : s.IsClient call.client c)
    {payload : List UInt8} (hown : Own answers k (responseResult payload)) :
    Kept (s.resolve call.client c (c.correlationId call.number) payload) answers := by
  rcases resolve_spec h hcall hc payload with ⟨-, -, heq⟩ | ⟨response, hstage, hsender, heq⟩
  · rw [heq]
    exact h
  · have hsound := h.history.sound k call hcall
    rw [hstage] at hsound
    obtain ⟨hdropped, halive, hsound⟩ := sound_send hsound hown
    rw [heq]
    obtain ⟨stage, hstage'⟩ : ∃ stage : Stage http ω,
      stage = .sent (response.send (responseResult payload)).1 := ⟨_, rfl⟩
    rw [← hstage'] at hsound ⊢
    have hlater : Later (s.setStage k call stage)
        ((s.setStage k call stage).setClient call.client { c with pending := c.pending.erase (c.correlationId call.number) }) :=
      Later.setClient hc rfl rfl
    have hnot : ¬stage.Outstanding := by
      rw [hstage', Stage.Outstanding, hdropped]
      nofun
    refine h.update hcall ((Later.setStage hcall fun _ => by rw [hstage']; trivial).trans hlater)
      (h.wired.setClient hc rfl)
      (h.numbered.erase hcall hc hnot) hsound (fun hover => ?_) rfl rfl
    rw [hstage] at hover
    rw [hstage']
    exact halive.trans hover

/-- A component processes an event. -/
theorem Kept.processEvent (h : Kept s answers) {e : Send TransportEvent}
    (hgood : Good s answers ⟨k, .event e⟩) (hnot : k ∉ s.tasks.map Task.call)
    (htarget : e.target ≠ s.transportKey) :
    Kept (s.processEvent k e.target e.event) answers := by
  unfold Exchanges.processEvent
  split
  · rename_i message c hevent hc
    split
    · rename_i htype
      split
      · rename_i correlationId hid
        rw [Good] at hgood
        simp only [hevent] at hgood
        rcases hgood with ⟨hrequest, -⟩ | ⟨-, ⟨call, c', hcall, hc', hendpoint, hid', -⟩,
          ⟨respWire, hresp, hpayload⟩, htarget'⟩
        · exact absurd (htype.1.symm.trans hrequest) nofun
        · obtain ⟨call', hcall', htarget'⟩ := htarget'.resolve_left htarget
          have hcall' : s.calls.get k = some call' := hcall'
          cases hcall.symm.trans hcall'
          rw [htarget'] at hc ⊢
          cases hc'.unique hc
          cases hid.symm.trans hid'
          exact h.resolve hcall hc' ⟨respWire, hresp, congrArg responseResult hpayload⟩
      · exact h
    · exact h
  · rename_i message hevent hserver
    split
    · rename_i htype
      split
      · rename_i correlationId hid
        rw [Good] at hgood
        simp only [hevent] at hgood
        rcases hgood with ⟨-, hissued, hasked, hserved⟩ | ⟨hresponse, -⟩
        · have hissued : s.Issued k message.source message.correlationId := hissued
          rw [hid] at hissued
          have hhandle :
              Good s answers ⟨k, .handle message.source message.destination correlationId message.payload⟩ :=
            ⟨hissued, hasked, hserved⟩
          exact h.push hhandle hnot
        · exact absurd (htype.symm.trans hresponse) nofun
      · exact h
    · exact h
  · exact h

/-- A response is sent. -/
theorem Kept.respond (h : Kept s answers) {src dst : EndpointId} {correlationId : List Char}
    (hgood : Good s answers ⟨k, .route src dst correlationId⟩) (hnot : k ∉ s.tasks.map Task.call)
    (result : Routed http) (now : SimTime) :
    Kept (s.respond k src dst correlationId result.respWire now).1
      (answers ++ [(s.respond k src dst correlationId result.respWire now).2]) := by
  have hresponded := h.logResponded hgood.isSent hnot hgood.2.1 hgood.2.2 result
  have hsend : Good s (answers ++ [.responded k result.respWire])
      ⟨k, .event ⟨.zero, s.transportKey, .sendMessage
        ((TransportMessage.new 0 dst src
          (responsePayload result.respWire) now .unaryResponse).withCorrelationId correlationId)⟩⟩ :=
    Or.inr ⟨rfl, hgood.1, ⟨_, List.mem_append_right _ List.mem_cons_self, rfl⟩, .inl rfl⟩
  exact hresponded.push hsend hnot

/-- The task of a server goes on. -/
theorem Kept.route (h : Kept s answers) {src dst : EndpointId} {correlationId : List Char}
    {encodedReq : List UInt8} (hgood : Good s answers ⟨k, .handle src dst correlationId encodedReq⟩)
    (hnot : k ∉ s.tasks.map Task.call) :
    ∃ req, requestResult encodedReq = .ok req ∧
      Kept { s with tasks := s.tasks ++ [⟨k, .route src dst correlationId⟩] }
        (answers ++ [.routed k req]) := by
  obtain ⟨hissued, ⟨call, req, hcall, hreq, hreceived⟩, hserved⟩ := hgood
  have hrouted := h.logRouted hcall hreceived hissued.isSent hnot hserved.1
  have hroute : Good s (answers ++ [.routed k req]) ⟨k, .route src dst correlationId⟩ := by
    refine ⟨hissued, mem_routed.mpr ⟨_, List.mem_append_right _ List.mem_cons_self⟩, ?_⟩
    rw [responded_snoc]
    exact fun hmem => (List.mem_append.mp hmem).elim hserved.2 nofun
  exact ⟨_, hreq, hrouted.push hroute hnot⟩

section
variable [NetworkModel ν]

/-- The transport processes an event. -/
theorem Kept.transport (h : Kept s answers) {e : Send TransportEvent}
    (hgood : Good s answers ⟨k, .event e⟩) (hnot : k ∉ s.tasks.map Task.call) {now : SimTime}
    {transport : SimTransport ν} {sends : List (Send TransportEvent)}
    (hmoved : s.transport.Moved s.transportKey now e.event transport sends) :
    Kept { s with transport, tasks := s.tasks ++ sends.map (⟨k, .event ·⟩) } answers := by
  obtain ⟨hhandlers, hsends⟩ := moved_sends hmoved
  have hlater : Later s { s with transport } := ⟨⟨rfl, (Later.refl s).endpoints.clients⟩, (Later.refl s).calls⟩
  have hkept : Kept { s with transport } answers :=
    h.same hlater ⟨h.wired.transportKey, h.wired.keys,
      fun key c hc => by rw [hhandlers]; exact h.wired.handled key c hc⟩
      ⟨h.numbered.home, h.numbered.unique, h.numbered.pending⟩ rfl rfl
  rcases moved_one hmoved with rfl | ⟨send, rfl⟩
  · rw [List.map_nil, List.append_nil]
    exact hkept
  · obtain ⟨⟨number, sentAt, hsame⟩, htarget⟩ := hsends send List.mem_cons_self
    have hgood' : Good s answers ⟨k, .event send⟩ := by
      rcases hgood with ⟨htype, hissued, hasked, hserved⟩ | ⟨htype, hissued, hresp, -⟩
      · refine Or.inl ⟨?_, ?_, ?_, hserved⟩
        · rw [hsame]; exact htype
        · rw [hsame]; exact hissued
        · rw [hsame]; exact hasked
      · refine Or.inr ⟨?_, ?_, ?_, ?_⟩
        · rw [hsame]; exact htype
        · rw [hsame]; exact hissued
        · rw [hsame]; exact hresp
        · refine htarget.imp id fun hlookup => ?_
          obtain ⟨call, c, hcall, hc, hendpoint, -⟩ := hissued
          rw [← hendpoint, h.wired.handled _ c hc] at hlookup
          exact ⟨call, hcall, (Option.some.inj hlookup).symm⟩
    exact hkept.push (hgood'.later hlater) hnot

theorem Kept.run (h : Kept s answers) {task : Task} (hgood : Good s answers task)
    (hnot : task.call ∉ s.tasks.map Task.call) {now : SimTime}
    (hrun : s.run task now = some (s', o)) : Kept s' (answers ++ [o]) := by
  obtain ⟨k, work⟩ := task
  cases work with
  | event e =>
    simp only [Exchanges.run] at hrun
    split at hrun
    · obtain ⟨⟨transport, sends⟩, hmoved, heq⟩ := Option.map_eq_some_iff.mp hrun
      cases heq
      exact (h.transport hgood hnot (SimTransport.moved hmoved)).log rfl rfl rfl
    · rename_i htarget
      cases hrun
      exact (h.processEvent hgood hnot htarget).log rfl rfl rfl
  | handle src dst correlationId encodedReq =>
    obtain ⟨req, hreq, hkept⟩ := h.route hgood hnot
    simp only [Exchanges.run, hreq] at hrun
    cases hrun
    exact hkept
  | route src dst correlationId => cases hrun

variable [LawfulHttp http] [LawfulBincode HttpRequestWire]

theorem Kept.step {op : Op http ω} (h : Kept s answers) (hunshared : s.Unshared op)
    (hstep : s.step op = some (s', o)) :
    Kept s' (answers ++ [o]) := by
  cases op with
  | addComponent =>
    obtain ⟨⟨endpoints, key⟩, hadd, heq⟩ := Option.map_eq_some_iff.mp hstep
    cases heq
    obtain ⟨hadded, hwired⟩ := h.wired.addComponent hadd nofun
    exact h.added hadded hwired nofun
  | registry op =>
    cases hstep
    exact (h.registry _ s.nextClientId).log rfl rfl rfl
  | serve serviceName instanceName =>
    simp only [Exchanges.step, Exchanges.serve] at hstep
    split at hstep
    · cases hstep
      exact h.log rfl rfl rfl
    · rename_i endpointRegistry hstart
      exact (h.registry endpointRegistry s.nextClientId).addEndpoint hunshared
        (fun c hc => by cases hc) hstep
  | install serviceName clientName endpointId targetEndpoint => exact h.install hunshared hstep
  | connect serviceName => exact h.installNext hunshared hstep
  | connectSocketAddr serviceName instanceName =>
    simp only [Exchanges.step, Exchanges.connectSocketAddr] at hstep
    split at hstep
    · exact h.installNext hunshared hstep
    · cases hstep
      exact h.log rfl rfl rfl
  | request client request timeout => exact h.request hstep
  | select k changed elapsed =>
    obtain ⟨call, hcall, hstep⟩ := Option.bind_eq_some_iff.mp hstep
    split at hstep
    · rename_i waits c hstage hc
      obtain ⟨rfl, rfl⟩ := Prod.mk.inj (Option.some.inj hstep)
      exact h.select hcall hstage c changed elapsed
    · cases hstep
  | send k bodyError now =>
    obtain ⟨call, hcall, hstep⟩ := Option.bind_eq_some_iff.mp hstep
    split at hstep
    · rename_i target c hstage hc
      obtain ⟨rfl, rfl⟩ := Prod.mk.inj (Option.some.inj hstep)
      exact h.send hcall hstage hc bodyError now
    · cases hstep
  | poll k waker elapsed =>
    obtain ⟨call, hcall, hstep⟩ := Option.bind_eq_some_iff.mp hstep
    split at hstep
    · rename_i response c hstage hc
      split at hstep
      · rename_i halive
        obtain ⟨rfl, rfl⟩ := Prod.mk.inj (Option.some.inj hstep)
        exact h.poll hcall hstage halive hc waker elapsed
      · cases hstep
    · cases hstep
  | drop k =>
    obtain ⟨call, hcall, hstep⟩ := Option.bind_eq_some_iff.mp hstep
    split at hstep
    · rename_i response hstage
      split at hstep
      · cases hstep
        exact h.drop hcall hstage
      · cases hstep
    · cases hstep
    · rename_i hsent hended
      cases hstep
      have hstage : ¬call.stage.Sent ∧ ¬call.stage.Over := by
        cases hstage : call.stage with
        | sent response => exact absurd hstage (hsent response)
        | ended => exact absurd hstage hended
        | _ => exact ⟨id, id⟩
      have hkept : Kept (s.setStage k call .ended) answers := h.setUnsent hcall hstage.1 hstage.2 id
      exact hkept.log rfl rfl rfl
  | run i now =>
    obtain ⟨task, hi, hstep⟩ := Option.bind_eq_some_iff.mp hstep
    obtain ⟨hkept, hgood, hnot⟩ := h.take hi
    exact hkept.run hgood hnot hstep
  | respond i result now =>
    obtain ⟨⟨k, work⟩, hi, hstep⟩ := Option.bind_eq_some_iff.mp hstep
    obtain ⟨hkept, hgood, hnot⟩ := h.take hi
    split at hstep
    · rename_i src dst correlationId hwork
      cases hwork
      obtain ⟨rfl, rfl⟩ := Prod.mk.inj (Option.some.inj hstep)
      exact hkept.respond hgood hnot result now
    · cases hstep

/-- Any run, where no endpoint of a client is shared. -/
theorem run_exchanged {seed : BitVec 64} {n : Nat} {networkModel : ν} {ops : List (Op http ω)}
    (hunshared : Machine.Along Unshared step (new seed n networkModel : Exchanges ν http ω) ops)
    (hrun : Machine.run step (new seed n networkModel : Exchanges ν http ω) ops = some (s, answers)) :
    Exchanged s answers := by
  have h := hunshared.history (P := Kept) (fun _ _ _ _ _ h hC hs => h.step hC hs)
    (kept_new seed n networkModel) hrun
  refine ⟨h.history.returned_once, h.history.routed_once, h.history.responded_once, h.history.routed,
    h.history.responded,
    h.history.own, fun k hmem => ?_, fun key c k hc => ?_⟩
  · rcases h.history.own k _ hmem with ⟨respWire, -, heq⟩ | ⟨text, heq | heq | heq⟩
    · exact responseResult_ne_cancelled _ heq.symm
    · cases heq
    · cases heq
    · cases heq
  · constructor
    · rintro ⟨correlationId, hlookup⟩
      obtain ⟨call, hcall, hclient, -, hwaits⟩ := (h.numbered.pending key c correlationId k hc).mp hlookup
      exact ⟨call, hcall, hclient, hwaits⟩
    · rintro ⟨call, hcall, hclient, hwaits⟩
      exact ⟨_, (h.numbered.pending key c _ k hc).mpr ⟨call, hcall, hclient, rfl, hwaits⟩⟩

end

end

/-! ## One request -/

/-- A simulation of the seed 0, with an ideal network. -/
def ideal : Exchanges (SimpleNetworkModel SimTransport.ZeroFloat Unit) Plain.crate Nat := new 0 0 ⟨5, ⟨⟩, ()⟩

/-- A client makes a request to a server that comes later, and responds to it. -/
def greet : List (Op Plain.crate Nat) :=
  [.install "svc".toList "client".toList none none, .request (Components.idAt 0 2) hello none, .select 0 false false,
    .serve "svc".toList "a".toList, .select 0 true false, .send 0 none .zero, .run 0 .zero, .run 0 .zero, .run 0 .zero,
    .run 0 .zero, .respond 0 (.response greeting) .zero, .run 0 .zero, .run 0 .zero, .run 0 .zero, .poll 0 0 false]

theorem run_exchanged_greet :
    ∃ (s : Exchanges (SimpleNetworkModel SimTransport.ZeroFloat Unit) Plain.crate Nat) (answers : List (Output Plain.crate)),
      Machine.run step ideal greet = some (s, answers) ∧ routed answers = [0] ∧ returned answers = [0] ∧
        Exchanged s answers := by
  have hrun : (Machine.run step ideal greet).map (fun r => (routed r.2, returned r.2)) = some
      ([0], [0]) := by
    decide +kernel
  obtain ⟨⟨s, answers⟩, hrun, hvalues⟩ := Option.map_eq_some_iff.mp hrun
  obtain ⟨hrouted, hreturned⟩ := Prod.mk.inj hvalues
  exact ⟨s, answers, hrun, hrouted, hreturned, run_exchanged (by decide +kernel) hrun⟩

end Exchanges

end DesCartes.Axum
