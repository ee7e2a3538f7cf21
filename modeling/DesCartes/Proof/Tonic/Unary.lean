import DesCartes.Framework.HashMap
import DesCartes.Framework.Machine
import DesCartes.Impl.Tonic.Unary
import DesCartes.Proof.Tonic.Wire
import DesCartes.Proof.Transport.Endpoints

/-!
# Calls that do not meet

The response to a call is sent to the endpoint of its client, and known there by the id of the call.
The transport brings it to that client as long as no other component gets the messages for the
endpoint (`Unshared`).

* `Known`: the calls that wait; `Addressed`: the messages on their way; `History`: what has been
  returned;
* `Kept.step`: an operation;
* `run_separate`: any run.
-/

namespace DesCartes.Tonic

open Transport (ClientEndpoint Component EndpointId EndpointInfo Endpoints SimTransport SimpleNetworkModel TransportEvent TransportMessage NetworkModel)
open Transport.Endpoints (IsClient isClient_setClient clientEndpointId moved_sends)

namespace Simulated

variable {ν κ μ ω : Type} {s s' : Simulated ν κ μ ω}

/-! ## Conditions and histories -/

/-- The endpoint of a component that is installed is not the one of a client. -/
def Unshared (s : Simulated ν κ μ ω) : Op κ μ ω → Prop
  | .serve serviceName instanceName _ =>
    let id := (EndpointInfo.new serviceName instanceName).id
    s.endpointRegistry.endpoints.lookup id = none → s.Free id
  | .install _ clientName endpointId => s.Free (endpointId.getD (clientEndpointId clientName))
  | .connect serviceName instanceName =>
    (s.endpointRegistry.findEndpoints serviceName).any (·.id = (EndpointInfo.new serviceName instanceName).id) = true →
      s.Free (clientEndpointId (s.nextClientName serviceName))
  | _ => True

instance (s : Simulated ν κ μ ω) (op : Op κ μ ω) : Decidable (s.Unshared op) := by
  unfold Unshared
  split <;> infer_instance

/-- The call that has returned. -/
def Output.returned? : Output κ μ → Option Nat
  | .polled k (.ready _) => some k
  | _ => none

/-- The calls that have returned. -/
def returned (answers : List (Output κ μ)) : List Nat := answers.filterMap Output.returned?

/-- The call waits for its response. -/
def Live (call : Call κ μ ω) : Prop := call.response.senderAlive = true ∧ call.response.receiverAlive = true

section
variable [TonicCode κ]

/-- A server has produced the response for the call. -/
def Produced (answers : List (Output κ μ)) (k : Nat) (payload : List UInt8) : Prop :=
  ∃ response, .responded k response ∈ answers ∧ payload = encodeUnaryResponse response

variable [TonicMetadata μ]

/-- The result is the response that a server has produced for the call. -/
def Own (answers : List (Output κ μ)) (k : Nat) (result : UnaryResult κ μ) : Prop :=
  ∃ payload, Produced answers k payload ∧ result = unaryResult (decodeUnaryResponse payload)

/-- A call returns once, and what it returns is the response that a server has produced for it, if
it has not timed out; and a response that is delivered to a call that waits is given to its client,
and there to the call. -/
structure Separate [NetworkModel ν] (s : Simulated ν κ μ ω) (answers : List (Output κ μ)) : Prop where
  once : (returned answers).Nodup
  own : ∀ k result, .polled k (.ready result) ∈ answers →
    result = .error ⟨TonicCode.deadlineExceeded, "request timed out".toList⟩ ∨ Own answers k result
  reaches : ∀ i e message call now, s.events[i]? = some e → e.send.event = .messageDelivered message →
    message.messageType = .unaryResponse → s.calls.get e.call = some call → Live call →
    ∃ s', s.step (.process i now) = some (s', .done) ∧
      if e.send.target = s.transportKey then ⟨e.call, ⟨.zero, call.client, .messageDelivered message⟩⟩ ∈ s'.events
      else ∃ call', s'.calls.get e.call = some call' ∧
        call'.response.value = some (unaryResult (decodeUnaryResponse message.payload))

end

/-! ## Calls -/

/-- The clients and the calls are still there. -/
structure Later (s s' : Simulated ν κ μ ω) : Prop where
  endpoints : s.toEndpoints.Later s'.toEndpoints
  calls : ∀ k call, s.calls.get k = some call →
    ∃ call', s'.calls.get k = some call' ∧ call'.client = call.client ∧ call'.correlationId = call.correlationId

theorem Later.refl (s : Simulated ν κ μ ω) : Later s s :=
  ⟨.refl _, fun _ call hcall => ⟨call, hcall, rfl, rfl⟩⟩

theorem Later.trans {s₁ s₂ s₃ : Simulated ν κ μ ω} (h₁ : Later s₁ s₂) (h₂ : Later s₂ s₃) : Later s₁ s₃ := by
  refine ⟨h₁.endpoints.trans h₂.endpoints, fun k call hcall => ?_⟩
  obtain ⟨call', hcall', hclient', hid'⟩ := h₁.calls k call hcall
  obtain ⟨call'', hcall'', hclient'', hid''⟩ := h₂.calls k call' hcall'
  exact ⟨call'', hcall'', hclient''.trans hclient', hid''.trans hid'⟩

/-- The call is one of the client with the endpoint. -/
def Issued (s : Simulated ν κ μ ω) (k : Nat) (endpoint : EndpointId) (correlationId : Option (List Char)) : Prop :=
  ∃ call c, s.calls.get k = some call ∧ s.IsClient call.client c ∧ c.clientEndpoint = endpoint ∧
    correlationId = some call.correlationId

theorem Issued.later {k : Nat} {endpoint : EndpointId} {correlationId : Option (List Char)}
    (h : s.Issued k endpoint correlationId) (hlater : Later s s') :
    s'.Issued k endpoint correlationId := by
  obtain ⟨call, c, hcall, hc, hendpoint, hid⟩ := h
  obtain ⟨call', hcall', hclient, hid'⟩ := hlater.calls k call hcall
  obtain ⟨c', hc', hendpoint', -⟩ := hlater.endpoints.clients _ c hc
  exact ⟨call', c', hcall', hclient ▸ hc', hendpoint'.trans hendpoint, hid.trans (congrArg some hid'.symm)⟩

/-- A client knows its calls that wait, each by its own id. -/
structure Known (s : Simulated ν κ μ ω) : Prop where
  numbered : ∀ k call, s.calls.get k = some call →
    ∃ c, s.IsClient call.client c ∧ ∃ n ≤ c.nextCounter, call.correlationId = c.correlationId n
  unique : ∀ k k' call call', s.calls.get k = some call → s.calls.get k' = some call' → call.client = call'.client →
    call.correlationId = call'.correlationId → k = k'
  pending : ∀ key c correlationId k, s.IsClient key c → c.pending.lookup correlationId = some k →
    ∃ call, s.calls.get k = some call ∧ call.client = key ∧ call.correlationId = correlationId
  waits : ∀ k call c, s.calls.get k = some call → s.IsClient call.client c → call.response.senderAlive = true →
    c.pending.lookup call.correlationId = some k

/-- The state of a call is a new one. -/
theorem Later.set {k : Nat} {call : Call κ μ ω} (hcall : s.calls.get k = some call)
    (response : Oneshot.State (UnaryResult κ μ) ω) :
    Later s { s with calls := s.calls.set k { call with response } } := by
  refine ⟨.refl _, fun k' call' hcall' => ?_⟩
  by_cases hk : k' = k
  · subst hk
    cases hcall.symm.trans hcall'
    exact ⟨_, Table.get_set_self hcall, rfl, rfl⟩
  · exact ⟨call', (Table.get_set_eq_some hcall).mpr (by simpa [hk] using hcall'), rfl, rfl⟩

/-- A call of the new state is one of the old state, with the new response if it is the one that was set. -/
theorem get_set {k k' : Nat} {call call' : Call κ μ ω} (hcall : s.calls.get k = some call)
    {response : Oneshot.State (UnaryResult κ μ) ω}
    (hcall' : (s.calls.set k { call with response }).get k' = some call') :
    k' = k ∧ call' = { call with response } ∨ k' ≠ k ∧ s.calls.get k' = some call' := by
  by_cases hk : k' = k
  · subst hk
    exact .inl ⟨rfl, Option.some.inj (hcall'.symm.trans (Table.get_set_self hcall))⟩
  · have := (Table.get_set_eq_some hcall).mp hcall'
    exact .inr ⟨hk, by simpa [hk] using this⟩

theorem Known.set (h : Known s) {k : Nat} {call : Call κ μ ω} (hcall : s.calls.get k = some call)
    {response : Oneshot.State (UnaryResult κ μ) ω}
    (halive : response.senderAlive = true → call.response.senderAlive = true) :
    Known { s with calls := s.calls.set k { call with response } } := by
  have hold : ∀ k' call', (s.calls.set k { call with response }).get k' = some call' → ∃ old,
      s.calls.get k' = some old ∧
        call'.client = old.client ∧ call'.correlationId = old.correlationId ∧
        (call'.response.senderAlive = true → old.response.senderAlive = true) := by
    intro k' call' hcall'
    rcases get_set hcall hcall' with ⟨rfl, rfl⟩ | ⟨-, hsame⟩
    · exact ⟨call, hcall, rfl, rfl, halive⟩
    · exact ⟨call', hsame, rfl, rfl, id⟩
  refine ⟨fun k' call' hcall' => ?_, fun k₁ k₂ call₁ call₂ h₁ h₂ hclient hid => ?_,
    fun key c correlationId k' hc hk' => ?_,
    fun k' call' c hcall' hc hsender => ?_⟩
  · obtain ⟨old, hget, hclient, hid, -⟩ := hold k' call' hcall'
    rw [hclient, hid]
    exact h.numbered k' old hget
  · obtain ⟨old₁, hget₁, hclient₁, hid₁, -⟩ := hold k₁ call₁ h₁
    obtain ⟨old₂, hget₂, hclient₂, hid₂, -⟩ := hold k₂ call₂ h₂
    exact h.unique k₁ k₂ old₁ old₂ hget₁ hget₂ (by rw [← hclient₁, ← hclient₂, hclient])
      (by rw [← hid₁, ← hid₂, hid])
  · obtain ⟨old, hget, hclient, hid⟩ := h.pending key c correlationId k' hc hk'
    obtain ⟨call', hget', hclient', hid'⟩ := (Later.set hcall response).calls k' old hget
    exact ⟨call', hget', hclient'.trans hclient, hid'.trans hid⟩
  · obtain ⟨old, hget, hclient, hid, hold⟩ := hold k' call' hcall'
    rw [hid]
    rw [hclient] at hc
    exact h.waits k' old c hget hc (hold hsender)

/-- The client with the key is another one. -/
def withClient (s : Simulated ν κ μ ω) (key : Uuid) (c : ClientEndpoint) : Simulated ν κ μ ω :=
  { s with toEndpoints := s.toEndpoints.setClient key c }

theorem Later.withClient {key : Uuid} {c c' : ClientEndpoint} (hc : s.IsClient key c)
    (hendpoint : c'.clientEndpoint = c.clientEndpoint) (hname : c'.serviceName = c.serviceName) :
    Later s (s.withClient key c') :=
  ⟨.setClient hc hendpoint hname, (Later.refl s).calls⟩

/-- A client forgets a call that does not wait any more. -/
theorem Known.erase (h : Known s) {key : Uuid} {c : ClientEndpoint} (hc : s.IsClient key c)
    {correlationId : List Char}
    (hdone : ∀ k call, s.calls.get k = some call → call.client = key →
      call.correlationId = correlationId → call.response.senderAlive = false) :
    Known (s.withClient key { c with pending := c.pending.erase correlationId }) := by
  refine ⟨fun k call hcall => ?_, h.unique, fun key₁ c₁ id₁ k h₁ hk => ?_,
    fun k call c₁ hcall h₁ hsender => ?_⟩
  · obtain ⟨c₁, h₁, n, hn, hid⟩ := h.numbered k call hcall
    by_cases hne : call.client = key
    · rw [hne] at h₁
      cases hc.unique h₁
      exact ⟨_, isClient_setClient.mpr (.inl ⟨hne, rfl⟩), n, hn, hid⟩
    · exact ⟨c₁, isClient_setClient.mpr (.inr ⟨hne, h₁⟩), n, hn, hid⟩
  · rcases isClient_setClient.mp h₁ with ⟨rfl, rfl⟩ | ⟨-, h₁⟩
    · exact h.pending key₁ c id₁ k hc (AList.lookup_erase_eq_some.mp hk).2
    · exact h.pending key₁ c₁ id₁ k h₁ hk
  · rcases isClient_setClient.mp h₁ with ⟨hclient, rfl⟩ | ⟨-, h₁⟩
    · have hid : call.correlationId ≠ correlationId := fun hid => by
        rw [hdone k call hcall hclient hid] at hsender
        cases hsender
      rw [AList.lookup_erase_ne hid]
      exact h.waits k call c hcall (hclient ▸ hc) hsender
    · exact h.waits k call c₁ hcall h₁ hsender

/-- The client with the key has made a call. -/
def issue (s : Simulated ν κ μ ω) (key : Uuid) (c : ClientEndpoint) : Simulated ν κ μ ω :=
  { s with calls := s.calls.insert ⟨key, c.correlationId (c.nextCounter + 1), .new⟩ }.withClient key
    { c with
      nextCounter := c.nextCounter + 1
      pending := c.pending.insert (c.correlationId (c.nextCounter + 1)) s.calls.next }

theorem Later.issue {key : Uuid} {c : ClientEndpoint} (hc : s.IsClient key c) : Later s (s.issue key c) :=
  ⟨.setClient hc rfl rfl, fun _ call hcall => ⟨call, Table.get_insert_eq_some.mpr (.inr hcall), rfl, rfl⟩⟩

/-- A client makes a call. -/
theorem Known.call (h : Known s) {key : Uuid} {c : ClientEndpoint} (hc : s.IsClient key c) :
    c.pending.lookup (c.correlationId (c.nextCounter + 1)) = none ∧
      Known (s.issue key c) := by
  have hnew : ∀ k call, s.calls.get k = some call → call.client = key →
      call.correlationId ≠ c.correlationId (c.nextCounter + 1) := by
    rintro k call hcall rfl hid
    obtain ⟨c₁, h₁, n, hn, hid₁⟩ := h.numbered k call hcall
    cases hc.unique h₁
    have := ClientEndpoint.correlationId_inj (hid₁.symm.trans hid)
    omega
  have hnone : c.pending.lookup (c.correlationId (c.nextCounter + 1)) = none := by
    refine Option.eq_none_iff_forall_ne_some.mpr fun k hk => ?_
    obtain ⟨call, hcall, hclient, hid⟩ := h.pending key c _ k hc hk
    exact hnew k call hcall hclient hid
  refine ⟨hnone, fun k call hcall => ?_, fun k k' call call' hcall hcall' hclient hid => ?_,
    fun key₁ c₁ id₁ k h₁ hk => ?_,
    fun k call c₁ hcall h₁ hsender => ?_⟩
  · rcases Table.get_insert_eq_some.mp hcall with ⟨rfl, rfl⟩ | hcall
    · exact ⟨_, isClient_setClient.mpr (.inl ⟨rfl, rfl⟩), c.nextCounter + 1, le_rfl, rfl⟩
    · obtain ⟨c₁, h₁, n, hn, hid⟩ := h.numbered k call hcall
      by_cases hne : call.client = key
      · rw [hne] at h₁
        cases hc.unique h₁
        exact ⟨_, isClient_setClient.mpr (.inl ⟨hne, rfl⟩), n, Nat.le_succ_of_le hn, hid⟩
      · exact ⟨c₁, isClient_setClient.mpr (.inr ⟨hne, h₁⟩), n, hn, hid⟩
  · rcases Table.get_insert_eq_some.mp hcall with ⟨rfl, rfl⟩ | hcall
    · rcases Table.get_insert_eq_some.mp hcall' with ⟨rfl, -⟩ | hcall'
      · rfl
      · exact absurd hid.symm (hnew k' call' hcall' hclient.symm)
    · rcases Table.get_insert_eq_some.mp hcall' with ⟨rfl, rfl⟩ | hcall'
      · exact absurd hid (hnew k call hcall hclient)
      · exact h.unique k k' call call' hcall hcall' hclient hid
  · rcases isClient_setClient.mp h₁ with ⟨rfl, rfl⟩ | ⟨-, h₁⟩
    · rcases AList.lookup_insert_eq_some.mp hk with ⟨rfl, rfl⟩ | ⟨-, hk⟩
      · exact ⟨_, Table.get_insert_eq_some.mpr (.inl ⟨rfl, rfl⟩), rfl, rfl⟩
      · obtain ⟨call, hcall, hrest⟩ := h.pending key₁ c id₁ k hc hk
        exact ⟨call, Table.get_insert_eq_some.mpr (.inr hcall), hrest⟩
    · obtain ⟨call, hcall, hrest⟩ := h.pending key₁ c₁ id₁ k h₁ hk
      exact ⟨call, Table.get_insert_eq_some.mpr (.inr hcall), hrest⟩
  · rcases Table.get_insert_eq_some.mp hcall with ⟨rfl, rfl⟩ | hcall
    · rcases isClient_setClient.mp h₁ with ⟨-, rfl⟩ | ⟨hne, -⟩
      · exact AList.lookup_insert _
      · exact absurd rfl hne
    · rcases isClient_setClient.mp h₁ with ⟨hclient, rfl⟩ | ⟨-, h₁⟩
      · rw [AList.lookup_insert_ne (hnew k call hcall hclient)]
        exact h.waits k call c hcall (hclient ▸ hc) hsender
      · exact h.waits k call c₁ hcall h₁ hsender

/-- A component that is added has no calls. -/
theorem Known.added (h : Known s) (hkeyed : s.Keyed) {component : Component (List Char → Bool)}
    {endpoints : Endpoints ν (List Char → Bool)} {key : Uuid} (hadded : s.Added component endpoints key)
    (hpending : ∀ c, component = .client c → c.pending = ∅) : Known { s with toEndpoints := endpoints } := by
  refine ⟨fun k call hcall => ?_, h.unique, fun key₁ c₁ id₁ k h₁ hk => ?_,
    fun k call c₁ hcall h₁ hsender => ?_⟩
  · obtain ⟨c, hc, hnumber⟩ := h.numbered k call hcall
    exact ⟨c, hadded.keep hkeyed hc, hnumber⟩
  · rcases hadded.isClient.mp h₁ with ⟨-, hcomponent⟩ | ⟨-, h₁⟩
    · rw [hpending c₁ hcomponent] at hk
      cases hk
    · exact h.pending key₁ c₁ id₁ k h₁ hk
  · obtain ⟨c, hc, -⟩ := h.numbered k call hcall
    cases (hadded.keep hkeyed hc).unique h₁
    exact h.waits k call _ hcall hc hsender

theorem Later.added (hkeyed : s.Keyed) {component : Component (List Char → Bool)}
    {endpoints : Endpoints ν (List Char → Bool)} {key : Uuid} (hadded : s.Added component endpoints key) :
    Later s { s with toEndpoints := endpoints } :=
  ⟨hadded.later hkeyed, (Later.refl s).calls⟩

section
variable [TonicCode κ] [TonicMetadata μ] {answers : List (Output κ μ)} {o : Output κ μ}

/-! ## Messages and results -/

omit [TonicMetadata μ] in
theorem Produced.append {k : Nat} {payload : List UInt8} (h : Produced answers k payload) :
    Produced (answers ++ [o]) k payload := by
  obtain ⟨response, hresponse, hpayload⟩ := h
  exact ⟨response, List.mem_append_left _ hresponse, hpayload⟩

theorem Own.append {k : Nat} {result : UnaryResult κ μ} (h : Own answers k result) :
    Own (answers ++ [o]) k result := by
  obtain ⟨payload, hpayload, hresult⟩ := h
  exact ⟨payload, hpayload.append, hresult⟩

omit [TonicMetadata μ] in
/-- An event is about a message of its call, on the way that it has to take. -/
def Addressed (s : Simulated ν κ μ ω) (answers : List (Output κ μ)) (e : Scheduled) : Prop :=
  let message := e.send.event.message
  message.messageType = .unaryRequest ∧ s.Issued e.call message.source message.correlationId ∨
    message.messageType = .unaryResponse ∧ s.Issued e.call message.destination message.correlationId ∧
      Produced answers e.call message.payload ∧
        (e.send.target = s.transportKey ∨ ∃ call, s.calls.get e.call = some call ∧ e.send.target = call.client)

omit [TonicMetadata μ] in
theorem Addressed.later {e : Scheduled} (h : Addressed s answers e) (hlater : Later s s') :
    Addressed s' (answers ++ [o]) e := by
  rcases h with ⟨htype, hissued⟩ | ⟨htype, hissued, hproduced, htarget⟩
  · exact .inl ⟨htype, hissued.later hlater⟩
  · refine .inr ⟨htype, hissued.later hlater, hproduced.append, ?_⟩
    rcases htarget with htarget | ⟨call, hcall, htarget⟩
    · exact .inl (htarget.trans hlater.endpoints.transportKey.symm)
    · obtain ⟨call', hcall', hclient, -⟩ := hlater.calls _ call hcall
      exact .inr ⟨call', hcall', htarget.trans hclient.symm⟩

/-- What calls have returned, and what they are going to return. -/
structure History (s : Simulated ν κ μ ω) (answers : List (Output κ μ)) : Prop where
  value : ∀ k call result, s.calls.get k = some call → call.response.value = some result → Own answers k result
  waits : ∀ k call, s.calls.get k = some call → call.response.receiverAlive = true → call.response.value = none →
    call.response.senderAlive = true
  ended : ∀ k ∈ returned answers, ∃ call, s.calls.get k = some call ∧ call.response.receiverAlive = false
  once : (returned answers).Nodup
  own : ∀ k result, .polled k (.ready result) ∈ answers →
    result = .error ⟨TonicCode.deadlineExceeded, "request timed out".toList⟩ ∨ Own answers k result

omit [TonicCode κ] [TonicMetadata μ] in
theorem returned_snoc : returned (answers ++ [o]) = returned answers ++ o.returned?.toList := by
  cases h : o.returned? <;> simp [returned, h]

/-- An operation that no call returns from. -/
theorem History.other (h : History s answers) (ho : ∀ k result, o ≠ .polled k (.ready result))
    (hvalue : ∀ k call result, s'.calls.get k = some call → call.response.value = some result →
      Own (answers ++ [o]) k result)
    (hwaits : ∀ k call, s'.calls.get k = some call → call.response.receiverAlive = true →
      call.response.value = none → call.response.senderAlive = true)
    (hover : ∀ k call, s.calls.get k = some call → call.response.receiverAlive = false → ∃ call',
      s'.calls.get k = some call' ∧ call'.response.receiverAlive = false) :
    History s' (answers ++ [o]) := by
  have hreturned : returned (answers ++ [o]) = returned answers := by
    rw [returned_snoc]
    cases o with
    | polled k result =>
      cases result with
      | ready result => exact absurd rfl (ho k result)
      | pending => exact List.append_nil _
    | _ => exact List.append_nil _
  refine ⟨hvalue, hwaits, fun k hk => ?_, by rw [hreturned]; exact h.once, fun k result hmem => ?_⟩
  · rw [hreturned] at hk
    obtain ⟨call, hcall, hover₁⟩ := h.ended k hk
    exact hover k call hcall hover₁
  · have hmem := (List.mem_append.mp hmem).resolve_right fun hlast => ho k result
      (List.mem_singleton.mp hlast).symm
    exact (h.own k result hmem).imp id Own.append

/-- An operation that does nothing to the calls. -/
theorem History.same (h : History s answers) (ho : ∀ k result, o ≠ .polled k (.ready result))
    (hcalls : s'.calls = s.calls) :
    History s' (answers ++ [o]) := by
  refine h.other ho ?_ ?_ ?_
  · rw [hcalls]
    exact fun k call result hcall hvalue => (h.value k call result hcall hvalue).append
  · rw [hcalls]
    exact h.waits
  · rw [hcalls]
    exact fun k call hcall hover => ⟨call, hcall, hover⟩

/-- The state of one call is a new one, and the call does not return. -/
theorem History.set (h : History s answers) (ho : ∀ k result, o ≠ .polled k (.ready result))
    {k : Nat} {call : Call κ μ ω} (hcall : s.calls.get k = some call)
    {response : Oneshot.State (UnaryResult κ μ) ω}
    (hvalue : ∀ result, response.value = some result → Own (answers ++ [o]) k result)
    (hwaits : response.receiverAlive = true → response.value = none → response.senderAlive = true)
    (hover : call.response.receiverAlive = false → response.receiverAlive = false) :
    History { s with calls := s.calls.set k { call with response } } (answers ++ [o]) := by
  refine h.other ho (fun k' call' result hcall' hresult => ?_)
    (fun k' call' hcall' => ?_) fun k' call' hcall' hdead => ?_
  · rcases get_set hcall hcall' with ⟨rfl, rfl⟩ | ⟨-, hsame⟩
    · exact hvalue result hresult
    · exact (h.value k' call' result hsame hresult).append
  · rcases get_set hcall hcall' with ⟨rfl, rfl⟩ | ⟨-, hsame⟩
    · exact hwaits
    · exact h.waits k' call' hsame
  · by_cases hk : k' = k
    · subst hk
      cases hcall.symm.trans hcall'
      exact ⟨_, Table.get_set_self hcall, hover hdead⟩
    · exact ⟨call', (Table.get_set_eq_some hcall).mpr (by simpa [hk] using hcall'), hdead⟩

/-- A call returns. -/
theorem History.return (h : History s answers) {k : Nat} {call : Call κ μ ω}
    {result : UnaryResult κ μ} (hcall : s.calls.get k = some call)
    (halive : call.response.receiverAlive = true) {response : Oneshot.State (UnaryResult κ μ) ω}
    (hvalue : response.value = none) (hdead : response.receiverAlive = false)
    (hresult : result = .error ⟨TonicCode.deadlineExceeded, "request timed out".toList⟩ ∨
      Own answers k result) :
    History { s with calls := s.calls.set k { call with response } }
      (answers ++ [Output.polled k (.ready result)]) := by
  have hreturned : returned (answers ++ [Output.polled k (.ready result)]) = returned answers ++ [k] := by
    rw [returned_snoc]
    rfl
  have hset : ∀ k' call', s.calls.get k' = some call' → call'.response.receiverAlive = false →
      ∃ call', (s.calls.set k { call with response }).get k' = some call' ∧
      call'.response.receiverAlive = false := by
    intro k' call' hcall' hdead'
    by_cases hk : k' = k
    · subst hk
      exact ⟨_, Table.get_set_self hcall, hdead⟩
    · exact ⟨call', (Table.get_set_eq_some hcall).mpr (by simpa [hk] using hcall'), hdead'⟩
  refine ⟨fun k' call' result' hcall' hresult' => ?_, fun k' call' hcall' halive' => ?_,
    fun k' hk' => ?_, ?_, fun k' result' hmem => ?_⟩
  · rcases get_set hcall hcall' with ⟨rfl, rfl⟩ | ⟨-, hsame⟩
    · rw [hvalue] at hresult'
      cases hresult'
    · exact (h.value k' call' result' hsame hresult').append
  · rcases get_set hcall hcall' with ⟨rfl, rfl⟩ | ⟨-, hsame⟩
    · rw [hdead] at halive'
      cases halive'
    · exact h.waits k' call' hsame halive'
  · rw [hreturned] at hk'
    rcases List.mem_append.mp hk' with hk' | hk'
    · obtain ⟨call', hcall', hdead'⟩ := h.ended k' hk'
      exact hset k' call' hcall' hdead'
    · cases List.mem_singleton.mp hk'
      exact ⟨_, Table.get_set_self hcall, hdead⟩
  · rw [hreturned, List.nodup_append]
    refine ⟨h.once, List.nodup_singleton k, fun k₁ hk₁ k₂ hk₂ heq => ?_⟩
    obtain ⟨call₁, hcall₁, hdead₁⟩ := h.ended k₁ hk₁
    cases List.mem_singleton.mp hk₂
    subst heq
    cases hcall.symm.trans hcall₁
    rw [halive] at hdead₁
    cases hdead₁
  · rcases List.mem_append.mp hmem with hmem | hmem
    · exact (h.own k' result' hmem).imp id Own.append
    · cases List.mem_singleton.mp hmem
      exact hresult.imp id Own.append

/-! ## What an operation keeps -/

/-- What holds after any operations, where no endpoint is shared. -/
structure Kept (s : Simulated ν κ μ ω) (answers : List (Output κ μ)) : Prop where
  wired : s.Wired
  known : Known s
  history : History s answers
  events : ∀ e ∈ s.events, Addressed s answers e
  handlings : ∀ j handling, s.handlings.get j = some handling →
    s.Issued handling.call handling.src (some handling.correlationId)

theorem kept_new (seed : BitVec 64) (n : Nat) (networkModel : ν) :
    Kept (new seed n networkModel : Simulated ν κ μ ω) [] := by
  -- there are no components, no calls and no messages
  have hcomponents : ∀ key component,
      (new seed n networkModel : Simulated ν κ μ ω).components.lookup key ≠ some component := by
    rintro _ _ ⟨⟩
  have hcalls : ∀ k call, (new seed n networkModel : Simulated ν κ μ ω).calls.get k ≠ some call := by
    rintro _ _ ⟨⟩
  have hknown : Known (new seed n networkModel : Simulated ν κ μ ω) := by
    refine ⟨fun k call h => absurd h (hcalls k call), fun k _ call _ h => absurd h (hcalls k call),
      fun key c _ _ h => absurd h (hcomponents key _), fun k call _ h => absurd h (hcalls k call)⟩
  have hhistory : History (new seed n networkModel : Simulated ν κ μ ω) [] := by
    refine ⟨fun k call _ h => absurd h (hcalls k call), fun k call h => absurd h (hcalls k call), ?_,
      List.nodup_nil, ?_⟩
    · rintro _ ⟨⟩
    · rintro _ _ ⟨⟩
  refine ⟨Endpoints.wired_new seed n networkModel, hknown, hhistory, ?_, ?_⟩
  · rintro _ ⟨⟩
  · rintro _ _ ⟨⟩

/-- An operation that brings no messages. -/
theorem Kept.silent (h : Kept s answers) (hlater : Later s s') (hwired : s'.Wired)
    (hknown : Known s') (hhistory : History s' (answers ++ [o])) (hevents : s'.events = s.events)
    (hhandlings : s'.handlings = s.handlings) :
    Kept s' (answers ++ [o]) := by
  refine ⟨hwired, hknown, hhistory, ?_, ?_⟩
  · rw [hevents]
    exact fun e he => (h.events e he).later hlater
  · rw [hhandlings]
    exact fun j handling hj => (h.handlings j handling hj).later hlater

/-- A component is added. -/
theorem Kept.added (h : Kept s answers) {component : Component (List Char → Bool)}
    {endpoints : Endpoints ν (List Char → Bool)} {key : Uuid} (hadded : s.Added component endpoints key)
    (hwired : endpoints.Wired) (hpending : ∀ c, component = .client c → c.pending = ∅) :
    Kept { s with toEndpoints := endpoints } (answers ++ [Output.installed key]) :=
  h.silent (Later.added h.wired.keyed hadded) hwired (h.known.added h.wired.keyed hadded hpending)
    (h.history.same nofun rfl) rfl rfl

/-- A component that no client has the endpoint of. -/
theorem Kept.addEndpoint (h : Kept s answers) {component : Component (List Char → Bool)}
    {endpointId : EndpointId} (hfree : s.Free endpointId)
    (hclient : ∀ c, component = .client c → c.clientEndpoint = endpointId ∧ c.pending = ∅)
    (hadd : s.addEndpoint component endpointId = some (s', o)) : Kept s' (answers ++ [o]) := by
  obtain ⟨⟨endpoints, key⟩, hs₁, heq⟩ := Option.map_eq_some_iff.mp hadd
  cases heq
  obtain ⟨hadded, hwired⟩ := h.wired.addEndpoint hs₁ hfree fun c hc => (hclient c hc).1
  exact h.added hadded hwired fun c hc => (hclient c hc).2

omit [TonicMetadata μ] in
/-- A server that starts is the first one with its id. -/
theorem lookup_of_start {r r' : Transport.SimEndpointRegistry} {serviceName instanceName : List Char}
    (h : (start r serviceName instanceName : Except (Status κ) _) = .ok r') :
    r.endpoints.lookup (EndpointInfo.new serviceName instanceName).id = none := by
  rw [← Option.not_isSome_iff_eq_none]
  intro hsome
  have herror : ∀ info : EndpointInfo, info.id = (EndpointInfo.new serviceName instanceName).id →
      ∃ e, r.registerEndpoint info = .error e := by
    intro info hid
    rw [Transport.SimEndpointRegistry.registerEndpoint, if_pos (by rw [hid]; exact hsome)]
    exact ⟨_, rfl⟩
  rw [start] at h
  obtain ⟨e, he⟩ := herror (((EndpointInfo.new serviceName instanceName).withMetadata "type".toList "grpc".toList).withMetadata
    "endpoint_id".toList (Nat.toDigits 10 (EndpointInfo.new serviceName instanceName).id.id)) rfl
  rw [he] at h
  cases h

/-- The registry, and the counter of the names, are other ones. -/
theorem Kept.registry (h : Kept s answers) (endpointRegistry : Transport.SimEndpointRegistry)
    (nextClientId : Nat) :
    Kept { s with endpointRegistry, nextClientId } answers :=
  ⟨⟨h.wired.transportKey, h.wired.keys, h.wired.handled⟩,
    ⟨h.known.numbered, h.known.unique, h.known.pending, h.known.waits⟩,
    ⟨h.history.value, h.history.waits, h.history.ended, h.history.once, h.history.own⟩, h.events, h.handlings⟩

/-- An operation that is refused. -/
theorem Kept.refused (h : Kept s answers) (status : Status κ) : Kept s (answers ++ [Output.refused status]) :=
  h.silent (Later.refl s) h.wired h.known
    (h.history.same nofun rfl) rfl rfl

theorem Kept.serve (h : Kept s answers) {serviceName instanceName : List Char}
    {unary : List Char → Bool} (hunshared : s.Unshared (.serve serviceName instanceName unary))
    (hserve : s.serve serviceName instanceName unary = some (s', o)) :
    Kept s' (answers ++ [o]) := by
  rw [Simulated.serve] at hserve
  split at hserve
  · cases hserve
    exact h.refused _
  · rename_i endpointRegistry hstart
    exact (h.registry endpointRegistry s.nextClientId).addEndpoint (hunshared (lookup_of_start hstart))
      (fun c hc => by cases hc) hserve

theorem Kept.connect (h : Kept s answers) {serviceName instanceName : List Char}
    (hunshared : s.Unshared (.connect serviceName instanceName))
    (hconnect : s.connect serviceName instanceName = some (s', o)) :
    Kept s' (answers ++ [o]) := by
  have hkept := h.registry s.endpointRegistry (s.nextClientId + 1)
  rw [Simulated.connect] at hconnect
  split at hconnect
  · simp only at hconnect
    split at hconnect
    · rename_i hfound
      refine hkept.addEndpoint (hunshared hfound) ?_ hconnect
      intro c hc
      cases hc
      exact ⟨rfl, rfl⟩
    · cases hconnect
      exact hkept.refused _
  · cases hconnect

/-- A message of a call is given to the transport. -/
theorem Kept.schedule (h : Kept s answers) {k : Nat} {message : TransportMessage}
    (haddressed : Addressed s answers ⟨k, ⟨.zero, s.transportKey, .sendMessage message⟩⟩) :
    Kept (s.scheduleTransport k message) answers :=
  ⟨h.wired,
    ⟨h.known.numbered, h.known.unique, h.known.pending, h.known.waits⟩,
    ⟨h.history.value, h.history.waits, h.history.ended, h.history.once, h.history.own⟩,
    List.forall_mem_append.mpr ⟨h.events, List.forall_mem_singleton.mpr haddressed⟩, h.handlings⟩

/-- A call is made. -/
theorem Kept.called (h : Kept s answers) {client : Uuid} {c : ClientEndpoint} (hc : s.IsClient client c)
    {target : EndpointId} {payload : List UInt8} {now : SimTime} :
    Kept ((s.issue client c).scheduleTransport s.calls.next
      ((TransportMessage.new 0 c.clientEndpoint target payload now .unaryRequest).withCorrelationId
        (c.correlationId (c.nextCounter + 1)))) (answers ++ [Output.called s.calls.next]) := by
  have hhistory : History (s.issue client c) (answers ++ [Output.called s.calls.next]) := by
    refine h.history.other (fun _ _ ho => by cases ho) ?_ ?_ ?_
    · intro k call result hcall hvalue
      rcases Table.get_insert_eq_some.mp hcall with ⟨rfl, rfl⟩ | hcall
      · cases hvalue
      · exact (h.history.value k call result hcall hvalue).append
    · intro k call hcall
      rcases Table.get_insert_eq_some.mp hcall with ⟨rfl, rfl⟩ | hcall
      · exact fun _ _ => rfl
      · exact h.history.waits k call hcall
    · exact fun k call hcall hdead => ⟨call, Table.get_insert_eq_some.mpr (.inr hcall), hdead⟩
  have hkept : Kept (s.issue client c) (answers ++ [Output.called s.calls.next]) :=
    h.silent (Later.issue hc) (h.wired.setClient hc rfl) (h.known.call hc).2 hhistory rfl rfl
  exact hkept.schedule (.inl ⟨rfl, _, _, Table.get_insert_eq_some.mpr (.inl ⟨rfl, rfl⟩),
    isClient_setClient.mpr (.inl ⟨rfl, rfl⟩), rfl, rfl⟩)

theorem Kept.unary (h : Kept s answers) {client : Uuid} {path : List Char} {request : Request μ}
    {now : SimTime} (hunary : s.unary client path request now = some (s', o)) :
    Kept s' (answers ++ [o]) := by
  rw [Simulated.unary] at hunary
  split at hunary
  · rename_i c hc
    split at hunary
    · cases hunary
    · cases hunary
      exact (h.registry _ s.nextClientId).refused _
    · rename_i endpointRegistry target htarget
      obtain ⟨⟨c', correlationId⟩, hnext, heq⟩ := Option.map_eq_some_iff.mp hunary
      rw [ClientEndpoint.nextCorrelationId] at hnext
      split at hnext
      · cases hnext
        obtain ⟨hnone, hknown⟩ := h.known.call hc
        simp only [hnone, dropTx] at heq
        cases heq
        exact (h.registry endpointRegistry s.nextClientId).called hc
      · cases hnext
  · cases hunary

/-- The future of a call is polled. -/
theorem Kept.poll (h : Kept s answers) {k : Nat} {call : Call κ μ ω} (hcall : s.calls.get k = some call)
    (halive : call.response.receiverAlive = true) (waker : ω) (elapsed : Bool) :
    Kept (s.poll k call waker elapsed).1 (answers ++ [(s.poll k call waker elapsed).2]) := by
  have hset : ∀ (response : Oneshot.State (UnaryResult κ μ) ω) o,
      (response.senderAlive = true → call.response.senderAlive = true) →
      History { s with calls := s.calls.set k { call with response } } (answers ++ [o]) →
      Kept { s with calls := s.calls.set k { call with response } } (answers ++ [o]) :=
        fun response o hsender hhistory =>
    h.silent (Later.set hcall response) h.wired
      (h.known.set hcall hsender) hhistory rfl rfl
  rw [Simulated.poll, Oneshot.State.poll]
  cases hvalue : call.response.value with
  | some result =>
    exact hset _ _ id (h.history.return hcall halive rfl rfl
      (.inr (h.history.value k call result hcall hvalue)))
  | none =>
    -- nobody drops the sender of a call that waits
    have hsender := h.history.waits k call hcall halive hvalue
    simp only [hsender, Bool.true_eq_false, if_false]
    cases elapsed with
    | true => exact hset _ _ (fun _ => hsender) (h.history.return hcall halive rfl rfl (.inl rfl))
    | false =>
      exact hset _ _ (fun _ => hsender) (h.history.set (fun _ _ ho => by cases ho) hcall nofun
        (fun _ _ => rfl) id)

theorem Kept.drop (h : Kept s answers) {k : Nat} {call : Call κ μ ω} (hcall : s.calls.get k = some call) :
    Kept { s with calls := s.calls.set k { call with response := call.response.dropReceiver } }
      (answers ++ [Output.done]) :=
  h.silent (Later.set hcall _) h.wired (h.known.set hcall id)
    (h.history.set (fun _ _ ho => by cases ho) hcall
      (fun result hresult => (h.history.value k call result hcall hresult).append)
      nofun fun _ => rfl) rfl rfl

/-- A response comes to the client of its call: it is given to the call, if that waits. -/
theorem resolve_spec (h : Kept s answers) {k : Nat} {call : Call κ μ ω}
    (hcall : s.calls.get k = some call) {c : ClientEndpoint} (hc : s.IsClient call.client c)
    (payload : List UInt8) :
    s.resolve call.client call.correlationId payload =
      ((if c.pending.lookup call.correlationId = some k then
        { s with calls := s.calls.set k { call with
          response := (call.response.send (unaryResult (decodeUnaryResponse payload))).1 } }
      else s).withClient call.client { c with pending := c.pending.erase call.correlationId }) := by
  have hremove : s.removePending call.client call.correlationId =
      (s.withClient call.client { c with pending := c.pending.erase call.correlationId },
        c.pending.lookup call.correlationId) := by
    rw [removePending, hc]
    rfl
  rw [resolve, hremove]
  cases hlookup : c.pending.lookup call.correlationId with
  | none => rfl
  | some k' =>
    obtain ⟨call', hcall', hclient, hid⟩ := h.known.pending _ c _ k' hc hlookup
    cases h.known.unique k' k call' call hcall' hcall hclient hid
    rw [if_pos rfl]
    simp only [withClient, hcall]

theorem Kept.resolve (h : Kept s answers) {k : Nat} {call : Call κ μ ω}
    (hcall : s.calls.get k = some call) {c : ClientEndpoint} (hc : s.IsClient call.client c)
    {payload : List UInt8} (hproduced : Produced answers k payload) :
    Kept (s.resolve call.client call.correlationId payload) (answers ++ [Output.done]) := by
  rw [resolve_spec h hcall hc]
  have herased : ∀ s₁ : Simulated ν κ μ ω, Later s s₁ → s₁.Wired → Known s₁ →
      History s₁ (answers ++ [Output.done]) →
      s₁.IsClient call.client c → s₁.events = s.events → s₁.handlings = s.handlings →
      (∀ call₁, s₁.calls.get k = some call₁ → call₁.response.senderAlive = false) →
      Kept (s₁.withClient call.client { c with pending := c.pending.erase call.correlationId })
        (answers ++ [Output.done]) := by
    intro s₁ hlater hwired hknown hhistory hc₁ hevents hhandlings hdone
    obtain ⟨call₁, hcall₁, hclient₁, hid₁⟩ := hlater.calls k call hcall
    refine h.silent (hlater.trans (Later.withClient hc₁ rfl rfl))
      (hwired.setClient hc₁ rfl) (hknown.erase hc₁ fun k₂ call₂ hcall₂ hclient₂ hid₂ => ?_)
      ⟨hhistory.value, hhistory.waits, hhistory.ended, hhistory.once, hhistory.own⟩ hevents hhandlings
    cases hknown.unique k₂ k call₂ call₁ hcall₂ hcall₁ (hclient₂.trans hclient₁.symm) (hid₂.trans hid₁.symm)
    exact hdone call₂ hcall₂
  by_cases hlookup : c.pending.lookup call.correlationId = some k
  · have hsender : (call.response.send (unaryResult (decodeUnaryResponse payload))).1.senderAlive =
        false := by
      rw [Oneshot.State.send]
      split <;> rfl
    rw [if_pos hlookup]
    refine herased _ (Later.set hcall _) h.wired
      (h.known.set hcall ?_)
      (h.history.set (fun _ _ ho => by cases ho) hcall (fun result hresult => ?_)
        (fun halive hvalue => ?_) fun hdead => ?_) hc rfl rfl
      fun call₁ hcall₁ => ?_
    · rw [hsender]
      nofun
    · rw [Oneshot.State.send] at hresult
      split at hresult
      · exact (h.history.value k call result hcall hresult).append
      · cases hresult
        exact Own.append ⟨payload, hproduced, rfl⟩
    · rw [Oneshot.State.send] at halive hvalue
      split at halive
      · rename_i hdead
        rw [Oneshot.State.dropSender, hdead] at halive
        cases halive
      · rename_i hdead
        rw [if_neg hdead] at hvalue
        cases hvalue
    · rw [Oneshot.State.send, if_pos hdead]
      exact hdead
    · cases (Table.get_set_self hcall).symm.trans hcall₁
      exact hsender
  · rw [if_neg hlookup]
    refine herased s (Later.refl s) h.wired h.known
      (h.history.same (fun _ _ ho => by cases ho) rfl) hc rfl rfl fun call₁ hcall₁ => ?_
    cases hcall.symm.trans hcall₁
    rw [← Bool.not_eq_true]
    exact fun hsender => hlookup (h.known.waits k call c hcall hc hsender)

/-- A component processes an event. -/
theorem Kept.processEvent (h : Kept s answers) {e : Scheduled} (he : e ∈ s.events)
    (htarget : e.send.target ≠ s.transportKey) :
    Kept (s.processEvent e.call e.send.target e.send.event) (answers ++ [Output.done]) := by
  have hsame : Kept s (answers ++ [Output.done]) :=
    h.silent (Later.refl s) h.wired h.known
      (h.history.same (fun _ _ ho => by cases ho) rfl) rfl rfl
  have haddressed := h.events e he
  unfold Simulated.processEvent
  split
  · rename_i message c hevent hc
    split
    · rename_i correlationId htype hid
      rw [Addressed, hevent] at haddressed
      rcases haddressed with ⟨hrequest, -⟩ | ⟨-, ⟨call, c', hcall, hc', -, hid'⟩, hproduced, htarget'⟩
      · exact absurd (htype.symm.trans hrequest) nofun
      · obtain ⟨call', hcall', htarget'⟩ := htarget'.resolve_left htarget
        cases hcall.symm.trans hcall'
        cases hid.symm.trans hid'
        rw [htarget'] at hc ⊢
        exact h.resolve hcall hc hproduced
    · exact hsame
  · rename_i message unary hevent hserver
    split
    · rename_i correlationId htype hid
      rw [Addressed, hevent] at haddressed
      rcases haddressed with ⟨-, hissued⟩ | ⟨hresponse, -⟩
      · refine ⟨hsame.wired,
          ⟨hsame.known.numbered, hsame.known.unique, hsame.known.pending, hsame.known.waits⟩,
          ⟨hsame.history.value, hsame.history.waits, hsame.history.ended, hsame.history.once,
            hsame.history.own⟩, hsame.events,
          fun j handling hj => ?_⟩
        rcases Table.get_insert_eq_some.mp hj with ⟨-, rfl⟩ | hj
        · have hissued : s.Issued e.call message.source message.correlationId := hissued
          rw [hid] at hissued
          exact hissued
        · exact hsame.handlings j handling hj
      · exact absurd (htype.symm.trans hresponse) nofun
    · exact hsame
  · exact hsame

/-- A handler returns. -/
theorem Kept.respond (h : Kept s answers) {j : Nat} {handling : Handling}
    (hj : s.handlings.get j = some handling) (response : UnaryResponseWire κ) (now : SimTime) :
    Kept ({ s with handlings := s.handlings.erase j }.scheduleTransport handling.call
      ((TransportMessage.new 0 handling.dst handling.src
        (encodeUnaryResponse response) now .unaryResponse).withCorrelationId
        handling.correlationId)) (answers ++ [Output.responded handling.call response]) := by
  have hlater : Later s { s with handlings := s.handlings.erase j } :=
    ⟨.refl _, (Later.refl s).calls⟩
  have hhistory :
      History { s with handlings := s.handlings.erase j }
        (answers ++ [Output.responded handling.call response]) :=
    h.history.same (fun _ _ ho => by cases ho) rfl
  have hkept : Kept { s with handlings := s.handlings.erase j }
    (answers ++ [Output.responded handling.call response]) :=
    ⟨h.wired,
      ⟨h.known.numbered, h.known.unique, h.known.pending, h.known.waits⟩, hhistory,
      fun e he => (h.events e he).later hlater,
      fun i other hi => (h.handlings i other (Table.get_erase_eq_some.mp hi).2).later hlater⟩
  exact hkept.schedule (.inr ⟨rfl, (h.handlings j handling hj).later hlater,
    ⟨response, List.mem_append_right _ List.mem_cons_self, rfl⟩, .inl rfl⟩)

variable [NetworkModel ν]

/-- The transport processes an event. -/
theorem Kept.transport (h : Kept s answers) {e : Scheduled} (he : e ∈ s.events) {now : SimTime}
    {transport : SimTransport ν} {sends : List (Send TransportEvent)}
    (hmoved : s.transport.Moved s.transportKey now e.send.event transport sends) :
    Kept { s with transport, events := s.events ++ sends.map (⟨e.call, ·⟩) } (answers ++ [Output.done]) := by
  have haddressed := h.events e he
  have hhistory : History { s with transport, events := s.events ++ sends.map (⟨e.call, ·⟩) }
    (answers ++ [Output.done]) :=
    h.history.same (fun _ _ ho => by cases ho) rfl
  have hlater : Later s { s with transport, events := s.events ++ sends.map (⟨e.call, ·⟩) } :=
    ⟨⟨rfl, (Later.refl s).endpoints.clients⟩, (Later.refl s).calls⟩
  obtain ⟨hhandlers, hsends⟩ := moved_sends hmoved
  refine ⟨⟨h.wired.transportKey, h.wired.keys, fun key c hc => ?_⟩,
    ⟨h.known.numbered, h.known.unique, h.known.pending, h.known.waits⟩, hhistory,
    List.forall_mem_append.mpr ⟨fun e' he' => (h.events e' he').later hlater, fun e' he' => ?_⟩,
    fun j handling hj => (h.handlings j handling hj).later hlater⟩
  · show transport.messageHandlers.lookup c.clientEndpoint = some key
    rw [hhandlers]
    exact h.wired.handled key c hc
  · obtain ⟨send, hsend, rfl⟩ := List.mem_map.mp he'
    obtain ⟨hsame, htarget⟩ := hsends send hsend
    obtain ⟨number, sentAt, hsame⟩ := hsame
    rcases haddressed with ⟨htype, hissued⟩ | ⟨htype, hissued, hproduced, -⟩
    · refine .inl ⟨?_, ?_⟩
      · rw [hsame]
        exact htype
      · rw [hsame]
        exact hissued.later hlater
    · refine .inr ⟨?_, ?_, ?_, ?_⟩
      · rw [hsame]
        exact htype
      · rw [hsame]
        exact hissued.later hlater
      · rw [hsame]
        exact hproduced.append
      · refine htarget.imp id fun hlookup => ?_
        obtain ⟨call, c, hcall, hc, hendpoint, -⟩ := hissued
        rw [← hendpoint, h.wired.handled _ c hc] at hlookup
        exact ⟨call, hcall, (Option.some.inj hlookup).symm⟩

theorem Kept.step {op : Op κ μ ω} (h : Kept s answers) (hunshared : s.Unshared op)
    (hstep : s.step op = some (s', o)) :
    Kept s' (answers ++ [o]) := by
  cases op with
  | addComponent =>
    obtain ⟨⟨endpoints, key⟩, hadd, heq⟩ := Option.map_eq_some_iff.mp hstep
    cases heq
    obtain ⟨hadded, hwired⟩ := h.wired.addComponent hadd nofun
    exact h.added hadded hwired nofun
  | serve serviceName instanceName unary => exact h.serve hunshared hstep
  | install serviceName clientName endpointId =>
    refine h.addEndpoint hunshared ?_ hstep
    intro c hc
    cases hc
    exact ⟨rfl, rfl⟩
  | connect serviceName instanceName => exact h.connect hunshared hstep
  | unary client path request now => exact h.unary hstep
  | poll k waker elapsed =>
    obtain ⟨call, hcall, hstep⟩ := Option.bind_eq_some_iff.mp hstep
    split at hstep
    · rename_i halive
      obtain ⟨rfl, rfl⟩ := Prod.mk.inj (Option.some.inj hstep)
      exact h.poll hcall halive waker elapsed
    · cases hstep
  | drop k =>
    obtain ⟨call, hcall, hstep⟩ := Option.bind_eq_some_iff.mp hstep
    split at hstep
    · cases hstep
      exact h.drop hcall
    · cases hstep
  | process i now =>
    obtain ⟨e, he, hstep⟩ := Option.bind_eq_some_iff.mp hstep
    have he := List.mem_of_getElem? he
    split at hstep
    · obtain ⟨⟨transport, sends⟩, hmoved, heq⟩ := Option.map_eq_some_iff.mp hstep
      cases heq
      exact h.transport he (SimTransport.moved hmoved)
    · rename_i htarget
      cases hstep
      exact h.processEvent he htarget
  | respond j result now =>
    obtain ⟨handling, hj, heq⟩ := Option.map_eq_some_iff.mp hstep
    cases heq
    exact h.respond hj _ now

/-- A response that is delivered to a call that waits reaches it. -/
theorem Kept.reaches (h : Kept s answers) {i : Nat} {e : Scheduled} {message : TransportMessage}
    {call : Call κ μ ω} (now : SimTime) (he : s.events[i]? = some e)
    (hevent : e.send.event = .messageDelivered message)
    (htype : message.messageType = .unaryResponse) (hcall : s.calls.get e.call = some call)
    (hlive : Live call) : ∃ s', s.step (.process i now) = some (s', .done) ∧
      if e.send.target = s.transportKey then ⟨e.call,
        ⟨.zero, call.client, .messageDelivered message⟩⟩ ∈ s'.events
      else ∃ call', s'.calls.get e.call = some call' ∧
        call'.response.value = some (unaryResult (decodeUnaryResponse message.payload)) := by
  have haddressed := h.events e (List.mem_of_getElem? he)
  rw [Addressed, hevent] at haddressed
  rcases haddressed with ⟨hrequest, -⟩ | ⟨-, ⟨call', c, hcall', hc, hendpoint, hid⟩, hproduced, htarget⟩
  · exact absurd (htype.symm.trans hrequest) nofun
  cases hcall.symm.trans hcall'
  have hendpoint : c.clientEndpoint = message.destination := hendpoint
  have hid : message.correlationId = some call.correlationId := hid
  rw [Simulated.step, he, Option.bind_some]
  by_cases hself : e.send.target = s.transportKey
  · simp only [hself, if_true, hevent, SimTransport.code, Option.map_some]
    refine ⟨_, rfl, List.mem_append_right _
      (List.mem_map.mpr ⟨⟨.zero, call.client, .messageDelivered message⟩, ?_, rfl⟩)⟩
    rw [SimTransport.handleMessageDelivered, ← hendpoint, h.wired.handled _ c hc]
    exact List.mem_cons_self
  · obtain ⟨call', hcall', htarget⟩ := htarget.resolve_left hself
    cases hcall.symm.trans hcall'
    simp only [hself, if_false]
    refine ⟨_, rfl, ?_⟩
    have hresolve : s.processEvent e.call e.send.target e.send.event =
        s.resolve call.client call.correlationId message.payload := by
      unfold Simulated.processEvent
      rw [hevent, htarget, hc]
      simp only [htype, hid]
    rw [hresolve, resolve_spec h hcall hc, if_pos (h.known.waits _ call c hcall hc hlive.1)]
    refine ⟨_, Table.get_set_self hcall, ?_⟩
    rw [Oneshot.State.send, if_neg (by rw [hlive.2]; decide)]

/-- Any run, where no endpoint of a client is shared. -/
theorem run_separate {seed : BitVec 64} {n : Nat} {networkModel : ν} {ops : List (Op κ μ ω)}
    (hunshared : Machine.Along Unshared step (new seed n networkModel : Simulated ν κ μ ω) ops)
    (hrun : Machine.run step (new seed n networkModel : Simulated ν κ μ ω) ops = some (s, answers)) : Separate s answers := by
  have h := hunshared.history (P := Kept) (fun _ _ _ _ _ h hC hs => h.step hC hs)
    (kept_new seed n networkModel) hrun
  exact ⟨h.history.once, h.history.own, fun i e message call now he hevent htype hcall hlive =>
    h.reaches now he hevent htype hcall hlive⟩

end

/-! ## Two clients -/

/-- Metadata whose entries all parse. -/
instance : TonicMetadata Entries := ⟨id, id⟩

/-- A simulation of the seed 0, with an ideal network. -/
def ideal : Simulated (SimpleNetworkModel SimTransport.ZeroFloat Unit) GrpcCode Entries Nat := new 0 0 ⟨5, ⟨⟩, ()⟩

/-- The key of the `n`th component. -/
def keyOf (n : Nat) : Uuid := Components.idAt 0 n

/-- Two clients of a service, with the names, make a call each; only the request of the first one is
answered, and the response is delivered before the call `k` is polled. -/
def meet (first second : String) (k : Nat) : List (Op GrpcCode Entries Nat) :=
  [.serve "svc".toList "a".toList fun _ => true, .install "svc".toList first.toList none, .install "svc".toList second.toList none,
    .unary (keyOf 3) "/svc/Method".toList ⟨[], [1]⟩ .zero, .unary (keyOf 4) "/svc/Method".toList ⟨[], [2]⟩ .zero,
    .process 0 .zero, .process 2 .zero, .process 3 .zero, .respond 0 (.ok ⟨[], [1]⟩) .zero,
    .process 4 .zero, .process 5 .zero, .process 6 .zero, .poll k 0 false]

/-- The call whose response was produced. -/
def Output.responded? : Output κ μ → Option Nat
  | .responded k _ => some k
  | _ => none

/-- Two clients with the name that clients have by default: the second one returns the response to
the call of the first one. -/
theorem not_separate_meet : ∃ (s : Simulated (SimpleNetworkModel SimTransport.ZeroFloat Unit) GrpcCode Entries Nat)
    (answers : List (Output GrpcCode Entries)), Machine.run step ideal (meet "client" "client" 1) = some (s, answers) ∧
      ¬Separate s answers := by
  have hrun : (Machine.run step ideal (meet "client" "client" 1)).map (fun r => (r.2.filterMap Output.responded?,
      decide (r.2.getLast? = some (.polled 1 (.ready (.ok ⟨[], [1]⟩)))))) = some ([0], true) := by
    decide +kernel
  obtain ⟨⟨s, answers⟩, hrun, hvalues⟩ := Option.map_eq_some_iff.mp hrun
  obtain ⟨hresponded, hlast⟩ := Prod.mk.inj hvalues
  refine ⟨s, answers, hrun, fun h => ?_⟩
  obtain ⟨payload, ⟨response, hresponse, -⟩, -⟩ :=
    (h.own 1 _ (List.mem_of_getLast? (of_decide_eq_true hlast))).resolve_left nofun
  have hmem : 1 ∈ answers.filterMap Output.responded? := List.mem_filterMap.mpr ⟨_, hresponse, rfl⟩
  rw [hresponded] at hmem
  exact absurd hmem (by decide)

theorem run_separate_meet : ∃ (s : Simulated (SimpleNetworkModel SimTransport.ZeroFloat Unit) GrpcCode Entries Nat)
    (answers : List (Output GrpcCode Entries)), Machine.run step ideal (meet "alice" "bob" 0) = some (s, answers) ∧
      answers.getLast? = some (.polled 0 (.ready (.ok ⟨[], [1]⟩))) ∧ Separate s answers := by
  have hrun : (Machine.run step ideal (meet "alice" "bob" 0)).map (fun r => r.2.getLast?) =
      some (some (.polled 0 (.ready (.ok ⟨[], [1]⟩)))) := by
    decide +kernel
  obtain ⟨⟨s, answers⟩, hrun, hlast⟩ := Option.map_eq_some_iff.mp hrun
  exact ⟨s, answers, hrun, hlast, run_separate (by decide +kernel) hrun⟩

end Simulated

end DesCartes.Tonic
