import DesCartes.Impl.Transport.Endpoints
import DesCartes.Proof.Components
import DesCartes.Proof.Transport.SimTransport

/-!
# The endpoints of clients

The transport brings the messages for a client to it, as long as no other component gets the
messages for its endpoint.

* `ClientEndpoint.correlationId_inj`: the ids of the requests of a client;
* `Added`: a component that is added, under a new key;
* `Wired`: the endpoints, and what keeps them (`Wired.setClient`, `Wired.addEndpoint`);
* `moved_sends`: what the transport makes of an event.
-/

namespace DesCartes.Transport

theorem ClientEndpoint.correlationId_inj {c : ClientEndpoint} {n n' : Nat}
    (h : c.correlationId n = c.correlationId n') : n = n' := by
  have hdigits : Nat.toDigits 10 n = Nat.toDigits 10 n' := List.append_cancel_left h
  rw [← Nat.ofDigitChars_ten_toDigits (n := n), hdigits, Nat.ofDigitChars_ten_toDigits]

namespace Endpoints

variable {ν σ : Type} {s s' : Endpoints ν σ} {key : Uuid} {c : ClientEndpoint}

/-! ## Clients -/

/-- The component with the key is the client. -/
def IsClient (s : Endpoints ν σ) (key : Uuid) (c : ClientEndpoint) : Prop :=
  s.components.lookup key = some (.client c)

/-- No client has the endpoint. -/
def Free (s : Endpoints ν σ) (id : EndpointId) : Prop :=
  ∀ e ∈ s.components.entries,
    match e.2 with
    | .client c => c.clientEndpoint ≠ id
    | _ => True

instance (s : Endpoints ν σ) (id : EndpointId) : Decidable (s.Free id) := by
  have : ∀ e : Sigma fun _ : Uuid => Component σ,
      Decidable (match e.2 with | .client c => c.clientEndpoint ≠ id | _ => True) := fun e => by
    split <;> infer_instance
  unfold Free
  infer_instance

theorem Free.ne {id : EndpointId} (h : s.Free id) (hc : s.IsClient key c) : c.clientEndpoint ≠ id :=
  h ⟨key, .client c⟩ (List.of_mem_dlookup hc)

theorem IsClient.unique {c' : ClientEndpoint} (h : s.IsClient key c) (h' : s.IsClient key c') : c = c' := by
  cases h.symm.trans h'
  rfl

theorem isClient_setClient {key' : Uuid} {c' : ClientEndpoint} :
    (s.setClient key c).IsClient key' c' ↔ key' = key ∧ c' = c ∨ key' ≠ key ∧ s.IsClient key' c' := by
  by_cases hne : key' = key
  · subst hne
    simp only [IsClient, setClient, AList.lookup_insert, Option.some.injEq, Component.client.injEq,
      true_and, ne_eq, not_true_eq_false, false_and, or_false, eq_comm]
  · simp only [IsClient, setClient, AList.lookup_insert_ne hne, hne, false_and, false_or, ne_eq,
      not_false_eq_true, true_and]

/-- The clients, told from one of them. -/
theorem IsClient.iff {key' : Uuid} {c' : ClientEndpoint} (h : s.IsClient key c) :
    s.IsClient key' c' ↔ key' = key ∧ c' = c ∨ key' ≠ key ∧ s.IsClient key' c' := by
  by_cases hne : key' = key
  · subst hne
    exact ⟨fun h' => .inl ⟨rfl, h'.unique h⟩, fun h' => h'.elim (fun h' => h'.2 ▸ h) fun h' => h'.2⟩
  · exact ⟨fun h' => .inr ⟨hne, h'⟩, fun h' => h'.elim (fun h' => absurd h'.1 hne) fun h' => h'.2⟩

/-- The clients are still there, with their endpoints and names. -/
structure Later (s s' : Endpoints ν σ) : Prop where
  transportKey : s'.transportKey = s.transportKey
  clients : ∀ key c, s.IsClient key c → ∃ c', s'.IsClient key c' ∧
    c'.clientEndpoint = c.clientEndpoint ∧ c'.serviceName = c.serviceName

theorem Later.refl (s : Endpoints ν σ) : Later s s := ⟨rfl, fun _ c hc => ⟨c, hc, rfl, rfl⟩⟩

theorem Later.trans {s₁ s₂ s₃ : Endpoints ν σ} (h₁ : Later s₁ s₂) (h₂ : Later s₂ s₃) : Later s₁ s₃ := by
  refine ⟨h₂.transportKey.trans h₁.transportKey, fun key c hc => ?_⟩
  obtain ⟨c', hc', hendpoint', hname'⟩ := h₁.clients key c hc
  obtain ⟨c'', hc'', hendpoint'', hname''⟩ := h₂.clients key c' hc'
  exact ⟨c'', hc'', hendpoint''.trans hendpoint', hname''.trans hname'⟩

theorem Later.setClient {c' : ClientEndpoint} (hc : s.IsClient key c)
    (hendpoint : c'.clientEndpoint = c.clientEndpoint) (hname : c'.serviceName = c.serviceName) :
    Later s (s.setClient key c') := by
  refine ⟨rfl, fun key₁ c₁ h₁ => ?_⟩
  by_cases hne : key₁ = key
  · subst hne
    cases hc.unique h₁
    exact ⟨c', isClient_setClient.mpr (.inl ⟨rfl, rfl⟩), hendpoint, hname⟩
  · exact ⟨c₁, isClient_setClient.mpr (.inr ⟨hne, h₁⟩), rfl, rfl⟩

/-! ## Keys -/

/-- The key is one that the simulation has given. -/
def Given (s : Endpoints ν σ) (key : Uuid) : Prop :=
  ∃ n ≤ s.nextComponentId, key = Components.idAt s.seed n

/-- The keys of the components are ones that the simulation has given. -/
def Keyed (s : Endpoints ν σ) : Prop :=
  ∀ key component, s.components.lookup key = some component → s.Given key

theorem Keyed.setClient (h : Keyed s) (hc : s.IsClient key c) (c' : ClientEndpoint) :
    Keyed (s.setClient key c') := by
  intro key' component hlookup
  by_cases hne : key' = key
  · rw [hne]
    exact h key _ hc
  · exact h key' component ((AList.lookup_insert_ne hne).symm.trans hlookup)

/-- A component that is added, with a new key; the transport may be another one. -/
structure Added (s : Endpoints ν σ) (component : Component σ) (s' : Endpoints ν σ) (key : Uuid) : Prop where
  eq : ∃ transport, s' = { s with
    nextComponentId := s.nextComponentId + 1
    components := s.components.insert key component
    transport }
  given : key = Components.idAt s.seed (s.nextComponentId + 1)
  fresh : ¬s.Given key

/-- The key of a new component is a new one. -/
theorem not_given (hlt : s.nextComponentId < u64Max) :
    ¬s.Given (Components.idAt s.seed (s.nextComponentId + 1)) := by
  rintro ⟨n, hn, heq⟩
  have := Components.idAt_inj (Nat.succ_le_of_lt hlt) (hn.trans hlt.le) heq
  omega

theorem added {component : Component σ} (h : s.addComponent component = some (s', key)) :
    Added s component s' key := by
  rw [addComponent] at h
  split at h
  · rename_i hlt
    cases h
    exact ⟨⟨s.transport, rfl⟩, rfl, not_given hlt⟩
  · cases h

theorem added_addEndpoint {component : Component σ} {endpointId : EndpointId}
    (h : s.addEndpoint component endpointId = some (s', key)) : Added s component s' key := by
  obtain ⟨⟨s₁, key₁⟩, hs₁, heq⟩ := Option.map_eq_some_iff.mp h
  cases heq
  have hadded := added hs₁
  obtain ⟨transport, heq⟩ := hadded.eq
  exact ⟨⟨_, by rw [heq]⟩, hadded.given, hadded.fresh⟩

theorem transport_addComponent {component : Component σ} (h : s.addComponent component = some (s', key)) :
    s'.transport = s.transport := by
  rw [addComponent] at h
  split at h
  · cases h
    rfl
  · cases h

section
variable {component : Component σ}

theorem Added.components (hadded : Added s component s' key) :
    s'.components = s.components.insert key component := by
  obtain ⟨transport, heq⟩ := hadded.eq
  rw [heq]

theorem Added.transportKey (hadded : Added s component s' key) : s'.transportKey = s.transportKey := by
  obtain ⟨transport, heq⟩ := hadded.eq
  rw [heq]

theorem Added.given_keep (hadded : Added s component s' key) {key' : Uuid} (h : s.Given key') :
    s'.Given key' := by
  obtain ⟨transport, heq⟩ := hadded.eq
  obtain ⟨n, hn, rfl⟩ := h
  rw [heq]
  exact ⟨n, Nat.le_succ_of_le hn, rfl⟩

theorem Added.given_self (hadded : Added s component s' key) : s'.Given key := by
  obtain ⟨transport, heq⟩ := hadded.eq
  rw [heq, hadded.given]
  exact ⟨_, le_rfl, rfl⟩

theorem Added.keyed (hadded : Added s component s' key) (h : Keyed s) : Keyed s' := by
  intro key' component' hlookup
  rw [hadded.components] at hlookup
  by_cases hne : key' = key
  · rw [hne]
    exact hadded.given_self
  · exact hadded.given_keep (h key' component' ((AList.lookup_insert_ne hne).symm.trans hlookup))

/-- The clients are the old ones, and perhaps the new component. -/
theorem Added.isClient (hadded : Added s component s' key) {key' : Uuid} :
    s'.IsClient key' c ↔ key' = key ∧ component = .client c ∨ key' ≠ key ∧ s.IsClient key' c := by
  rw [IsClient, hadded.components]
  by_cases hne : key' = key
  · subst hne
    simp
  · simp [IsClient, AList.lookup_insert_ne hne, hne]

/-- A client that was there is there. -/
theorem Added.keep (hadded : Added s component s' key) (h : Keyed s) {key' : Uuid}
    (hc : s.IsClient key' c) : s'.IsClient key' c :=
  hadded.isClient.mpr (.inr ⟨fun heq => hadded.fresh (heq ▸ h key' _ hc), hc⟩)

theorem Added.later (hadded : Added s component s' key) (h : Keyed s) : Later s s' :=
  ⟨hadded.transportKey, fun _ c hc => ⟨c, hadded.keep h hc, rfl, rfl⟩⟩

end

/-! ## Endpoints -/

/-- The messages for a client are brought to it. -/
structure Wired (s : Endpoints ν σ) : Prop where
  transportKey : s.Given s.transportKey
  keys : ∀ key component, s.components.lookup key = some component → s.Given key ∧ key ≠ s.transportKey
  handled : ∀ key c, s.IsClient key c → s.transport.messageHandlers.lookup c.clientEndpoint = some key

theorem wired_new (seed : BitVec 64) (n : Nat) (networkModel : ν) :
    Wired (new seed n networkModel : Endpoints ν σ) := by
  refine ⟨⟨n + 1, le_rfl, rfl⟩, ?_, ?_⟩
  · rintro _ _ ⟨⟩
  · rintro _ _ ⟨⟩

theorem Wired.keyed (h : Wired s) : Keyed s := fun key component hlookup => (h.keys key component hlookup).1

theorem Wired.setClient (h : Wired s) {c' : ClientEndpoint} (hc : s.IsClient key c)
    (hendpoint : c'.clientEndpoint = c.clientEndpoint) : Wired (s.setClient key c') := by
  refine ⟨h.transportKey, fun key₁ component h₁ => ?_, fun key₁ c₁ h₁ => ?_⟩
  · by_cases hne : key₁ = key
    · subst hne
      exact h.keys key₁ _ hc
    · exact h.keys key₁ component ((AList.lookup_insert_ne hne).symm.trans h₁)
  · rcases isClient_setClient.mp h₁ with ⟨rfl, rfl⟩ | ⟨-, h₁⟩
    · rw [hendpoint]
      exact h.handled key₁ c hc
    · exact h.handled key₁ c₁ h₁

/-- A component is added, whose messages, if it is a client, are brought to it. -/
theorem Wired.added (h : Wired s) {component : Component σ} (hadded : Added s component s' key)
    (hhandled : ∀ key c, s'.IsClient key c → s'.transport.messageHandlers.lookup c.clientEndpoint = some key) :
    Wired s' := by
  refine ⟨hadded.transportKey ▸ hadded.given_keep h.transportKey, fun key' component' hlookup => ?_, hhandled⟩
  rw [hadded.transportKey]
  by_cases hne : key' = key
  · subst hne
    exact ⟨hadded.given_self, fun heq => hadded.fresh (heq ▸ h.transportKey)⟩
  · rw [hadded.components, AList.lookup_insert_ne hne] at hlookup
    obtain ⟨hgiven, hother⟩ := h.keys key' component' hlookup
    exact ⟨hadded.given_keep hgiven, hother⟩

/-- A component that is no client is added. -/
theorem Wired.addComponent (h : Wired s) {component : Component σ}
    (hadd : s.addComponent component = some (s', key)) (hclient : ∀ c, component ≠ .client c) :
    Added s component s' key ∧ Wired s' := by
  have hadded := Endpoints.added hadd
  refine ⟨hadded, h.added hadded fun key' c hc => ?_⟩
  rw [transport_addComponent hadd]
  rcases hadded.isClient.mp hc with ⟨-, hcomponent⟩ | ⟨-, hc⟩
  · exact absurd hcomponent (hclient c)
  · exact h.handled key' c hc

/-- A component is added that gets the messages for an endpoint, which no client has. -/
theorem Wired.addEndpoint (h : Wired s) {component : Component σ} {endpointId : EndpointId}
    (hadd : s.addEndpoint component endpointId = some (s', key)) (hfree : s.Free endpointId)
    (hclient : ∀ c, component = .client c → c.clientEndpoint = endpointId) :
    Added s component s' key ∧ Wired s' := by
  have hadded := added_addEndpoint hadd
  obtain ⟨⟨s₁, key₁⟩, hs₁, heq⟩ := Option.map_eq_some_iff.mp hadd
  cases heq
  refine ⟨hadded, h.added hadded fun key' c hc => ?_⟩
  show (s₁.transport.registerHandler endpointId key).messageHandlers.lookup c.clientEndpoint = some key'
  rcases hadded.isClient.mp hc with ⟨rfl, hcomponent⟩ | ⟨-, hc⟩
  · rw [hclient c hcomponent]
    exact AList.lookup_insert _
  · rw [SimTransport.registerHandler, AList.lookup_insert_ne (hfree.ne hc), transport_addComponent hs₁]
    exact h.handled key' c hc

/-! ## What the transport does -/

/-- The message is the same one, but for its number and its time. -/
def Same (m m' : TransportMessage) : Prop := ∃ id sentAt, m' = { m with id, sentAt }

section
variable {t t' : SimTransport ν} {self : Uuid} {now : SimTime} {event : TransportEvent}
  {sends : List (Send TransportEvent)} [NetworkModel ν]

/-- The transport schedules an event for itself, or gives a message to the handler of its destination. -/
theorem moved_sends (h : t.Moved self now event t' sends) :
    t'.messageHandlers = t.messageHandlers ∧ ∀ send ∈ sends,
      Same event.message send.event.message ∧
        (send.target = self ∨ t.messageHandlers.lookup event.message.destination = some send.target) := by
  cases h with
  | lose hentered _ => exact ⟨rfl, List.forall_mem_singleton.mpr ⟨⟨_, _, hentered.eq⟩, .inl rfl⟩⟩
  | accept hentered _ _ => exact ⟨rfl, List.forall_mem_singleton.mpr ⟨⟨_, _, hentered.eq⟩, .inl rfl⟩⟩
  | deliver message =>
    refine ⟨rfl, fun send hsend => ?_⟩
    simp only [SimTransport.handleMessageDelivered] at hsend
    cases hlookup : t.messageHandlers.lookup message.destination with
    | none =>
      rw [hlookup] at hsend
      cases hsend
    | some handlerKey =>
      rw [hlookup] at hsend
      cases List.mem_singleton.mp hsend
      exact ⟨⟨message.id, message.sentAt, rfl⟩, .inr hlookup⟩
  | ignore message reason => exact ⟨rfl, fun send hsend => absurd hsend List.not_mem_nil⟩

/-- An event leads to one more, if any. -/
theorem moved_one (h : t.Moved self now event t' sends) : sends = [] ∨ ∃ send, sends = [send] := by
  cases h with
  | lose => exact .inr ⟨_, rfl⟩
  | accept => exact .inr ⟨_, rfl⟩
  | deliver message =>
    rw [SimTransport.handleMessageDelivered]
    simp only
    split
    · exact .inr ⟨_, rfl⟩
    · exact .inl rfl
  | ignore => exact .inl rfl

end

end Endpoints

end DesCartes.Transport
