import DesCartes.Proof.Tonic.Unary

/-!
# The calls that a client remembers

A client takes a call out of `pending` when a response for it comes. A call that is given up before
that, because its timeout is over or because its future is dropped, stays there: the calls in
`pending` are those that wait for a response exactly as long as no call is given up while it waits.

* `Counted`: what any operations keep; `Attended`: no call has been given up while it waited;
* `Counted.step`: an operation, and when it leaves the calls attended;
* `run_exact_iff`: any run.
-/

namespace DesCartes.Tonic.Simulated

open Transport (ClientEndpoint Component Endpoints SimTransport SimpleNetworkModel TransportEvent TransportMessage NetworkModel)
open Transport.Endpoints (isClient_setClient)

variable {ν κ μ ω : Type} {s s' : Simulated ν κ μ ω}

/-! ## Conditions -/

/-- The request of the call has been sent, and it waits for the response. -/
def Awaits (s : Simulated ν κ μ ω) (k : Nat) : Prop :=
  match s.calls.get k with
  | some call => Live call
  | none => False

instance (s : Simulated ν κ μ ω) (k : Nat) : Decidable (s.Awaits k) := by
  unfold Awaits Live
  split <;> infer_instance

/-- No call is given up while it waits. -/
def Patient (s : Simulated ν κ μ ω) : Op κ μ ω → Prop
  | .poll k _ elapsed => elapsed = true → ¬s.Awaits k
  | .drop k => ¬s.Awaits k
  | _ => True

instance (s : Simulated ν κ μ ω) : ∀ op : Op κ μ ω, Decidable (s.Patient op)
  | .poll k _ elapsed => inferInstanceAs (Decidable (elapsed = true → ¬s.Awaits k))
  | .drop k => inferInstanceAs (Decidable ¬s.Awaits k)
  | .addComponent | .serve .. | .install .. | .connect .. | .unary .. | .process .. | .respond .. => isTrue trivial

/-- Each client remembers its calls that wait for a response, and no others: none that has returned
or was dropped. -/
structure Exact (s : Simulated ν κ μ ω) : Prop where
  pending : ∀ key c, s.IsClient key c → ∀ correlationId, correlationId ∈ c.pending ↔
    ∃ k call, s.calls.get k = some call ∧ call.client = key ∧ call.correlationId = correlationId ∧ Live call
  forgotten : ∀ k call c, s.calls.get k = some call → s.IsClient call.client c → call.response.receiverAlive = false →
    call.correlationId ∉ c.pending

/-! ## What holds after any operations -/

/-- The calls that a client remembers are those whose sender is there, which is gone when the call
has its response. -/
structure Counted (s : Simulated ν κ μ ω) : Prop where
  keyed : s.Keyed
  known : Known s
  held : ∀ key c correlationId k call, s.IsClient key c → c.pending.lookup correlationId = some k → s.calls.get k = some call →
    call.response.senderAlive = true
  waits : ∀ k call, s.calls.get k = some call → call.response.receiverAlive = true → call.response.value = none →
    call.response.senderAlive = true
  sent : ∀ k call, s.calls.get k = some call → call.response.value.isSome = true → call.response.senderAlive = false

/-- No call has been given up while it waited. -/
def Attended (s : Simulated ν κ μ ω) : Prop :=
  ∀ k call, s.calls.get k = some call → call.response.senderAlive = true → call.response.receiverAlive = true

theorem counted_new (seed : BitVec 64) (n : Nat) (networkModel : ν) :
    Counted (new seed n networkModel : Simulated ν κ μ ω) := by
  have hcomponents : ∀ key component,
      (new seed n networkModel : Simulated ν κ μ ω).components.lookup key ≠ some component := by
    rintro _ _ ⟨⟩
  have hcalls : ∀ k call, (new seed n networkModel : Simulated ν κ μ ω).calls.get k ≠ some call := by
    rintro _ _ ⟨⟩
  exact ⟨fun key component h => absurd h (hcomponents key component),
    ⟨fun k call h => absurd h (hcalls k call), fun k _ call _ h => absurd h (hcalls k call),
      fun key c _ _ h => absurd h (hcomponents key _), fun k call _ h => absurd h (hcalls k call)⟩,
    fun key c _ _ _ h => absurd h (hcomponents key _), fun k call h => absurd h (hcalls k call),
    fun k call h => absurd h (hcalls k call)⟩

/-- What a client remembers is exact as long as the calls are attended. -/
theorem Counted.exact_iff (h : Counted s) : Exact s ↔ Attended s := by
  constructor
  · intro hexact k call hcall hsender
    obtain ⟨c, hc, -⟩ := h.known.numbered k call hcall
    have hlookup := h.known.waits k call c hcall hc hsender
    by_contra hdead
    exact hexact.forgotten k call c hcall hc (Bool.eq_false_of_not_eq_true hdead)
      (AList.lookup_isSome.mp (by rw [hlookup]; rfl))
  · intro hattended
    have hlive : ∀ key c correlationId, s.IsClient key c → correlationId ∈ c.pending → ∃ k call,
        s.calls.get k = some call ∧
            call.client = key ∧ call.correlationId = correlationId ∧ Live call := by
      intro key c correlationId hc hmem
      obtain ⟨k, hk⟩ := Option.isSome_iff_exists.mp (AList.lookup_isSome.mpr hmem)
      obtain ⟨call, hcall, hclient, hid⟩ := h.known.pending key c correlationId k hc hk
      have hsender := h.held key c correlationId k call hc hk hcall
      exact ⟨k, call, hcall, hclient, hid, hsender, hattended k call hcall hsender⟩
    refine ⟨fun key c hc correlationId => ⟨hlive key c correlationId hc, ?_⟩,
      fun k call c hcall hc hdead hmem => ?_⟩
    · rintro ⟨k, call, hcall, rfl, rfl, hsender, -⟩
      exact AList.lookup_isSome.mp (by rw [h.known.waits k call c hcall hc hsender]; rfl)
    · obtain ⟨k', call', hcall', hclient, hid, -, halive⟩ := hlive _ c _ hc hmem
      cases h.known.unique k' k call' call hcall' hcall hclient hid
      cases hcall.symm.trans hcall'
      rw [hdead] at halive
      cases halive

/-- Nothing is done to the components and the calls. -/
theorem Counted.same (h : Counted s) (hseed : s'.seed = s.seed)
    (hnext : s'.nextComponentId = s.nextComponentId) (hcomponents : s'.components = s.components)
    (hcalls : s'.calls = s.calls) : Counted s' := by
  obtain ⟨⟨_, _, _, _, _, _, _⟩, _, _, _⟩ := s
  obtain ⟨⟨_, _, _, _, _, _, _⟩, _, _, _⟩ := s'
  cases hseed
  cases hnext
  cases hcomponents
  cases hcalls
  exact ⟨h.keyed, ⟨h.known.numbered, h.known.unique, h.known.pending, h.known.waits⟩, h.held, h.waits, h.sent⟩

theorem Counted.added (h : Counted s) {component : Component (List Char → Bool)}
    {endpoints : Endpoints ν (List Char → Bool)} {key : Uuid} (hadded : s.Added component endpoints key)
    (hpending : ∀ c, component = .client c → c.pending = ∅) : Counted { s with toEndpoints := endpoints } := by
  refine ⟨hadded.keyed h.keyed, h.known.added h.keyed hadded hpending,
    fun key' c correlationId k call hc hk hcall => ?_, h.waits, h.sent⟩
  rcases hadded.isClient.mp hc with ⟨-, hcomponent⟩ | ⟨-, hc⟩
  · rw [hpending c hcomponent] at hk
    cases hk
  · exact h.held key' c correlationId k call hc hk hcall

theorem Counted.issue (h : Counted s) {key : Uuid} {c : ClientEndpoint} (hc : s.IsClient key c) :
    Counted (s.issue key c) := by
  refine ⟨h.keyed.setClient hc _, (h.known.call hc).2,
    fun key' c' correlationId k call hc' hk hcall => ?_,
    fun k call hcall => ?_, fun k call hcall => ?_⟩
  · rcases Table.get_insert_eq_some.mp hcall with ⟨-, rfl⟩ | hold
    · rfl
    · rcases isClient_setClient.mp hc' with ⟨rfl, rfl⟩ | ⟨-, hc'⟩
      · rcases AList.lookup_insert_eq_some.mp hk with ⟨-, rfl⟩ | ⟨-, hk⟩
        · exact absurd hold (by rw [s.calls.get_of_le _ le_rfl]; nofun)
        · exact h.held key' c correlationId k call hc hk hold
      · exact h.held key' c' correlationId k call hc' hk hold
  · rcases Table.get_insert_eq_some.mp hcall with ⟨-, rfl⟩ | hold
    · exact fun _ _ => rfl
    · exact h.waits k call hold
  · rcases Table.get_insert_eq_some.mp hcall with ⟨-, rfl⟩ | hold
    · exact fun hsome => absurd hsome Bool.false_ne_true
    · exact h.sent k call hold

/-- The receiver of a call is polled or dropped. -/
theorem Counted.set (h : Counted s) {k : Nat} {call : Call κ μ ω}
    (hcall : s.calls.get k = some call) {response : Oneshot.State (UnaryResult κ μ) ω}
    (hsender : response.senderAlive = call.response.senderAlive)
    (hwaits : response.receiverAlive = true → response.value = none → response.senderAlive = true)
    (hsent : response.value.isSome = true → response.senderAlive = false) :
    Counted { s with calls := s.calls.set k { call with response } } := by
  refine ⟨h.keyed, h.known.set hcall hsender.symm.trans, fun key c correlationId k' call' hc hk hcall' => ?_,
    fun k' call' hcall' => ?_, fun k' call' hcall' => ?_⟩
  · rcases get_set hcall hcall' with ⟨rfl, rfl⟩ | ⟨-, hsame⟩
    · exact hsender.trans (h.held key c correlationId k' call hc hk hcall)
    · exact h.held key c correlationId k' call' hc hk hsame
  · rcases get_set hcall hcall' with ⟨rfl, rfl⟩ | ⟨-, hsame⟩
    · exact hwaits
    · exact h.waits k' call' hsame
  · rcases get_set hcall hcall' with ⟨rfl, rfl⟩ | ⟨-, hsame⟩
    · exact hsent
    · exact h.sent k' call' hsame

section
variable {key : Uuid} {c : ClientEndpoint} {correlationId : List Char}

/-- What a client remembers after it has forgotten a call, or another client does. -/
theorem lookup_withClient {key' : Uuid} {c' : ClientEndpoint} {correlationId' : List Char} {k : Nat}
    (hc : s.IsClient key c)
    (hc' : (s.withClient key { c with pending := c.pending.erase correlationId }).IsClient key' c')
    (hk : c'.pending.lookup correlationId' = some k) :
    ¬(key' = key ∧ correlationId' = correlationId) ∧ ∃ c₁,
      s.IsClient key' c₁ ∧ c₁.pending.lookup correlationId' = some k := by
  rcases isClient_setClient.mp hc' with ⟨rfl, rfl⟩ | ⟨hne, hc'⟩
  · obtain ⟨hid, hk⟩ := AList.lookup_erase_eq_some.mp hk
    exact ⟨fun hsame => hid hsame.2, c, hc, hk⟩
  · exact ⟨fun hsame => hne hsame.1, c', hc', hk⟩

/-- A response comes for a call that the client does not know. -/
theorem Counted.ignore (h : Counted s) (hc : s.IsClient key c)
    (hnone : c.pending.lookup correlationId = none) :
    Counted (s.withClient key { c with pending := c.pending.erase correlationId }) := by
  refine ⟨h.keyed.setClient hc _, h.known.erase hc ?_,
    fun key' c' correlationId' k call hc' hk hcall => ?_, h.waits, h.sent⟩
  · rintro k call hcall rfl rfl
    rw [← Bool.not_eq_true]
    intro hsender
    cases hnone.symm.trans (h.known.waits k call c hcall hc hsender)
  · obtain ⟨-, c₁, hc₁, hk⟩ := lookup_withClient hc hc' hk
    exact h.held key' c₁ correlationId' k call hc₁ hk hcall

/-- A response comes for a call that the client remembers. -/
theorem Counted.answer (h : Counted s) (hc : s.IsClient key c) {k : Nat}
    (hk : c.pending.lookup correlationId = some k) {call : Call κ μ ω}
    (hcall : s.calls.get k = some call) {response : Oneshot.State (UnaryResult κ μ) ω}
    (hsender : response.senderAlive = false)
    (hvalue : response.receiverAlive = true → response.value ≠ none) :
    Counted ({ s with calls := s.calls.set k { call with response } }.withClient key
      { c with pending := c.pending.erase correlationId }) := by
  obtain ⟨call', hcall', hclient, hid⟩ := h.known.pending key c correlationId k hc hk
  cases hcall.symm.trans hcall'
  have hknown : Known { s with calls := s.calls.set k { call with response } } :=
    h.known.set hcall fun hsend => absurd (hsender.symm.trans hsend) Bool.false_ne_true
  refine ⟨h.keyed.setClient hc _, hknown.erase hc fun k' call' hcall' hclient' hid' => ?_,
    fun key' c' correlationId' k' call' hc' hk' hcall' => ?_, fun k' call' hcall' => ?_,
    fun k' call' hcall' => ?_⟩
  · rcases get_set hcall hcall' with ⟨-, rfl⟩ | ⟨hne, hsame⟩
    · exact hsender
    · exact absurd (h.known.unique k' k call' call hsame hcall (hclient'.trans hclient.symm)
        (hid'.trans hid.symm)) hne
  · obtain ⟨hother, c₁, hc₁, hk'⟩ := lookup_withClient hc hc' hk'
    rcases get_set hcall hcall' with ⟨rfl, -⟩ | ⟨-, hsame⟩
    · obtain ⟨call₁, hcall₁, hclient₁, hid₁⟩ := h.known.pending key' c₁ correlationId' k' hc₁ hk'
      cases hcall.symm.trans hcall₁
      exact absurd ⟨hclient₁.symm.trans hclient, hid₁.symm.trans hid⟩ hother
    · exact h.held key' c₁ correlationId' k' call' hc₁ hk' hsame
  · rcases get_set hcall hcall' with ⟨-, rfl⟩ | ⟨-, hsame⟩
    · exact fun halive hnone => absurd hnone (hvalue halive)
    · exact h.waits k' call' hsame
  · rcases get_set hcall hcall' with ⟨-, rfl⟩ | ⟨-, hsame⟩
    · exact fun _ => hsender
    · exact h.sent k' call' hsame

end

/-! ## Operations -/

/-- What an operation keeps, and when it leaves the calls attended. -/
structure Stepped (s : Simulated ν κ μ ω) (op : Op κ μ ω) (s' : Simulated ν κ μ ω) : Prop where
  counted : Counted s'
  attended : Attended s → (Attended s' ↔ s.Patient op)

section
variable {op : Op κ μ ω}

/-- Nothing is done to the components and the calls. -/
theorem Counted.stepped_same (h : Counted s) (hpatient : s.Patient op) (hseed : s'.seed = s.seed)
    (hnext : s'.nextComponentId = s.nextComponentId) (hcomponents : s'.components = s.components)
    (hcalls : s'.calls = s.calls) :
    Stepped s op s' := by
  refine ⟨h.same hseed hnext hcomponents hcalls, fun hattended => iff_of_true ?_ hpatient⟩
  rw [Attended, hcalls]
  exact hattended

theorem Counted.stepped_added (h : Counted s) (hpatient : s.Patient op) {component : Component (List Char → Bool)}
    {endpoints : Endpoints ν (List Char → Bool)} {key : Uuid} (hadded : s.Added component endpoints key)
    (hpending : ∀ c, component = .client c → c.pending = ∅) : Stepped s op { s with toEndpoints := endpoints } :=
  ⟨h.added hadded hpending, fun hattended => iff_of_true hattended hpatient⟩

/-- The receiver of a call is polled or dropped. -/
theorem Counted.stepped_set (h : Counted s) {k : Nat} {call : Call κ μ ω}
    (hcall : s.calls.get k = some call) {response : Oneshot.State (UnaryResult κ μ) ω}
    (hsender : response.senderAlive = call.response.senderAlive)
    (hwaits : response.receiverAlive = true → response.value = none → response.senderAlive = true)
    (hsent : response.value.isSome = true → response.senderAlive = false)
    (hpatient : (response.senderAlive = true → response.receiverAlive = true) ↔ s.Patient op) :
    Stepped s op { s with calls := s.calls.set k { call with response } } := by
  refine ⟨h.set hcall hsender hwaits hsent, fun hattended => ?_⟩
  rw [← hpatient]
  refine ⟨fun hall => hall k _ (Table.get_set_self hcall), fun hlive k' call' hcall' => ?_⟩
  rcases get_set hcall hcall' with ⟨-, rfl⟩ | ⟨-, hsame⟩
  · exact hlive
  · exact hattended k' call' hsame

theorem awaits_iff {k : Nat} {call : Call κ μ ω} (hcall : s.calls.get k = some call) :
    s.Awaits k ↔ Live call := by
  rw [Awaits, hcall]

theorem Counted.stepped_drop (h : Counted s) {k : Nat} {call : Call κ μ ω} (hcall : s.calls.get k = some call)
    (halive : call.response.receiverAlive = true) :
    Stepped s (.drop k) { s with calls := s.calls.set k { call with response := call.response.dropReceiver } } := by
  refine h.stepped_set hcall rfl (fun h => absurd h Bool.false_ne_true) (h.sent k call hcall) ?_
  show (call.response.senderAlive = true → false = true) ↔ ¬s.Awaits k
  rw [awaits_iff hcall, Live, halive]
  simp

/-- The future of a call is polled. -/
theorem Counted.stepped_poll [TonicCode κ] (h : Counted s) {k : Nat} {call : Call κ μ ω}
    (hcall : s.calls.get k = some call) (halive : call.response.receiverAlive = true) (waker : ω)
    (elapsed : Bool) :
    Stepped s (.poll k waker elapsed) (s.poll k call waker elapsed).1 := by
  rw [Simulated.poll, Oneshot.State.poll]
  cases hvalue : call.response.value with
  | some result =>
    have hsender := h.sent k call hcall (by rw [hvalue]; rfl)
    refine h.stepped_set hcall rfl (fun h => absurd h Bool.false_ne_true)
      (fun h => absurd h Bool.false_ne_true) ?_
    show (call.response.senderAlive = true → false = true) ↔ (elapsed = true → ¬s.Awaits k)
    rw [awaits_iff hcall, Live, hsender]
    simp
  | none =>
    -- nobody drops the sender of a call that waits
    have hsender := h.waits k call hcall halive hvalue
    simp only [hsender, Bool.true_eq_false, if_false]
    cases elapsed with
    | true =>
      refine h.stepped_set hcall hsender.symm (fun h => absurd h Bool.false_ne_true)
        (fun h => absurd h Bool.false_ne_true) ?_
      show (true = true → false = true) ↔ (true = true → ¬s.Awaits k)
      rw [awaits_iff hcall, Live, hsender, halive]
      simp
    | false =>
      refine h.stepped_set hcall hsender.symm (fun _ _ => rfl) (fun h => absurd h Bool.false_ne_true) ?_
      show (true = true → call.response.receiverAlive = true) ↔ (false = true → ¬s.Awaits k)
      exact iff_of_true (fun _ => halive) fun h => absurd h Bool.false_ne_true

variable {o : Output κ μ}

theorem Counted.stepped_addEndpoint (h : Counted s) (hpatient : s.Patient op)
    {component : Component (List Char → Bool)} {endpointId : Transport.EndpointId}
    (hpending : ∀ c, component = .client c → c.pending = ∅)
    (hadd : s.addEndpoint component endpointId = some (s', o)) :
    Stepped s op s' := by
  obtain ⟨⟨endpoints, key⟩, hs₁, heq⟩ := Option.map_eq_some_iff.mp hadd
  cases heq
  exact h.stepped_added hpatient (Endpoints.added_addEndpoint hs₁) hpending

variable [TonicCode κ] [TonicMetadata μ]

theorem Counted.stepped_unary (h : Counted s) {client : Uuid} {path : List Char}
    {request : Request μ} {now : SimTime}
    (hunary : s.unary client path request now = some (s', o)) :
    Stepped s (.unary client path request now) s' := by
  rw [Simulated.unary] at hunary
  split at hunary
  · rename_i c hc
    split at hunary
    · cases hunary
    · cases hunary
      exact h.stepped_same trivial rfl rfl rfl rfl
    · rename_i endpointRegistry target htarget
      obtain ⟨⟨c', correlationId⟩, hnext, heq⟩ := Option.map_eq_some_iff.mp hunary
      rw [ClientEndpoint.nextCorrelationId] at hnext
      split at hnext
      · cases hnext
        simp only [(h.known.call hc).1, dropTx] at heq
        cases heq
        refine ⟨(h.issue hc).same rfl rfl rfl rfl, fun hattended => iff_of_true
          (fun k call hcall => ?_) trivial⟩
        rcases Table.get_insert_eq_some.mp hcall with ⟨-, rfl⟩ | hold
        · exact fun _ => rfl
        · exact hattended k call hold
      · cases hnext
  · cases hunary

/-- A response comes to a client. -/
theorem Counted.stepped_resolve (h : Counted s) (hpatient : s.Patient op) {key : Uuid} {c : ClientEndpoint}
    (hc : s.IsClient key c) (correlationId : List Char) (payload : List UInt8) :
    Stepped s op (s.resolve key correlationId payload) := by
  have hremove : s.removePending key correlationId =
      (s.withClient key { c with pending := c.pending.erase correlationId },
        c.pending.lookup correlationId) := by
    rw [removePending, hc]
    rfl
  rw [resolve, hremove]
  cases hk : c.pending.lookup correlationId with
  | none => exact ⟨h.ignore hc hk, fun hattended => iff_of_true hattended hpatient⟩
  | some k =>
    obtain ⟨call, hcall, -⟩ := h.known.pending key c correlationId k hc hk
    have hsender : (call.response.send (unaryResult (decodeUnaryResponse payload))).1.senderAlive =
        false := by
      rw [Oneshot.State.send]
      split <;> rfl
    have hvalue : (call.response.send (unaryResult (decodeUnaryResponse payload))).1.receiverAlive = true →
        (call.response.send (unaryResult (decodeUnaryResponse payload))).1.value ≠ none := by
      rw [Oneshot.State.send]
      split
      · rename_i hdead
        exact fun halive => absurd (hdead.symm.trans halive) Bool.false_ne_true
      · exact fun _ => Option.some_ne_none _
    simp only [withClient, hcall]
    refine ⟨h.answer hc hk hcall hsender hvalue, fun hattended => iff_of_true
      (fun k' call' hcall' => ?_) hpatient⟩
    rcases get_set hcall hcall' with ⟨-, rfl⟩ | ⟨-, hsame⟩
    · exact fun halive => absurd (hsender.symm.trans halive) Bool.false_ne_true
    · exact hattended k' call' hsame

theorem Counted.stepped_processEvent (h : Counted s) (hpatient : s.Patient op) (k : Nat)
    (target : Uuid) (event : TransportEvent) :
    Stepped s op (s.processEvent k target event) := by
  unfold Simulated.processEvent
  split
  · rename_i message c hc
    split
    · exact h.stepped_resolve hpatient hc _ _
    · exact h.stepped_same hpatient rfl rfl rfl rfl
  · split <;> exact h.stepped_same hpatient rfl rfl rfl rfl
  · exact h.stepped_same hpatient rfl rfl rfl rfl

variable [NetworkModel ν]

theorem Counted.step (h : Counted s) (hstep : s.step op = some (s', o)) : Stepped s op s' := by
  cases op with
  | addComponent =>
    have hpatient : s.Patient .addComponent := trivial
    obtain ⟨⟨endpoints, key⟩, hadd, heq⟩ := Option.map_eq_some_iff.mp hstep
    cases heq
    exact h.stepped_added hpatient (Endpoints.added hadd) nofun
  | serve serviceName instanceName unary =>
    have hstep : s.serve serviceName instanceName unary = some (s', o) := hstep
    rw [Simulated.serve] at hstep
    split at hstep
    · cases hstep
      exact h.stepped_same trivial rfl rfl rfl rfl
    · rename_i endpointRegistry hstart
      have hsame : Counted { s with endpointRegistry } := h.same rfl rfl rfl rfl
      have hpatient : Patient { s with endpointRegistry } (.serve serviceName instanceName unary) := trivial
      have hstepped := hsame.stepped_addEndpoint hpatient (by rintro c ⟨⟩) hstep
      exact ⟨hstepped.counted, hstepped.attended⟩
  | install serviceName clientName endpointId =>
    refine h.stepped_addEndpoint trivial ?_ hstep
    rintro c ⟨⟩
    rfl
  | connect serviceName instanceName =>
    have hstep : s.connect serviceName instanceName = some (s', o) := hstep
    rw [Simulated.connect] at hstep
    split at hstep
    · simp only at hstep
      split at hstep
      · have hsame : Counted { s with nextClientId := s.nextClientId + 1 } := h.same rfl rfl rfl rfl
        have hpatient : Patient { s with nextClientId := s.nextClientId + 1 }
          (.connect serviceName instanceName) := trivial
        have hstepped := hsame.stepped_addEndpoint hpatient (by rintro c ⟨⟩; rfl) hstep
        exact ⟨hstepped.counted, hstepped.attended⟩
      · cases hstep
        exact h.stepped_same trivial rfl rfl rfl rfl
    · cases hstep
  | unary client path request now => exact h.stepped_unary hstep
  | poll k waker elapsed =>
    obtain ⟨call, hcall, hstep⟩ := Option.bind_eq_some_iff.mp hstep
    split at hstep
    · rename_i halive
      obtain ⟨rfl, -⟩ := Prod.mk.inj (Option.some.inj hstep)
      exact h.stepped_poll hcall halive waker elapsed
    · cases hstep
  | drop k =>
    obtain ⟨call, hcall, hstep⟩ := Option.bind_eq_some_iff.mp hstep
    split at hstep
    · rename_i halive
      cases hstep
      exact h.stepped_drop hcall halive
    · cases hstep
  | process i now =>
    have hpatient : s.Patient (.process i now) := trivial
    obtain ⟨e, he, hstep⟩ := Option.bind_eq_some_iff.mp hstep
    split at hstep
    · obtain ⟨⟨transport, sends⟩, -, heq⟩ := Option.map_eq_some_iff.mp hstep
      cases heq
      exact h.stepped_same hpatient rfl rfl rfl rfl
    · cases hstep
      exact h.stepped_processEvent hpatient _ _ _
  | respond j result now =>
    obtain ⟨handling, hj, heq⟩ := Option.map_eq_some_iff.mp hstep
    cases heq
    exact h.stepped_same trivial rfl rfl rfl rfl

/-- What the clients remember is exact throughout a run exactly if no call is given up while it waits. -/
theorem run_exact_iff {seed : BitVec 64} {n : Nat} {networkModel : ν} {ops : List (Op κ μ ω)} {answers : List (Output κ μ)}
    (hrun : Machine.run step (new seed n networkModel : Simulated ν κ μ ω) ops = some (s, answers)) :
    (∀ pre u os, pre <+: ops → Machine.run step (new seed n networkModel : Simulated ν κ μ ω) pre = some (u, os) → Exact u) ↔
      Machine.Along Patient step (new seed n networkModel : Simulated ν κ μ ω) ops := by
  refine (Machine.along_iff (C := Patient) (K := fun s => Counted s ∧ Attended s) (P := Exact)
    (fun s hs => hs.1.exact_iff.mpr hs.2)
    (fun s op u o hs hpatient hstep => ?_) (fun s op u o hs hstep hexact => ?_)
    ⟨counted_new seed n networkModel, ?_⟩ hrun).symm
  · have hstepped := hs.1.step hstep
    exact ⟨hstepped.counted, (hstepped.attended hs.2).mpr hpatient⟩
  · have hstepped := hs.1.step hstep
    exact (hstepped.attended hs.2).mp (hstepped.counted.exact_iff.mp hexact)
  · rintro _ _ ⟨⟩

end

/-! ## One client -/

/-- A client makes a call whose timeout is over before its request is delivered. -/
def timedOut : List (Op GrpcCode Entries Nat) :=
  [.serve "svc".toList "a".toList fun _ => true, .install "svc".toList "client".toList none,
    .unary (keyOf 3) "/svc/Method".toList ⟨[], [1]⟩ .zero, .poll 0 0 true]

/-- The client still remembers the call that has returned. -/
theorem not_exact_timedOut : ∃ (s : Simulated (SimpleNetworkModel SimTransport.ZeroFloat Unit) GrpcCode Entries Nat)
    (answers : List (Output GrpcCode Entries)), Machine.run step ideal timedOut = some (s, answers) ∧ ¬Exact s := by
  have hrun : (Machine.run step ideal timedOut).map (fun r => (r.1.calls.get 0).map fun call =>
      (call.response.senderAlive, call.response.receiverAlive)) = some (some (true, false)) := by
    decide +kernel
  obtain ⟨⟨s, answers⟩, hrun, hcall⟩ := Option.map_eq_some_iff.mp hrun
  obtain ⟨call, hcall, halive⟩ := Option.map_eq_some_iff.mp hcall
  obtain ⟨hsender, hreceiver⟩ := Prod.mk.inj halive
  have hcounted : Counted s := Machine.run_invariant (fun _ _ _ _ h hs => (Counted.step h hs).counted)
    (counted_new _ _ _) hrun
  refine ⟨s, answers, hrun, fun hexact => ?_⟩
  have hlive := hcounted.exact_iff.mp hexact 0 call hcall hsender
  rw [hreceiver] at hlive
  cases hlive

theorem run_exact_iff_meet : ∃ (s : Simulated (SimpleNetworkModel SimTransport.ZeroFloat Unit) GrpcCode Entries Nat)
    (answers : List (Output GrpcCode Entries)), Machine.run step ideal (meet "alice" "bob" 0) = some (s, answers) ∧
      ∀ pre u os, pre <+: meet "alice" "bob" 0 → Machine.run step ideal pre = some (u, os) → Exact u := by
  have hrun : (Machine.run step ideal (meet "alice" "bob" 0)).isSome = true := by
    decide +kernel
  obtain ⟨⟨s, answers⟩, hrun⟩ := Option.isSome_iff_exists.mp hrun
  exact ⟨s, answers, hrun, (run_exact_iff hrun).mpr (by decide +kernel)⟩

end DesCartes.Tonic.Simulated
