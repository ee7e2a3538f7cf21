import DesCartes.Framework.HashMap
import DesCartes.Impl.Transport.SimTransport
import DesCartes.Proof.Hosted
import Mathlib.Algebra.Ring.Nat

/-!
# The accounts of a transport

`Moved` says what an event does to a transport. `Counted` ties its statistics to its history,
`Ledger` the messages that it has accepted to those that have arrived and to the deliveries that are
pending, and `Numbered` its counter to the numbers that it has seen.

* `Moved.counted`, `Moved.ledger`, `Moved.numbered`: what an event keeps;
* `run_arrivals`: a message arrives when its delivery is due;
* `run_ledger`: the accounts of any run.
-/

namespace DesCartes.Transport

variable {ν χ : Type}

/-! ## What a transport has done -/

/-- The message that an event delivers. -/
def TransportEvent.delivery? : TransportEvent → Option TransportMessage
  | .messageDelivered message => some message
  | _ => none

/-- The message that an event says to be dropped. -/
def TransportEvent.loss? : TransportEvent → Option TransportMessage
  | .messageDropped message _ => some message
  | _ => none

/-- The message of an event. -/
def TransportEvent.message : TransportEvent → TransportMessage
  | .sendMessage message | .messageDelivered message | .messageDropped message _ => message

/-- The deliveries among events, with their times. -/
def deliveries (mail : List (SimTime × TransportEvent)) : List (SimTime × TransportMessage) :=
  mail.filterMap fun x => x.2.delivery?.map (x.1, ·)

/-- What a transport has done when its code was called. -/
abbrev Done (ν χ : Type) := Handled (SimTransport ν) TransportEvent (Method χ)

/-- The calls of `schedule` for a message that has been sent. -/
def Done.transmitted (h : Done ν χ) : List (Send TransportEvent) :=
  match h.input with
  | .inl (.sendMessage _) => h.sends
  | _ => []

/-- The messages that have not been dropped, with the times when they are due. -/
def accepted (hs : List (Done ν χ)) : List (SimTime × TransportMessage) :=
  hs.flatMap fun h => h.transmitted.filterMap fun send => send.event.delivery?.map (h.now + send.delay, ·)

/-- The messages that have been dropped. -/
def lost (hs : List (Done ν χ)) : List TransportMessage :=
  hs.flatMap fun h => h.transmitted.filterMap fun send => send.event.loss?

/-- The messages that have been delivered to the transport, with the times when they were. -/
def arrived (hs : List (Done ν χ)) : List (SimTime × TransportMessage) :=
  hs.filterMap fun h =>
    match h.input with
    | .inl event => event.delivery?.map (h.now, ·)
    | .inr _ => none

/-- The numbers of the messages that the transport has seen, or has made. -/
def Done.seen (h : Done ν χ) : List Nat :=
  match h.input with
  | .inl (.sendMessage _) | .inr _ => h.sends.map (·.event.message.id)
  | _ => []

/-- The numbers that the transport has assigned itself. -/
def Done.assigned (h : Done ν χ) : List Nat :=
  match h.input with
  | .inl (.sendMessage message) => if message.id = 0 then h.seen else []
  | _ => h.seen

theorem accepted_append (hs : List (Done ν χ)) (h : Done ν χ) : accepted (hs ++ [h]) =
    accepted hs ++ h.transmitted.filterMap fun send => send.event.delivery?.map (h.now + send.delay, ·) := by
  rw [accepted, List.flatMap_append, List.flatMap_singleton]
  rfl

theorem lost_append (hs : List (Done ν χ)) (h : Done ν χ) :
    lost (hs ++ [h]) = lost hs ++ h.transmitted.filterMap fun send => send.event.loss? := by
  rw [lost, List.flatMap_append, List.flatMap_singleton]
  rfl

theorem arrived_append (hs hs' : List (Done ν χ)) : arrived (hs ++ hs') = arrived hs ++ arrived hs' :=
  List.filterMap_append

theorem deliveries_append (mail mail' : List (SimTime × TransportEvent)) :
    deliveries (mail ++ mail') = deliveries mail ++ deliveries mail' := List.filterMap_append

/-- The bytes of messages. -/
def bytes (messages : List TransportMessage) : Nat := (messages.map TransportMessage.size).sum

theorem bytes_append (messages : List TransportMessage) (m : TransportMessage) :
    bytes (messages ++ [m]) = bytes messages + m.size := by
  rw [bytes, List.map_append, List.sum_append, List.map_singleton, List.sum_singleton]
  rfl

namespace SimTransport

/-! ## What an event does -/

/-- A message `m` has the number and the time with which it enters the network, and `next` is the
next number. -/
structure Entered (t : SimTransport ν) (now : SimTime) (message m : TransportMessage) (next : Nat) : Prop where
  eq : m = { message with id := m.id, sentAt := now }
  id_lt : m.id < next
  le_next : t.nextMessageId ≤ next
  assigned : message.id = 0 → m.id = t.nextMessageId

theorem entered_assignId {t t' : SimTransport ν} (now : SimTime) {message m : TransportMessage}
    (h : t.assignId message = some (m, t')) :
    t' = { t with nextMessageId := t'.nextMessageId } ∧
    t.Entered now message { m with sentAt := now } t'.nextMessageId := by
  unfold assignId nextId at h
  split at h
  · rename_i hzero
    split at h <;> cases h
    exact ⟨rfl, rfl, Nat.lt_succ_self _, Nat.le_succ _, fun _ => rfl⟩
  · rename_i hid
    split at h
    · rename_i hle
      split at h <;> cases h
      exact ⟨rfl, rfl, Nat.lt_succ_self _, Nat.le_succ_of_le hle, fun hzero => absurd hzero hid⟩
    · rename_i hlt
      cases h
      exact ⟨rfl, rfl, not_le.mp hlt, le_rfl, fun hzero => absurd hzero hid⟩

/-- The statistics, after a message has entered the network. -/
def sentStats (t : SimTransport ν) (m : TransportMessage) : TransportStats :=
  { t.stats with messagesSent := t.stats.messagesSent + 1, bytesSent := t.stats.bytesSent + m.size }

/-- What a method of the owner does, and what it schedules: it delivers no message. -/
structure Called (t : SimTransport ν) (method : Method χ) (t' : SimTransport ν) (sends : List (Send TransportEvent)) : Prop where
  quiet : ∀ send ∈ sends, send.event.delivery? = none
  stats : t'.stats = t.stats ∨ method = .resetStats
  le_next : t.nextMessageId ≤ t'.nextMessageId
  assigned : ∀ send ∈ sends, t.nextMessageId ≤ send.event.message.id ∧ send.event.message.id < t'.nextMessageId
  handlers : ∀ endpoint handler, t'.messageHandlers.lookup endpoint = some handler →
    t.messageHandlers.lookup endpoint = some handler ∨ method = .registerHandler endpoint handler

theorem called_send {t t₁ : SimTransport ν} {id : Nat} (h : t.nextId = some (id, t₁))
    {message : TransportMessage} (hid : message.id = id) (method : Method χ) (target : Uuid) :
    Called t method t₁ [⟨.zero, target, .sendMessage message⟩] := by
  unfold nextId at h
  split at h <;> cases h
  refine ⟨List.forall_mem_singleton.mpr rfl, .inl rfl, Nat.le_succ _, List.forall_mem_singleton.mpr ?_,
    fun _ _ => .inl⟩
  show t.nextMessageId ≤ message.id ∧ message.id < t.nextMessageId + 1
  omega

/-- The messages that have been accepted are those that have arrived when they were due, and those
whose deliveries are pending. -/
structure Ledger (key : Uuid) (t : SimTransport ν) (mail : List (SimTime × TransportEvent)) (hs : List (Done ν χ)) : Prop where
  perm : (accepted hs).Perm (arrived hs ++ deliveries mail)
  handlers : ∀ endpoint handler, t.messageHandlers.lookup endpoint = some handler → handler ≠ key

variable {self : Uuid} {now : SimTime} {mail : List (SimTime × TransportEvent)} {hs : List (Done ν χ)}

/-- What is sent that delivers no message, or is for another component. -/
theorem deliveries_sends {sends : List (Send TransportEvent)}
    (h : ∀ send ∈ sends, send.event.delivery? = none ∨ send.target ≠ self) :
    deliveries (sends.filterMap (Send.mailFor self now)) = [] := by
  refine List.filterMap_eq_nil_iff.mpr fun x hx => ?_
  obtain ⟨send, hsend, he⟩ := List.mem_filterMap.mp hx
  obtain ⟨event, hevent, rfl⟩ := Option.map_eq_some_iff.mp he
  simp only [Send.eventFor, Option.ite_none_right_eq_some, Option.some.injEq] at hevent
  rcases h send hsend with hnone | hother
  · simp [← hevent.2, hnone]
  · exact absurd hevent.1 hother

/-- A method of the owner keeps the ledger, unless it makes the transport a handler of its own. -/
theorem Called.ledger {t t' : SimTransport ν} {method : Method χ}
    {sends : List (Send TransportEvent)} (hc : Called t method t' sends)
    (hself : ∀ endpoint, method ≠ .registerHandler endpoint self) (h : Ledger self t mail hs) :
    Ledger self t' (sends.filterMap (Send.mailFor self now) ++ mail)
      (hs ++ [⟨t, .inr method, now, t', sends⟩]) := by
  refine ⟨?_, fun endpoint handler hhandler => ?_⟩
  · rw [deliveries_append, deliveries_sends fun send hsend => .inl (hc.quiet send hsend),
      accepted_append, arrived_append]
    simpa [Done.transmitted, arrived] using h.perm
  · rcases hc.handlers endpoint handler hhandler with hbefore | hmethod
    · exact h.handlers endpoint handler hbefore
    · rintro rfl
      exact hself endpoint hmethod

/-- The statistics count the messages that have been accepted, lost and delivered. -/
structure Counted (stats : TransportStats) (accepted lost arrived : List TransportMessage) : Prop where
  sent : stats.messagesSent = accepted.length + lost.length
  bytesSent : stats.bytesSent = bytes accepted + bytes lost
  delivered : stats.messagesDelivered = arrived.length
  bytesDelivered : stats.bytesDelivered = bytes arrived
  dropped : stats.messagesDropped = lost.length

/-- The statistics are those of the history. -/
def Accounted (t : SimTransport ν) (hs : List (Done ν χ)) : Prop :=
  Counted t.stats ((accepted hs).map Prod.snd) (lost hs) ((arrived hs).map Prod.snd)

/-- The numbers that have been seen are before the next one, and an assigned one is past all that
were seen before. -/
structure Numbered (t : SimTransport ν) (hs : List (Done ν χ)) : Prop where
  seen : ∀ x ∈ hs, ∀ i ∈ x.seen, i < t.nextMessageId
  assigned : hs.Pairwise fun x y => ∀ i ∈ x.seen, ∀ j ∈ y.assigned, i < j

theorem Numbered.append {t t' : SimTransport ν} {hs : List (Done ν χ)} (h : t.Numbered hs)
    (hle : t.nextMessageId ≤ t'.nextMessageId) {x : Done ν χ}
    (hseen : ∀ i ∈ x.seen, i < t'.nextMessageId)
    (hassigned : ∀ i ∈ x.assigned, t.nextMessageId ≤ i) :
    t'.Numbered (hs ++ [x]) := by
  refine ⟨List.forall_mem_append.mpr ⟨fun y hy i hi => (h.seen y hy i hi).trans_le hle,
    List.forall_mem_singleton.mpr hseen⟩, ?_⟩
  refine List.pairwise_append.mpr ⟨h.assigned, List.pairwise_singleton ..,
    fun y hy => List.forall_mem_singleton.mpr ?_⟩
  exact fun i hi j hj => (h.seen y hy i hi).trans_le (hassigned j hj)

theorem Called.accounted {t t' : SimTransport ν} {method : Method χ} {sends : List (Send TransportEvent)}
    (hc : Called t method t' sends) (hreset : method ≠ .resetStats) (h : t.Accounted hs) :
    t'.Accounted (hs ++ [⟨t, .inr method, now, t', sends⟩]) := by
  rw [Accounted, hc.stats.resolve_right hreset, accepted_append, lost_append, arrived_append]
  simpa [Accounted, Done.transmitted, arrived] using h

theorem Called.numbered {t t' : SimTransport ν} {method : Method χ}
    {sends : List (Send TransportEvent)} (hc : Called t method t' sends) (h : t.Numbered hs) :
    t'.Numbered (hs ++ [⟨t, .inr method, now, t', sends⟩]) := by
  refine h.append hc.le_next (fun i hi => ?_) fun i hi => ?_
  · obtain ⟨send, hsend, rfl⟩ := List.mem_map.mp hi
    exact (hc.assigned send hsend).2
  · obtain ⟨send, hsend, rfl⟩ := List.mem_map.mp hi
    exact (hc.assigned send hsend).1

variable [NetworkModel ν]

/-- What an event does to a transport, and what the transport schedules then. -/
inductive Moved (self : Uuid) (now : SimTime) (t : SimTransport ν) :
    TransportEvent → SimTransport ν → List (Send TransportEvent) → Prop
  | lose {message m : TransportMessage} {next : Nat} {networkModel : ν} : t.Entered now message m next →
    NetworkModel.shouldDropMessage t.networkModel m.source m.destination m = (true, networkModel) →
      Moved self now t (.sendMessage message)
        { t with
          networkModel, nextMessageId := next
          stats := { t.sentStats m with messagesDropped := t.stats.messagesDropped + 1 } }
        [⟨.zero, self, .messageDropped m "Network packet loss".toList⟩]
  | accept {message m : TransportMessage} {next latency : Nat} {networkModel networkModel' : ν} : t.Entered now message m next →
    NetworkModel.shouldDropMessage t.networkModel m.source m.destination m = (false, networkModel) →
      NetworkModel.calculateLatency networkModel m.source m.destination m = some (latency, networkModel') →
      Moved self now t (.sendMessage message)
        { t with networkModel := networkModel', nextMessageId := next, stats := t.sentStats m }
        [⟨.fromDuration latency, self, .messageDelivered m⟩]
  | deliver (message : TransportMessage) :
    Moved self now t (.messageDelivered message) (t.handleMessageDelivered message).1 (t.handleMessageDelivered message).2
  | ignore (message : TransportMessage) (reason : List Char) : Moved self now t (.messageDropped message reason) t []

variable {t t' : SimTransport ν} {configure : ν → χ → ν}

theorem moved {event : TransportEvent} {sends : List (Send TransportEvent)}
    (h : (code configure).processEvent t self event now = some (t', sends)) :
    t.Moved self now event t' sends := by
  cases event with
  | sendMessage message =>
    simp only [code] at h
    split at h
    · cases h
    · rename_i m t₁ hassign
      obtain ⟨ht₁, hentered⟩ := entered_assignId now hassign
      rw [ht₁] at h
      simp only [transmit] at h
      split at h
      · rename_i networkModel hdrop
        cases h
        exact .lose hentered hdrop
      · rename_i networkModel hdrop
        split at h
        · cases h
        · rename_i latency networkModel' hlatency
          cases h
          exact .accept hentered hdrop hlatency
  | messageDelivered message =>
    obtain ⟨rfl, rfl⟩ := Prod.ext_iff.mp (Option.some.inj h)
    exact .deliver message
  | messageDropped message reason =>
    obtain ⟨rfl, rfl⟩ := Prod.ext_iff.mp (Option.some.inj h)
    exact .ignore message reason

theorem called {method : Method χ} {sends : List (Send TransportEvent)}
    (h : (code configure).call t self method now = some (t', sends)) : Called t method t' sends := by
  cases method with
  | registerHandler endpoint handler =>
    cases h
    refine ⟨nofun, .inl rfl, le_rfl, nofun, fun e k hk => ?_⟩
    rcases AList.lookup_insert_eq_some.mp hk with ⟨rfl, rfl⟩ | ⟨-, hk⟩
    · exact .inr rfl
    · exact .inl hk
  | unregisterHandler endpoint =>
    cases h
    exact ⟨nofun, .inl rfl, le_rfl, nofun, fun e k hk => .inl (AList.lookup_erase_eq_some.mp hk).2⟩
  | sendMessage =>
    obtain ⟨⟨id, t₁⟩, hid, he⟩ := Option.map_eq_some_iff.mp h
    cases he
    exact called_send hid rfl _ _
  | sendMessageWithCorrelation =>
    obtain ⟨⟨id, t₁⟩, hid, he⟩ := Option.map_eq_some_iff.mp h
    cases he
    exact called_send hid rfl _ _
  | resetStats =>
    cases h
    exact ⟨nofun, .inr rfl, le_rfl, nofun, fun _ _ => .inl⟩
  | resetNetworkModel =>
    cases h
    exact ⟨nofun, .inl rfl, le_rfl, nofun, fun _ _ => .inl⟩
  | configure change =>
    cases h
    exact ⟨nofun, .inl rfl, le_rfl, nofun, fun _ _ => .inl⟩

theorem called_networkModel {method : Method χ} {sends : List (Send TransportEvent)}
    (h : (code configure).call t self method now = some (t', sends)) :
    t'.networkModel = t.networkModel ∨ t'.networkModel = NetworkModel.reset t.networkModel ∨
      ∃ change, method = .configure change ∧ t'.networkModel = configure t.networkModel change := by
  have hnext : ∀ {id t₁}, t.nextId = some (id, t₁) → t₁.networkModel = t.networkModel := by
    intro id t₁ h
    unfold nextId at h
    split at h <;> cases h
    rfl
  cases method with
  | sendMessage | sendMessageWithCorrelation =>
    obtain ⟨⟨id, t₁⟩, hid, he⟩ := Option.map_eq_some_iff.mp h
    cases he
    exact .inl (hnext hid)
  | resetNetworkModel => cases h; exact .inr (.inl rfl)
  | configure change => cases h; exact .inr (.inr ⟨change, rfl, rfl⟩)
  | _ => cases h; exact .inl rfl

/-! ## Arrivals -/

/-- Every event keeps the ledger. -/
theorem Moved.ledger {event : TransportEvent} {sends : List (Send TransportEvent)}
    (hm : t.Moved self now event t' sends) (h : Ledger self t ((now, event) :: mail) hs) :
    Ledger self t' (sends.filterMap (Send.mailFor self now) ++ mail)
      (hs ++ [⟨t, .inl event, now, t', sends⟩]) := by
  have hperm := h.perm
  cases hm with
  | lose hentered hdrop =>
    refine ⟨?_, h.handlers⟩
    rw [deliveries_append, deliveries_sends fun send hsend => .inl (List.mem_singleton.mp hsend ▸ rfl),
      accepted_append,
      arrived_append]
    simpa [Done.transmitted, TransportEvent.delivery?, deliveries, arrived] using hperm
  | @accept message m next latency _ _ hentered hdrop hlatency =>
    refine ⟨?_, h.handlers⟩
    have hmail : [(⟨.fromDuration latency, self, .messageDelivered m⟩ : Send TransportEvent)].filterMap
      (Send.mailFor self now) =
        [(now + .fromDuration latency, .messageDelivered m)] := by simp [Send.mailFor, Send.eventFor]
    rw [hmail, accepted_append, arrived_append, deliveries_append]
    refine (hperm.append_right _).trans ?_
    show (arrived hs ++ deliveries mail ++ [(now + .fromDuration latency, m)]).Perm
      (arrived hs ++ [] ++ ([(now + .fromDuration latency, m)] ++ deliveries mail))
    rw [List.append_nil, List.append_assoc]
    exact List.perm_append_comm.append_left _
  | deliver message =>
    have hother : ∀ send ∈ (t.handleMessageDelivered message).2, send.target ≠ self := by
      intro send hsend
      simp only [handleMessageDelivered] at hsend
      split at hsend
      · rename_i handler hhandler
        exact List.mem_singleton.mp hsend ▸ h.handlers _ _ hhandler
      · cases hsend
    refine ⟨?_, h.handlers⟩
    rw [deliveries_append, deliveries_sends fun send hsend => .inr (hother send hsend), accepted_append,
      arrived_append]
    simpa [Done.transmitted, TransportEvent.delivery?, deliveries, arrived] using hperm
  | ignore message reason =>
    refine ⟨?_, h.handlers⟩
    rw [accepted_append, arrived_append]
    simpa [Done.transmitted, TransportEvent.delivery?, deliveries, arrived] using hperm

/-- Every event keeps the statistics. -/
theorem Moved.accounted {event : TransportEvent} {sends : List (Send TransportEvent)}
    (hm : t.Moved self now event t' sends) (h : t.Accounted hs) :
    t'.Accounted (hs ++ [⟨t, .inl event, now, t', sends⟩]) := by
  rw [Accounted, accepted_append, lost_append, arrived_append, List.map_append, List.map_append]
  cases hm with
  | @lose message m next _ _ _ =>
    show Counted _ ((accepted hs).map Prod.snd ++ []) (lost hs ++ [m]) ((arrived hs).map Prod.snd ++ [])
    rw [List.append_nil, List.append_nil]
    refine ⟨?_, ?_, h.delivered, h.bytesDelivered, ?_⟩
    · rw [List.length_append, ← Nat.add_assoc]
      exact congrArg (· + 1) h.sent
    · rw [bytes_append, ← Nat.add_assoc]
      exact congrArg (· + m.size) h.bytesSent
    · rw [List.length_append]
      exact congrArg (· + 1) h.dropped
  | @accept message m next _ _ _ _ _ _ =>
    show Counted _ ((accepted hs).map Prod.snd ++ [m]) (lost hs ++ []) ((arrived hs).map Prod.snd ++ [])
    rw [List.append_nil, List.append_nil]
    refine ⟨?_, ?_, h.delivered, h.bytesDelivered, h.dropped⟩
    · rw [List.length_append, Nat.add_right_comm]
      exact congrArg (· + 1) h.sent
    · rw [bytes_append, Nat.add_right_comm]
      exact congrArg (· + m.size) h.bytesSent
  | deliver message =>
    show Counted _ ((accepted hs).map Prod.snd ++ []) (lost hs ++ []) ((arrived hs).map Prod.snd ++ [message])
    rw [List.append_nil, List.append_nil]
    refine ⟨h.sent, h.bytesSent, ?_, ?_, h.dropped⟩
    · rw [List.length_append]
      exact congrArg (· + 1) h.delivered
    · rw [bytes_append]
      exact congrArg (· + message.size) h.bytesDelivered
  | ignore message reason =>
    show Counted _ ((accepted hs).map Prod.snd ++ []) (lost hs ++ []) ((arrived hs).map Prod.snd ++ [])
    rw [List.append_nil, List.append_nil, List.append_nil]
    exact h

/-- Every event keeps the numbers. -/
theorem Moved.numbered {event : TransportEvent} {sends : List (Send TransportEvent)}
    (hm : t.Moved self now event t' sends) (h : t.Numbered hs) :
    t'.Numbered (hs ++ [⟨t, .inl event, now, t', sends⟩]) := by
  cases hm with
  | @lose message m next _ hentered _ =>
    refine h.append hentered.le_next (List.forall_mem_singleton.mpr hentered.id_lt) fun i hi => ?_
    simp only [Done.assigned, Done.seen] at hi
    split at hi
    · rename_i hzero
      rw [List.mem_singleton.mp hi]
      exact (hentered.assigned hzero).ge
    · cases hi
  | @accept message m next _ _ _ hentered _ _ =>
    refine h.append hentered.le_next (List.forall_mem_singleton.mpr hentered.id_lt) fun i hi => ?_
    simp only [Done.assigned, Done.seen] at hi
    split at hi
    · rename_i hzero
      rw [List.mem_singleton.mp hi]
      exact (hentered.assigned hzero).ge
    · cases hi
  | deliver message =>
    have hnext : t.nextMessageId ≤ (t.handleMessageDelivered message).1.nextMessageId := le_rfl
    exact h.append hnext (fun i hi => nomatch hi) fun i hi => nomatch hi
  | ignore message reason => exact h.append le_rfl (fun i hi => nomatch hi) fun i hi => nomatch hi

/-! ## Runs -/

section

variable {τ ρ φ : Type} [EventFrontierPolicy φ] {model : ν} {seed : BitVec 64}
  {ops : List (Hosted.Op TransportEvent τ ρ φ (Method χ))}
  {h : Hosted (SimTransport ν) TransportEvent τ ρ} {answers : List (Hosted.Answer (SimTransport ν) TransportEvent (Method χ))}

/-- The messages that are accepted arrive when they are due, if no other delivery is made to the
transport: not by other code, and not by the transport itself as a handler. -/
theorem run_arrivals
    (hforeign : ∀ delay m, .other (.schedule delay self (.messageDelivered m)) ∉ ops)
    (hself : ∀ endpoint, .call (.registerHandler endpoint self) ∉ ops)
    (hrun : Machine.run (Hosted.step (code configure) self) ⟨.new model, .fresh seed⟩ ops =
      some (h, answers)) :
    (accepted (Hosted.history answers)).Perm (arrived (Hosted.history answers) ++
      deliveries (h.session.mail self)) := by
  have hledger := Hosted.run_rule_mail (P := Ledger self) (I := fun e => e.delivery? = none)
    (A := fun m => ∀ endpoint, m ≠ .registerHandler endpoint self) (fun t l l' hs hl h => ?_)
    (fun t l hs due e he h => ?_)
    (fun t l hs e now t' sends hp _ h => (moved hp).ledger h)
      (fun t l hs m now t' sends hm hp _ h => (called hp).ledger hm h)
    (fun delay e he => ?_) (fun m hm endpoint he => ?_) (Session.wf_fresh seed)
      ⟨.refl _, fun e k hk => by simp [new] at hk⟩ hrun
  · exact hledger.perm
  · exact ⟨h.perm.trans ((hl.filterMap _).append_left _), h.handlers⟩
  · refine ⟨?_, h.handlers⟩
    rw [deliveries, List.filterMap_cons, he]
    exact h.perm
  · cases e with
    | messageDelivered m => exact absurd he (hforeign delay m)
    | _ => rfl
  · exact hself endpoint (he ▸ hm)

/-- In any run of a transport whose statistics are not reset, and to which no other delivery is
made: the messages sent are those delivered, those dropped and those whose deliveries are pending,
and so are their bytes; a message that is not dropped is delivered once or pending, and is then
handed once to the handler that its destination has, if any; and a number that the transport assigns
is past all that it has seen. -/
theorem run_ledger (hforeign : ∀ delay m, .other (.schedule delay self (.messageDelivered m)) ∉ ops)
    (hself : ∀ endpoint, .call (.registerHandler endpoint self) ∉ ops) (hreset : .call .resetStats ∉ ops)
    (hrun : Machine.run (Hosted.step (code configure) self) ⟨.new model, .fresh seed⟩ ops = some (h, answers)) :
    let stats := h.component.stats
    let hs := Hosted.history answers
    let pending := (h.session.inbox self).filterMap TransportEvent.delivery?
    stats.messagesSent = stats.messagesDelivered + stats.messagesDropped + pending.length ∧
    stats.bytesSent = stats.bytesDelivered + bytes (lost hs) + bytes pending ∧ stats.messagesDropped = (lost hs).length ∧
    ((accepted hs).map Prod.snd).Perm ((arrived hs).map Prod.snd ++ pending) ∧
    (∀ x ∈ hs, ∀ m, x.input = .inl (.messageDelivered m) → x.sends =
      (x.before.messageHandlers.lookup m.destination).toList.map fun handler => ⟨.zero, handler, .messageDelivered m⟩) ∧
    hs.Pairwise fun x y => ∀ i ∈ Done.seen x, ∀ j ∈ Done.assigned y, i < j := by
  intro stats hs pending
  have hledger := run_arrivals hforeign hself hrun
  have hpending : (deliveries (h.session.mail self)).map Prod.snd = pending := by
    show _ = (h.session.inbox self).filterMap TransportEvent.delivery?
    rw [← Session.map_snd_mail, deliveries, List.map_filterMap, List.filterMap_map]
    refine List.filterMap_congr fun x _ => ?_
    cases hx : x.2.delivery? <;> simp [hx]
  have hperm : ((accepted hs).map Prod.snd).Perm ((arrived hs).map Prod.snd ++ pending) := by
    rw [← hpending, ← List.map_append]
    exact hledger.map Prod.snd
  have hbooks := Hosted.run_rule (P := fun t (_ : List TransportEvent) (hs : List (Done ν χ)) =>
    t.Accounted hs ∧ t.Numbered hs)
    (I := fun _ => True) (A := fun m => m ≠ .resetStats) (fun _ _ _ _ _ h => h) (fun _ _ _ _ _ h => h)
    (fun t l hs e now t' sends hp _ h => ⟨(moved hp).accounted h.1, (moved hp).numbered h.2⟩)
    (fun t l hs m now t' sends hm hp _ h => ⟨(called hp).accounted hm h.1, (called hp).numbered h.2⟩)
    (fun _ _ _ => trivial) (fun m hm he => hreset (he ▸ hm)) (Session.wf_fresh seed)
    ⟨⟨rfl, rfl, rfl, rfl, rfl⟩, nofun, List.Pairwise.nil⟩ hrun
  have hcounted : Counted stats ((accepted hs).map Prod.snd) (lost hs) ((arrived hs).map Prod.snd) := hbooks.1
  refine ⟨?_, ?_, hcounted.dropped, hperm, fun x hx m hm => ?_, hbooks.2.assigned⟩
  · have hlen := hperm.length_eq
    rw [List.length_append] at hlen
    rw [hcounted.sent, hcounted.delivered, hcounted.dropped, hlen]
    omega
  · have hbytes : bytes ((accepted hs).map Prod.snd) = bytes ((arrived hs).map Prod.snd) + bytes pending := by
      rw [bytes, (hperm.map _).sum_nat, List.map_append, List.sum_append]
      rfl
    rw [hcounted.bytesSent, hcounted.bytesDelivered, hbytes]
    omega
  · have hperformed := Hosted.run_performed (Session.wf_fresh seed) hrun x hx
    rw [hm] at hperformed
    refine (Prod.ext_iff.mp (Option.some.inj hperformed)).2.symm.trans ?_
    simp only [handleMessageDelivered]
    cases x.before.messageHandlers.lookup m.destination <;> rfl

end

/-- The floating-point number `0.0`, with which nothing is lost and nothing is drawn. -/
structure ZeroFloat where

instance : NetworkRng ZeroFloat Unit where
  hasJitter _ := false
  sampleMillis rng baseMillis _ := (baseMillis, rng)
  bandwidthDelay bytes bandwidthBps := bytes * 1000000000 / bandwidthBps
  lost rng _ := (false, rng)
  fromEntropy rng := rng

/-- A network model without methods of its own. -/
def unconfigured (model : SimpleNetworkModel ZeroFloat Unit) (_ : Empty) : SimpleNetworkModel ZeroFloat Unit := model

/-- A message to an endpoint that has the given handler. -/
def oneMessage (handler : Uuid) : List (Hosted.Op TransportEvent Unit Unit FifoFrontierPolicy (Method Empty)) :=
  [.call (.registerHandler ⟨2⟩ handler), .call (.sendMessage ⟨1⟩ ⟨2⟩ [1, 2, 3] .unaryRequest 7), .other .pop, .other .pop]

/-- A transport that is a handler of its own delivers the message to itself again. -/
theorem not_accounted_oneMessage :
    ∃ (h : Hosted (SimTransport (SimpleNetworkModel ZeroFloat Unit)) TransportEvent Unit Unit) (answers : _),
    Machine.run (Hosted.step (code unconfigured) 7) ⟨.new ⟨5, ⟨⟩, ()⟩, .fresh 0⟩ (oneMessage 7) = some (h, answers) ∧
    ¬h.component.stats.messagesSent = h.component.stats.messagesDelivered + h.component.stats.messagesDropped +
      ((h.session.inbox 7).filterMap TransportEvent.delivery?).length :=
  ⟨_, _, rfl, by decide⟩

theorem run_ledger_oneMessage :
    ∃ (h : Hosted (SimTransport (SimpleNetworkModel ZeroFloat Unit)) TransportEvent Unit Unit) (answers : _),
    Machine.run (Hosted.step (code unconfigured) 7) ⟨.new ⟨5, ⟨⟩, ()⟩, .fresh 0⟩ (oneMessage 8) = some (h, answers) ∧
    (h.component.stats.messagesSent, h.component.stats.messagesDelivered, (h.session.inbox 8).length) = (1, 1, 1) ∧
    h.component.stats.messagesSent = h.component.stats.messagesDelivered + h.component.stats.messagesDropped +
      ((h.session.inbox 7).filterMap TransportEvent.delivery?).length := by
  have hforeign : ∀ delay m, .other (.schedule delay 7 (.messageDelivered m)) ∉ oneMessage 8 := by
    simp [oneMessage]
  have hself : ∀ endpoint, .call (.registerHandler endpoint 7) ∉ oneMessage 8 := by simp [oneMessage]
  have hreset : .call .resetStats ∉ oneMessage 8 := by simp [oneMessage]
  have hrun := (rfl : Machine.run (Hosted.step (code unconfigured) 7) ⟨.new ⟨5, ⟨⟩, ()⟩, .fresh 0⟩
    (oneMessage 8) = some (_, _))
  exact ⟨_, _, hrun, rfl, (run_ledger hforeign hself hreset hrun).1⟩

end SimTransport

end DesCartes.Transport
