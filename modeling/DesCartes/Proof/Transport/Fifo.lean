import DesCartes.Proof.Scheduler.Line
import DesCartes.Proof.Transport.Latency

/-!
# The order of the messages of a link

A message that is not dropped takes two events, its delivery to the transport and then to the
handler of its destination. For each of the two the events of a link are a `Line` (`InOrder`):
whatever the latencies, a delivery is due no earlier than the one before it.

* `InOrder.other`, `InOrder.process`, `InOrder.call`: what each step keeps;
* `run_fifo`: any run.
-/

namespace DesCartes.Transport

/-- The message of a link that an entry delivers to the component with the key. -/
def onLink (link : Link) (key : Uuid) (e : EventEntry TransportEvent) : Option TransportMessage :=
  (e.eventFor key).bind fun event => event.delivery?.filter fun m => m.link = link

/-- The messages of a link that have not been dropped, in the order in which the transport has
processed their sends. -/
def acceptedOn {ν χ : Type} (link : Link) (hs : List (Done ν χ)) : List TransportMessage :=
  ((accepted hs).map Prod.snd).filter fun m => m.link = link

/-- The message that has been delivered to the transport. -/
def Done.arrival? {ν χ : Type} (h : Done ν χ) : Option TransportMessage :=
  match h.input with
  | .inl event => event.delivery?
  | .inr _ => none

/-- The messages of a link that have been handed to a component. -/
def handed {ν χ : Type} (link : Link) (key : Uuid) (answers : List (Hosted.Answer (SimTransport ν) TransportEvent (Method χ))) :
    List TransportMessage :=
  answers.filterMap fun answer => (answer.other.bind Answer.popped?).bind (onLink link key)

section

variable {ν χ : Type} {link : Link} {key key' : Uuid}

theorem onLink_task (e : EventEntry TransportEvent) (he : e.taskId ≠ none) : onLink link key e = none := by
  cases e with
  | component => exact absurd rfl he
  | task => rfl

theorem onLink_component (i : Nat) (t : SimTime) (target : Uuid) (event : TransportEvent) :
    onLink link key (.component i t target event) =
      if target = key then event.delivery?.filter fun m => m.link = link else none := by
  rw [onLink, EventEntry.eventFor]
  split <;> rfl

theorem onLink_eq_some {e : EventEntry TransportEvent} {m : TransportMessage}
    (h : onLink link key e = some m) :
    e.eventFor key = some (.messageDelivered m) ∧ m.link = link := by
  obtain ⟨event, hevent, hm⟩ := Option.bind_eq_some_iff.mp h
  cases event with
  | messageDelivered m' =>
    simp only [TransportEvent.delivery?, Option.filter_some, Option.ite_none_right_eq_some,
      decide_eq_true_eq, Option.some.injEq] at hm
    obtain ⟨hlink, rfl⟩ := hm
    exact ⟨hevent, hlink⟩
  | _ => cases hm

theorem onLink_ne (hne : key' ≠ key) {e : EventEntry TransportEvent} {event : TransportEvent}
    (he : e.eventFor key = some event) :
    onLink link key' e = none := by
  cases e with
  | task => rfl
  | component i t target v =>
    simp only [EventEntry.eventFor, Option.ite_none_right_eq_some] at he
    rw [onLink_component, if_neg]
    rintro rfl
    exact hne he.1

theorem acceptedOn_append (hs : List (Done ν χ)) (h : Done ν χ) : acceptedOn link (hs ++ [h]) =
    acceptedOn link hs ++ h.transmitted.filterMap fun send => send.event.delivery?.filter fun m =>
      m.link = link := by
  rw [acceptedOn, accepted_append, List.map_append, List.filter_append, List.map_filterMap,
    List.filter_filterMap]
  refine congrArg _ (List.filterMap_congr fun send _ => ?_)
  cases send.event.delivery? with
  | none => rfl
  | some m => simp [Option.filter]

theorem handed_append (answers : List (Hosted.Answer (SimTransport ν) TransportEvent (Method χ)))
    (answer : _) :
    handed link key (answers ++ [answer]) =
      handed link key answers ++ ((answer.other.bind Answer.popped?).bind (onLink link key)).toList := by
  rw [handed, List.filterMap_append, List.filterMap_cons]
  cases (answer.other.bind Answer.popped?).bind (onLink link key) <;> rfl

end

namespace SimTransport

variable {α γ τ ρ : Type} {link : Link} {self handler : Uuid} {E : Prop}
  {first second : List (EventEntry TransportEvent)}

/-- The events of a link: `first` are those for the transport, `second` those for the handler. -/
structure Hops (link : Link) (key handler : Uuid) (E : Prop) (free : Nat) (r : Session TransportEvent τ ρ)
    (first second : List (EventEntry TransportEvent)) : Prop where
  reached : r.Reached
  toTransport : Line (onLink link key) E r first
  transportDue : ∀ e ∈ first, e.time ≤ r.scheduler.clock + .fromDuration free
  toHandler : Line (onLink link handler) E r second
  handlerDue : ∀ e ∈ second, e.time ≤ r.scheduler.clock
  direct : handler = key → second = []
  apart : E → handler ≠ key

namespace Hops

variable {free total : Nat} {r r' : Session TransportEvent τ ρ} {op : Op TransportEvent τ ρ FifoFrontierPolicy}
  {o : Answer TransportEvent} {e : EventEntry TransportEvent} {sends : List (Send TransportEvent)} {m : TransportMessage}

/-- An event for the transport is not one for another component. -/
theorem not_mem_second (h : Hops link self handler E free r first second) {event : TransportEvent}
    (he : e.eventFor self = some event) : e ∉ second := by
  by_cases hself : handler = self
  · rw [h.direct hself]
    exact List.not_mem_nil
  · exact h.toHandler.not_mem (onLink_ne hself he)

/-- Nothing of the link is popped. -/
theorem keep (h : Hops link self handler E free r first second) (hs : r.step op = some (r', o))
    (hfirst : ∀ e, o.popped? = some e → e ∉ first) (hsecond : ∀ e, o.popped? = some e → e ∉ second)
    (hscheduled : E → ∀ e, o.scheduled? = some e → onLink link self e = none ∧ onLink link handler e = none) :
    Hops link self handler E free r' first second := by
  have hle := (h.reached.wf.stepped hs).le
  refine ⟨h.reached.step op hs, ?_, fun e he => (h.transportDue e he).trans
    (SimTime.add_le_add hle le_rfl), ?_,
    fun e he => (h.handlerDue e he).trans hle, h.direct, h.apart⟩
  · exact h.toTransport.keep onLink_task (Session.effect hs) hfirst fun hE e he => (hscheduled hE e he).1
  · exact h.toHandler.keep onLink_task (Session.effect hs) hsecond fun hE e he => (hscheduled hE e he).2

/-- The transport gets an event of the link: it is the first. -/
theorem popFirst (h : Hops link self handler E free r first second) (hs : r.step op = some (r', o))
    (ho : o.popped? = some e) (he : e ∈ first) {event : TransportEvent}
    (hevent : e.eventFor self = some event) :
    ∃ first', first = e :: first' ∧ Hops link self handler E free r' first' second := by
  have hle := (h.reached.wf.stepped hs).le
  obtain ⟨first', rfl, hline⟩ := h.toTransport.pop onLink_task h.reached hs ho he
  refine ⟨first', rfl, h.reached.step op hs, hline, fun e he => ?_, ?_,
    fun e he => (h.handlerDue e he).trans hle,
    h.direct, h.apart⟩
  · exact (h.transportDue e (List.mem_cons_of_mem _ he)).trans (SimTime.add_le_add hle le_rfl)
  · refine h.toHandler.keep onLink_task (Session.effect hs) (fun e' ho' => ?_) fun _ e' ho' => ?_
    · rw [← Option.some.inj (ho.symm.trans ho')]
      exact h.not_mem_second hevent
    · rw [Session.scheduled_of_popped ho] at ho'
      cases ho'

/-- The handler gets an event of the link: it is the first. -/
theorem popSecond (h : Hops link self handler E free r first second) (hs : r.step op = some (r', o))
    (ho : o.popped? = some e) (he : e ∈ second) (hother : e.eventFor self = none) :
    ∃ second', second = e :: second' ∧ Hops link self handler E free r' first second' := by
  have hle := (h.reached.wf.stepped hs).le
  obtain ⟨second', rfl, hline⟩ := h.toHandler.pop onLink_task h.reached hs ho he
  refine ⟨second', rfl, h.reached.step op hs, ?_, fun e he => (h.transportDue e he).trans
    (SimTime.add_le_add hle le_rfl), hline,
    fun e he => (h.handlerDue e (List.mem_cons_of_mem _ he)).trans hle,
    fun hself => (nomatch h.direct hself), h.apart⟩
  refine h.toTransport.keep onLink_task (Session.effect hs) (fun e' ho' => ?_) fun _ e' ho' => ?_
  · rw [← Option.some.inj (ho.symm.trans ho')]
    exact h.toTransport.not_mem (by rw [onLink, hother, Option.bind_none])
  · rw [Session.scheduled_of_popped ho] at ho'
    cases ho'

/-- The transport schedules events of other kinds. -/
theorem sendAll (h : Hops link self handler E free r first second) (hsend : r.sendAll sends = some r')
    (hquiet : E → ∀ send ∈ sends, send.event.delivery?.filter (fun m => m.link = link) = none) :
    Hops link self handler E free r' first second := by
  have hclock := Session.clock_sendAll hsend
  refine ⟨h.reached.sendAll hsend, ?_, ?_, ?_, ?_, h.direct, h.apart⟩
  · refine h.toTransport.sendAll onLink_task hsend fun hE send hmem i t => ?_
    rw [onLink_component, hquiet hE send hmem, ite_self]
  · rw [hclock]
    exact h.transportDue
  · refine h.toHandler.sendAll onLink_task hsend fun hE send hmem i t => ?_
    rw [onLink_component, hquiet hE send hmem, ite_self]
  · rw [hclock]
    exact h.handlerDue

/-- The transport schedules a delivery to itself that is due no earlier than the others. -/
theorem pushFirst (h : Hops link self handler E free r first second)
    (hsend : r.sendAll [⟨.fromDuration total, self, .messageDelivered m⟩] = some r')
    (hlink : m.link = link) (hle : free ≤ total) :
    ∃ e, onLink link self e = some m ∧ Hops link self handler E total r' (first ++ [e]) second := by
  have hclock := Session.clock_sendAll hsend
  obtain ⟨r₁, hs, hnil⟩ := Session.step_of_sendAll (φ := FifoFrontierPolicy) hsend
  cases hnil
  have hm :
      onLink link self (r.scheduler.scheduledEvent (.fromDuration total) self (.messageDelivered m)) =
        some m := by
    rw [Scheduler.scheduledEvent, onLink_component, if_pos rfl, ← hlink]
    simp [TransportEvent.delivery?]
  have hdue : ∀ e ∈ first, e.time ≤ r.scheduler.clock + .fromDuration total :=
    fun e he => (h.transportDue e he).trans (SimTime.add_le_add le_rfl (SimTime.fromDuration_mono hle))
  refine ⟨_, hm, h.reached.step _ hs, ?_, ?_, ?_, ?_, h.direct, h.apart⟩
  · exact h.toTransport.push onLink_task h.reached (Session.effect hs) rfl
      (by rw [hm]; exact Option.some_ne_none m) hdue
  · rw [hclock]
    exact List.forall_mem_append.mpr ⟨hdue, List.forall_mem_singleton.mpr le_rfl⟩
  · refine h.toHandler.keep onLink_task (Session.effect hs) (by simp [Answer.popped?]) fun hE e he => ?_
    rw [← Option.some.inj he]
    exact onLink_ne (h.apart hE) (if_pos rfl)
  · rw [hclock]
    exact h.handlerDue

/-- The transport hands a message over. -/
theorem pushSecond (h : Hops link self handler E free r first second)
    (hsend : r.sendAll [⟨.zero, handler, .messageDelivered m⟩] = some r') (hlink : m.link = link)
    (hne : handler ≠ self) :
    ∃ e, onLink link handler e = some m ∧ Hops link self handler E free r' first (second ++ [e]) := by
  have hclock := Session.clock_sendAll hsend
  obtain ⟨r₁, hs, hnil⟩ := Session.step_of_sendAll (φ := FifoFrontierPolicy) hsend
  cases hnil
  have hm : onLink link handler (r.scheduler.scheduledEvent .zero handler (.messageDelivered m)) =
      some m := by
    rw [Scheduler.scheduledEvent, onLink_component, if_pos rfl, ← hlink]
    simp [TransportEvent.delivery?]
  have htime : (r.scheduler.scheduledEvent .zero handler (TransportEvent.messageDelivered m)).time =
      r.scheduler.clock :=
    SimTime.add_zero _
  refine ⟨_, hm, h.reached.step _ hs, ?_, ?_, ?_, ?_, fun hself => absurd hself hne, h.apart⟩
  · refine h.toTransport.keep onLink_task (Session.effect hs) (by simp [Answer.popped?]) fun hE e he => ?_
    rw [← Option.some.inj he]
    exact onLink_ne hne.symm (if_pos rfl)
  · rw [hclock]
    exact h.transportDue
  · refine h.toHandler.push onLink_task h.reached (Session.effect hs) rfl
      (by rw [hm]; exact Option.some_ne_none m) ?_
    rw [htime]
    exact h.handlerDue
  · rw [hclock]
    exact List.forall_mem_append.mpr ⟨h.handlerDue, List.forall_mem_singleton.mpr htime.le⟩

end Hops

/-- The messages of a link are handed over in order: `own` have been, the others are in the two
lines. Where `E` holds, no other messages of the link have been. -/
structure InOrder (link : Link) (key handler : Uuid) (E : Prop) (free : Nat) (r : Session TransportEvent τ ρ)
    (accepted handed own : List TransportMessage) (first second : List (EventEntry TransportEvent)) : Prop where
  hops : Hops link key handler E free r first second
  order : accepted = own ++ second.filterMap (onLink link handler) ++ first.filterMap (onLink link key)
  sublist : own.Sublist handed
  exact : E → own = handed

/-- `InOrder`, for some lines. -/
def Ordered (link : Link) (key handler : Uuid) (E : Prop) (free : Nat) (r : Session TransportEvent τ ρ)
    (accepted handed : List TransportMessage) : Prop :=
  ∃ own first second, InOrder link key handler E free r accepted handed own first second

namespace Ordered

variable {free total : Nat} {r r' : Session TransportEvent τ ρ} {op : Op TransportEvent τ ρ FifoFrontierPolicy}
  {o : Answer TransportEvent} {e : EventEntry TransportEvent} {sends : List (Send TransportEvent)} {m : TransportMessage}
  {accepted handed : List TransportMessage}

/-- Other code does something that leads to no event for the transport. -/
theorem other (h : Ordered link self handler E free r accepted handed) (hs : r.step op = some (r', o))
    (hother : ∀ e, o.popped? = some e → e.eventFor self = none)
    (hscheduled : E → ∀ e, o.scheduled? = some e → onLink link self e = none ∧ onLink link handler e = none) :
    Ordered link self handler E free r' accepted (handed ++
      (o.popped?.bind (onLink link handler)).toList) := by
  obtain ⟨own, first, second, hops, order, sublist, exact⟩ := h
  have hfirst : ∀ e, o.popped? = some e → e ∉ first :=
    fun e he => hops.toTransport.not_mem (by rw [onLink, hother e he, Option.bind_none])
  cases hhanded : o.popped?.bind (onLink link handler) with
  | none =>
    have hsecond : ∀ e, o.popped? = some e → e ∉ second := by
      intro e he
      rw [he, Option.bind_some] at hhanded
      exact hops.toHandler.not_mem hhanded
    rw [Option.toList_none, List.append_nil]
    exact ⟨own, first, second, hops.keep hs hfirst hsecond hscheduled, order, sublist, exact⟩
  | some m =>
    obtain ⟨e, he, hm⟩ := Option.bind_eq_some_iff.mp hhanded
    by_cases hmem : e ∈ second
    · obtain ⟨second', rfl, hops'⟩ := hops.popSecond hs he hmem (hother e he)
      refine ⟨own ++ [m], first, second', hops', ?_, sublist.append_right [m], fun hE => ?_⟩
      · rw [order, List.filterMap_cons, hm]
        simp only [List.append_assoc, List.cons_append, List.nil_append]
      · rw [exact hE]
        rfl
    · have hsecond : ∀ e', o.popped? = some e' → e' ∉ second :=
        fun e' he' => (Option.some.inj (he.symm.trans he')) ▸ hmem
      refine ⟨own, first, second, hops.keep hs hfirst hsecond hscheduled, order,
        List.sublist_append_of_sublist_left sublist,
        fun hE => ?_⟩
      refine absurd (hops.toHandler.complete hE e ((Session.effect hs).mem_popped he) ?_) hmem
      rw [hm]
      exact Option.some_ne_none m

/-- The transport gets an event that delivers no message of the link. -/
theorem take (h : Ordered link self handler E free r accepted handed)
    (hs : r.step op = some (r', o)) (ho : o.popped? = some e) {event : TransportEvent}
    (hevent : e.eventFor self = some event)
    (hother : event.delivery?.filter (fun m => m.link = link) = none) :
    Ordered link self handler E free r' accepted (handed ++
      (o.popped?.bind (onLink link handler)).toList) := by
  obtain ⟨own, first, second, hops, order, sublist, exact⟩ := h
  have hnone : onLink link self e = none := by rw [onLink, hevent, Option.bind_some, hother]
  have hhanded : o.popped?.bind (onLink link handler) = none := by
    rw [ho, Option.bind_some]
    by_cases hself : handler = self
    · rw [hself, hnone]
    · exact onLink_ne hself hevent
  rw [hhanded, Option.toList_none, List.append_nil]
  refine ⟨own, first, second, hops.keep hs (fun e' ho' => ?_) (fun e' ho' => ?_) fun _ e' ho' => ?_,
    order, sublist, exact⟩
  · rw [← Option.some.inj (ho.symm.trans ho')]
    exact hops.toTransport.not_mem hnone
  · rw [← Option.some.inj (ho.symm.trans ho')]
    exact hops.not_mem_second hevent
  · rw [Session.scheduled_of_popped ho] at ho'
    cases ho'

/-- The transport schedules events of other kinds. -/
theorem sendAll (h : Ordered link self handler E free r accepted handed) (hsend : r.sendAll sends = some r')
    (hquiet : E → ∀ send ∈ sends, send.event.delivery?.filter (fun m => m.link = link) = none) :
    Ordered link self handler E free r' accepted handed := by
  obtain ⟨own, first, second, hops, order, sublist, exact⟩ := h
  exact ⟨own, first, second, hops.sendAll hsend hquiet, order, sublist, exact⟩

/-- The transport accepts a message of the link. -/
theorem accept (h : Ordered link self handler E free r accepted handed)
    (hsend : r.sendAll [⟨.fromDuration total, self, .messageDelivered m⟩] = some r')
    (hlink : m.link = link) (hle : free ≤ total) :
    Ordered link self handler E total r' (accepted ++ [m]) handed := by
  obtain ⟨own, first, second, hops, order, sublist, exact⟩ := h
  obtain ⟨e, hm, hops'⟩ := hops.pushFirst hsend hlink hle
  refine ⟨own, first ++ [e], second, hops', ?_, sublist, exact⟩
  rw [order, List.filterMap_append, List.filterMap_cons, hm, List.filterMap_nil, ← List.append_assoc]

/-- The transport hands a message of the link over. -/
theorem deliver {r₁ : Session TransportEvent τ ρ}
    (h : Ordered link self handler E free r accepted handed) (hs : r.step op = some (r₁, o))
    (ho : o.popped? = some e) (hevent : e.eventFor self = some (.messageDelivered m))
    (hlink : m.link = link) (hsend : r₁.sendAll [⟨.zero, handler, .messageDelivered m⟩] = some r') :
    Ordered link self handler E free r' accepted (handed ++
      (o.popped?.bind (onLink link handler)).toList) := by
  obtain ⟨own, first, second, hops, order, sublist, exact⟩ := h
  have hm : onLink link self e = some m := by
    rw [onLink, hevent, Option.bind_some, ← hlink]
    simp [TransportEvent.delivery?]
  rw [ho, Option.bind_some]
  by_cases hmem : e ∈ first
  · obtain ⟨first', rfl, hops'⟩ := hops.popFirst hs ho hmem hevent
    rw [List.filterMap_cons, hm] at order
    by_cases hself : handler = self
    · obtain rfl := hops.direct hself
      rw [show onLink link handler e = some m by rw [hself, hm]]
      refine ⟨own ++ [m], first', [], hops'.sendAll hsend fun hE => absurd hself (hops.apart hE), ?_,
        sublist.append_right [m],
        fun hE => absurd hself (hops.apart hE)⟩
      rw [order]
      simp only [List.filterMap_nil, List.append_nil, List.append_assoc, List.cons_append, List.nil_append]
    · obtain ⟨e', hm', hops'⟩ := hops'.pushSecond hsend hlink hself
      rw [onLink_ne hself hevent, Option.toList_none, List.append_nil]
      refine ⟨own, first', second ++ [e'], hops', ?_, sublist, exact⟩
      rw [order, List.filterMap_append, List.filterMap_cons, hm', List.filterMap_nil]
      simp only [List.append_assoc, List.cons_append, List.nil_append]
  · have hE : ¬E := by
      refine fun hE => hmem (hops.toTransport.complete hE e ((Session.effect hs).mem_popped ho) ?_)
      rw [hm]
      exact Option.some_ne_none m
    have hops' : Hops link self handler E free r₁ first second := by
      refine hops.keep hs (fun e' ho' => ?_) (fun e' ho' => ?_) fun hE' => absurd hE' hE
      · rw [← Option.some.inj (ho.symm.trans ho')]
        exact hmem
      · rw [← Option.some.inj (ho.symm.trans ho')]
        exact hops.not_mem_second hevent
    exact ⟨own, first, second, hops'.sendAll hsend fun hE' => absurd hE' hE, order,
      List.sublist_append_of_sublist_left sublist,
      fun hE' => absurd hE' hE⟩

end Ordered

/-! ## Runs -/

/-- The answers of a run of a transport whose model can be configured. -/
abbrev Answers (α γ : Type) :=
  List (Hosted.Answer (SimTransport (LatencyJitterModel α γ)) TransportEvent (Method (Link × LatencyConfig α)))

variable [NetworkRng α γ] {h h' : Hosted (SimTransport (LatencyJitterModel α γ)) TransportEvent τ ρ}
  {answers : Answers α γ}
  {answer : Hosted.Answer (SimTransport (LatencyJitterModel α γ)) TransportEvent (Method (Link × LatencyConfig α))}
  {op : Hosted.Op TransportEvent τ ρ FifoFrontierPolicy (Method (Link × LatencyConfig α))}
  {t t' : SimTransport (LatencyJitterModel α γ)} {now : SimTime}

/-- The handler of the link's destination is registered when a message of the link is delivered. -/
def Registered (link : Link) (handler : Uuid) (hs : List (Done (LatencyJitterModel α γ) (Link × LatencyConfig α))) : Prop :=
  ∀ x ∈ hs, ∀ m ∈ x.arrival?, m.link = link → x.before.messageHandlers.lookup m.destination = some handler

instance (link : Link) (handler : Uuid) (hs : List (Done (LatencyJitterModel α γ) (Link × LatencyConfig α))) :
    Decidable (Registered link handler hs) :=
  inferInstanceAs (Decidable (∀ x ∈ hs, ∀ m ∈ x.arrival?, m.link = link →
    x.before.messageHandlers.lookup m.destination = some handler))

/-- No method of the owner moves the time at which the link is free. -/
theorem free_call {method : Method (Link × LatencyConfig α)} {sends : List (Send TransportEvent)}
    (hcall : (code LatencyJitterModel.setLatency).call t self method now = some (t', sends)) (link : Link) :
    t'.networkModel.free link = t.networkModel.free link := by
  rcases called_networkModel hcall with hsame | hreset | ⟨change, -, hconfigured⟩
  · rw [hsame]
  · rw [hreset]
    rfl
  · rw [hconfigured]
    rfl

/-- Every event that the transport processes keeps the order. -/
theorem Moved.ordered {op : Op TransportEvent τ ρ FifoFrontierPolicy} {o : Answer TransportEvent}
    {e : EventEntry TransportEvent} {r r₁ r' : Session TransportEvent τ ρ} {event : TransportEvent}
    {sends : List (Send TransportEvent)}
    {hs : List (Done (LatencyJitterModel α γ) (Link × LatencyConfig α))}
    {handed : List TransportMessage} (hm : t.Moved self now event t' sends)
    (h : Ordered link self handler E (t.networkModel.free link) r (acceptedOn link hs) handed)
    (hstep : r.step op = some (r₁, o)) (ho : o.popped? = some e)
    (hevent : e.eventFor self = some event) (hsend : r₁.sendAll sends = some r')
    (hregistered : ∀ m, event = .messageDelivered m → m.link = link →
      t.messageHandlers.lookup m.destination = some handler) :
    Ordered link self handler E (t'.networkModel.free link) r'
      (acceptedOn link (hs ++ [⟨t, .inl event, now, t', sends⟩]))
      (handed ++ (o.popped?.bind (onLink link handler)).toList) := by
  cases hm with
  | @lose message m next networkModel hentered hdrop =>
    have hsame := LatencyJitterModel.same_shouldDropMessage hdrop
    have haccepted : acceptedOn link (hs ++ [⟨t, .inl (.sendMessage message), now, { t with
        networkModel, nextMessageId := next
        stats := { t.sentStats m with messagesDropped := t.stats.messagesDropped + 1 } },
        [⟨.zero, self, .messageDropped m "Network packet loss".toList⟩]⟩]) = acceptedOn link hs := by
      rw [acceptedOn_append]
      exact List.append_nil _
    rw [haccepted, show LatencyJitterModel.free networkModel link =
      t.networkModel.free link from hsame.free link]
    exact (h.take hstep ho hevent rfl).sendAll hsend fun _ => List.forall_mem_singleton.mpr rfl
  | @accept message m next latency networkModel networkModel' hentered hdrop hlatency =>
    have hsame := LatencyJitterModel.same_shouldDropMessage hdrop
    have hcalc := LatencyJitterModel.calculated hlatency
    have hfree : networkModel'.free link = if link = m.link then latency else networkModel.free link :=
      networkModel.free_insert hcalc.queueTimes
    rw [acceptedOn_append]
    by_cases hlink : m.link = link
    · have hle : t.networkModel.free link ≤ latency := by
        rw [← hsame.free, ← hlink]
        exact (le_max_left ..).trans hcalc.le_total
      rw [show networkModel'.free link = latency from hfree.trans (if_pos hlink.symm)]
      have hm : (TransportEvent.messageDelivered m).delivery?.filter (fun m => m.link = link) = some m := by
        simp [TransportEvent.delivery?, hlink]
      simp only [Done.transmitted, List.filterMap_cons, hm, List.filterMap_nil]
      exact (h.take hstep ho hevent rfl).accept hsend hlink hle
    · rw [show networkModel'.free link = t.networkModel.free link from
        (hfree.trans (if_neg (Ne.symm hlink))).trans (hsame.free link)]
      have hm : (TransportEvent.messageDelivered m).delivery?.filter (fun m => m.link = link) = none := by
        simp [TransportEvent.delivery?, hlink]
      simp only [Done.transmitted, List.filterMap_cons, hm, List.filterMap_nil, List.append_nil]
      exact (h.take hstep ho hevent rfl).sendAll hsend fun _ => List.forall_mem_singleton.mpr hm
  | deliver message =>
    have haccepted :
        acceptedOn link (hs ++ [⟨t, .inl (.messageDelivered message), now,
          (t.handleMessageDelivered message).1,
        (t.handleMessageDelivered message).2⟩]) = acceptedOn link hs := by
      rw [acceptedOn_append]
      exact List.append_nil _
    rw [haccepted]
    by_cases hlink : message.link = link
    · have hlookup := hregistered message rfl hlink
      have hsends : (t.handleMessageDelivered message).2 = [⟨.zero, handler, .messageDelivered message⟩] := by
        simp only [handleMessageDelivered, hlookup]
      rw [hsends] at hsend
      exact h.deliver hstep ho hevent hlink hsend
    · have hm : (TransportEvent.messageDelivered message).delivery?.filter
          (fun m => m.link = link) = none := by
        simp [TransportEvent.delivery?, hlink]
      refine (h.take hstep ho hevent hm).sendAll hsend fun _ send hmem => ?_
      simp only [handleMessageDelivered] at hmem
      split at hmem
      · rw [List.mem_singleton.mp hmem]
        exact hm
      · cases hmem
  | ignore message reason =>
    have haccepted : acceptedOn link (hs ++ [⟨t, .inl (.messageDropped message reason), now, t, []⟩]) =
        acceptedOn link hs := by
      rw [acceptedOn_append]
      exact List.append_nil _
    rw [haccepted]
    exact (h.take hstep ho hevent rfl).sendAll hsend fun _ => List.forall_mem_nil _

/-- Where the handler has been registered, the messages of the link have been handed over in order. -/
def InOrderAfter (link : Link) (self handler : Uuid) (E : Prop)
    (h : Hosted (SimTransport (LatencyJitterModel α γ)) TransportEvent τ ρ) (os : Answers α γ) : Prop :=
  Registered link handler (Hosted.history os) → Ordered link self handler E (h.component.networkModel.free link) h.session
    (acceptedOn link (Hosted.history os)) (handed link handler os)

/-- Every operation keeps the order. -/
theorem InOrderAfter.step {os : Answers α γ} (hinv : InOrderAfter link self handler E h os)
    (hforeign : E → ∀ delay key m, op = .other (.schedule delay key (.messageDelivered m)) → m.link = link →
      key ≠ self ∧ key ≠ handler)
    (hs : Hosted.step (code LatencyJitterModel.setLatency) self h op = some (h', answer)) :
    InOrderAfter link self handler E h' (os ++ [answer]) := by
  intro hregistered
  have hhistory : Hosted.history (os ++ [answer]) = Hosted.history os ++ answer.own.toList := by
    rw [Hosted.history, List.filterMap_append, List.filterMap_cons]
    cases answer.own <;> rfl
  rw [hhistory] at hregistered ⊢
  rw [handed_append]
  have hordered := hinv fun x hx => hregistered x (List.mem_append_left _ hx)
  rcases Hosted.step_cases hs with ⟨op', o, rfl, rfl, hstep, hd, hc⟩ |
    ⟨op', o, session, event, component, sends, rfl, hstep, hd, hproc, rfl, rfl, hsend⟩ |
    ⟨method, component, sends, rfl, hcall, rfl, rfl, hsend⟩
  · have hother : ∀ e, o.popped? = some e → e.eventFor self = none := by
      intro e he
      rwa [Hosted.delivered, he, Option.bind_some] at hd
    have hquiet : ∀ key, E → key = self ∨ key = handler → ∀ e,
        o.scheduled? = some e → onLink link key e = none := by
      intro key hE hkey e he
      by_contra hne
      obtain ⟨m, hm⟩ := Option.ne_none_iff_exists'.mp hne
      obtain ⟨hevent, hlink⟩ := onLink_eq_some hm
      obtain ⟨delay, rfl⟩ := (Session.effect hstep).sender e he key _ hevent
      obtain ⟨h₁, h₂⟩ := hforeign hE delay key m rfl hlink
      exact hkey.elim h₁ h₂
    rw [hc, Option.toList_none, List.append_nil]
    exact hordered.other hstep hother fun hE e he =>
      ⟨hquiet self hE (.inl rfl) e he, hquiet handler hE (.inr rfl) e he⟩
  · obtain ⟨e, he, hevent⟩ := Option.bind_eq_some_iff.mp hd
    refine (moved hproc).ordered hordered hstep he hevent hsend fun m hm hlink => ?_
    exact hregistered _ (List.mem_append_right _ List.mem_cons_self) m (by rw [hm]; rfl) hlink
  · have hquiet := (called hcall).quiet
    have haccepted :
        acceptedOn link (Hosted.history os ++
          [⟨h.component, .inr method, h.session.scheduler.clock, h'.component,
        sends⟩]) = acceptedOn link (Hosted.history os) := by
      rw [acceptedOn_append]
      exact List.append_nil _
    rw [Option.toList_some, haccepted, free_call hcall]
    show Ordered link self handler E _ _ _ (handed link handler os ++ [])
    rw [List.append_nil]
    refine hordered.sendAll hsend fun _ send hmem => ?_
    rw [hquiet send hmem]
    rfl

section

variable {model : LatencyJitterModel α γ} {seed : BitVec 64}
  {ops : List (Hosted.Op TransportEvent τ ρ FifoFrontierPolicy (Method (Link × LatencyConfig α)))}

theorem run_ordered (hself : E → handler ≠ self)
    (hforeign : E → ∀ delay key m, .other (.schedule delay key (.messageDelivered m)) ∈ ops →
      m.link = link → key ≠ self ∧ key ≠ handler)
    (hrun : Machine.run (Hosted.step (code LatencyJitterModel.setLatency) self) ⟨.new model,
      .fresh seed⟩ ops = some (h, answers)) :
    InOrderAfter link self handler E h answers := by
  have hC : Machine.Along (fun _ op => op ∈ ops) (Hosted.step (code LatencyJitterModel.setLatency) self)
      (⟨.new model, .fresh seed⟩ : Hosted (SimTransport (LatencyJitterModel α γ)) TransportEvent τ ρ) ops :=
    Machine.along_of_forall (C := fun op => op ∈ ops) fun _ hop => hop
  have hhops : Hops link self handler E (model.free link) (.fresh seed : Session TransportEvent τ ρ) [] [] :=
    ⟨Session.reached_fresh seed, .nil rfl, nofun, .nil rfl, nofun, fun _ => rfl, hself⟩
  have hstart : InOrderAfter link self handler E
      (⟨.new model, .fresh seed⟩ : Hosted (SimTransport (LatencyJitterModel α γ)) TransportEvent τ ρ) [] :=
    fun _ => ⟨[], [], [], hhops, rfl, .slnil, fun _ => rfl⟩
  refine hC.history (fun h op h' answer os hinv hop hs => ?_) hstart hrun
  exact hinv.step (fun hE delay key m he => hforeign hE delay key m (he ▸ hop)) hs

/-- In any run under the FIFO policy, with any latencies, losses and other traffic, and with the
handler registered when a message of the link is delivered: the messages of the link that are not
dropped are handed to the handler in the order in which the transport has processed their sends.
Those that have been are `own`, the others are in the heap. No other messages of the link are handed
over where other code makes no deliveries for it and the handler is not the transport. -/
theorem run_fifo
    (hrun : Machine.run (Hosted.step (code LatencyJitterModel.setLatency) self) ⟨.new model, .fresh seed⟩ ops = some (h, answers))
    (hregistered : Registered link handler (Hosted.history answers)) :
    ∃ (own : List TransportMessage) (first second : List (EventEntry TransportEvent)),
      acceptedOn link (Hosted.history answers) =
        own ++ second.filterMap (onLink link handler) ++ first.filterMap (onLink link self) ∧
      own.Sublist (handed link handler answers) ∧
      (first.Nodup ∧ ∀ e ∈ first, e ∈ h.session.heap) ∧ (second.Nodup ∧ ∀ e ∈ second, e ∈ h.session.heap) ∧
      (handler ≠ self → (∀ delay key m, .other (.schedule delay key (.messageDelivered m)) ∈ ops → m.link = link →
        key ≠ self ∧ key ≠ handler) → own = handed link handler answers) := by
  obtain ⟨own, first, second, hops, order, sublist, exact⟩ := run_ordered
    (E := handler ≠ self ∧ ∀ delay key m, .other (.schedule delay key (.messageDelivered m)) ∈ ops →
      m.link = link →
      key ≠ self ∧ key ≠ handler) And.left And.right hrun hregistered
  exact ⟨own, first, second, order, sublist, ⟨hops.toTransport.nodup, hops.toTransport.held⟩,
    ⟨hops.toHandler.nodup, hops.toHandler.held⟩, fun hself hforeign => exact ⟨hself, hforeign⟩⟩

end

/-- Two messages of a link, whose latency is one when the second is sent. -/
def twoMessages : List (Hosted.Op TransportEvent Unit Unit FifoFrontierPolicy (Method (Link × LatencyConfig ZeroFloat))) :=
  [.call (.registerHandler ⟨2⟩ 8), .call (.sendMessage ⟨1⟩ ⟨2⟩ [1, 2, 3] .unaryRequest 7), .other .pop,
    .call (.configure ((⟨1⟩, ⟨2⟩), ⟨1, ⟨⟩, ⟨⟩, 0⟩)), .call (.sendMessage ⟨1⟩ ⟨2⟩ [4] .unaryRequest 7), .other .pop,
    .other .pop, .other .pop, .other .pop, .other .pop]

theorem run_fifo_twoMessages :
    ∃ (h : Hosted (SimTransport (LatencyJitterModel ZeroFloat Unit)) TransportEvent Unit Unit) (answers : _),
    Machine.run (Hosted.step (code LatencyJitterModel.setLatency) 7) ⟨.new latencyFive, .fresh 0⟩ twoMessages = some (h, answers) ∧
    (handed (⟨1⟩, ⟨2⟩) 8 answers).map (·.id) = [1, 2] ∧ ∃ own pending,
      acceptedOn (⟨1⟩, ⟨2⟩) (Hosted.history answers) = own ++ pending ∧ own = handed (⟨1⟩, ⟨2⟩) 8 answers := by
  obtain ⟨h, answers, hrun, hids, hregistered⟩ :
      ∃ (h : Hosted (SimTransport (LatencyJitterModel ZeroFloat Unit)) TransportEvent Unit Unit)
        (answers : _),
      Machine.run (Hosted.step (code LatencyJitterModel.setLatency) 7)
        ⟨.new latencyFive, .fresh 0⟩ twoMessages =
        some (h, answers) ∧
      (handed (⟨1⟩, ⟨2⟩) 8 answers).map (·.id) = [1, 2] ∧ Registered (⟨1⟩, ⟨2⟩) 8 (Hosted.history answers) :=
    ⟨_, _, rfl, by decide, by decide⟩
  obtain ⟨own, first, second, order, -, -, -, exact⟩ := run_fifo hrun hregistered
  rw [List.append_assoc] at order
  exact ⟨h, answers, hrun, hids, own, _, order, exact (by decide) (by simp [twoMessages])⟩

end SimTransport

end DesCartes.Transport
