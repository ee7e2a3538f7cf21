import DesCartes.Proof.Transport.SimTransport

/-!
# When the messages of a link are delivered

A `LatencyJitterModel` keeps for each link the time at which it is free (`queueTime`) and answers
with it, as a time since the start of the simulation. The transport takes the answer for a delay
from now. `timetable` is what follows for the deliveries of a link with a constant latency, `OnTime`
is what they should be.

* `timetable_onTime`: the two agree only for messages that are sent at the start;
* `run_latency`: any run.
-/

namespace DesCartes.Transport

/-- The link of a message. -/
def TransportMessage.link (m : TransportMessage) : Link := (m.source, m.destination)

/-- For each message of a link that is not dropped, when it was sent and when its delivery is due. -/
def traffic {ν χ : Type} (link : Link) (hs : List (Done ν χ)) : List (SimTime × SimTime) :=
  hs.flatMap fun h => h.transmitted.filterMap fun send =>
    (send.event.delivery?.filter fun m => m.link = link).map fun _ => (h.now, h.now + send.delay)

/-- A message is due a latency after it was sent, or after the one before it where there are earlier
ones still in flight. -/
def OnTime (latency : Nat) (traffic : List (SimTime × SimTime)) : Prop :=
  ∀ earlier sent due later, traffic = earlier ++ (sent, due) :: later →
    ((∀ e ∈ earlier, e.2 ≤ sent) → due = sent + .fromDuration latency) ∧
    ∀ last ∈ earlier.getLast?, (∃ e ∈ earlier, sent < e.2) → due = last.2 + .fromDuration latency

/-! ## The times of a link -/

/-- When a link is free after messages that were sent at the given times. -/
def queueTime (latency : Nat) (free : Nat) (times : List SimTime) : Nat :=
  times.foldl (fun free sent => max free sent.nanos + latency) free

/-- The messages that are sent at the given times, and when the transport delivers them. -/
def timetable (latency : Nat) : Nat → List SimTime → List (SimTime × SimTime)
  | _, [] => []
  | free, sent :: times =>
    let free := max free sent.nanos + latency
    (sent, sent + .fromDuration free) :: timetable latency free times

section

variable {latency free : Nat}

theorem timetable_append (times : List SimTime) (sent : SimTime) : timetable latency free (times ++ [sent]) =
    timetable latency free times ++
      [(sent, sent + .fromDuration (max (queueTime latency free times) sent.nanos + latency))] := by
  induction times generalizing free with
  | nil => rfl
  | cons t times ih =>
    simp only [List.cons_append, timetable, ih]
    rfl

theorem queueTime_append (times : List SimTime) (sent : SimTime) :
    queueTime latency free (times ++ [sent]) = max (queueTime latency free times) sent.nanos + latency := by
  simp only [queueTime, List.foldl_append, List.foldl_cons, List.foldl_nil]

/-- A message of a timetable is due when the link is free again after it. -/
theorem timetable_split {times : List SimTime} {earlier later : List (SimTime × SimTime)} {sent due : SimTime}
    (h : timetable latency free times = earlier ++ (sent, due) :: later) :
    earlier = timetable latency free (earlier.map Prod.fst) ∧
      due = sent + .fromDuration (max (queueTime latency free
        (earlier.map Prod.fst)) sent.nanos + latency) := by
  induction earlier generalizing free times with
  | nil =>
    cases times with
    | nil => cases h
    | cons t times =>
      obtain ⟨h, -⟩ := List.cons.inj h
      obtain ⟨rfl, rfl⟩ := Prod.mk.inj h
      exact ⟨rfl, rfl⟩
  | cons e earlier ih =>
    cases times with
    | nil => cases h
    | cons t times =>
      obtain ⟨rfl, htail⟩ := List.cons.inj h
      obtain ⟨h₁, h₂⟩ := ih htail
      exact ⟨congrArg _ h₁, h₂⟩

/-- When all messages are sent at the start, the link is free when the last one is due, and not
before another one is. -/
theorem timetable_zero (latency : Nat) {times : List SimTime} (hzero : ∀ t ∈ times, t = .zero) :
    (∀ e ∈ timetable latency 0 times, e.2 ≤ .fromDuration (queueTime latency 0 times)) ∧
      ∀ last ∈ (timetable latency 0 times).getLast?, last.2 = .fromDuration (queueTime latency 0 times) := by
  induction times using List.reverseRecOn with
  | nil => exact ⟨nofun, nofun⟩
  | append_singleton times t ih =>
    obtain ⟨hle, -⟩ := ih fun t ht => hzero t (List.mem_append_left _ ht)
    obtain rfl : t = .zero := hzero t (List.mem_append_right _ List.mem_cons_self)
    have hlast : SimTime.zero + .fromDuration (max (queueTime latency 0 times) SimTime.zero.nanos + latency) =
        .fromDuration (queueTime latency 0 (times ++ [SimTime.zero])) := by
      rw [queueTime_append]
      apply SimTime.ext_nanos
      simp [SimTime.nanos_add, SimTime.fromDuration]
    rw [timetable_append]
    refine ⟨fun e he => ?_, fun last hl => ?_⟩
    · rcases List.mem_append.mp he with he | he
      · refine (hle e he).trans ?_
        rw [queueTime_append, SimTime.le_def]
        simp only [SimTime.fromDuration, SimTime.nanos_saturate]
        omega
      · rw [List.mem_singleton.mp he, hlast]
    · rw [List.getLast?_append, List.getLast?_singleton, Option.some_or, Option.mem_some_iff] at hl
      rw [← hl, hlast]

/-- Where a link is free at `q`, a message that is sent before that is due a latency after it only
if it is sent at the start. -/
theorem eq_zero_of_inFlight {sent : SimTime} {q : Nat} (hlt : sent < .fromDuration q)
    (hsat : (sent + .fromDuration (max q sent.nanos + latency)).nanos < u64Max)
    (h : sent + .fromDuration (max q sent.nanos + latency) = .fromDuration q + .fromDuration latency) :
    sent = .zero := by
  apply SimTime.ext_nanos
  have hn := congrArg SimTime.nanos h
  rw [← not_le, SimTime.le_def] at hlt
  simp only [SimTime.nanos_add, SimTime.fromDuration, SimTime.nanos_saturate,
    SimTime.nanos_zero] at hn hlt hsat ⊢
  omega

/-- A message is due a latency after it is sent only if it is sent at the start. -/
theorem eq_zero_of_notInFlight {sent : SimTime} {q : Nat}
    (hsat : (sent + .fromDuration (max q sent.nanos + latency)).nanos < u64Max)
    (h : sent + .fromDuration (max q sent.nanos + latency) = sent + .fromDuration latency) :
    sent = .zero := by
  apply SimTime.ext_nanos
  have hn := congrArg SimTime.nanos h
  simp only [SimTime.nanos_add, SimTime.fromDuration, SimTime.nanos_saturate, SimTime.nanos_zero] at hn hsat ⊢
  omega

/-- Messages of a timetable are on time exactly when they are all sent at the start of the simulation. -/
theorem timetable_onTime {times : List SimTime} (hsat : ∀ e ∈ timetable latency 0 times, e.2.nanos < u64Max) :
    OnTime latency (timetable latency 0 times) ↔ ∀ e ∈ timetable latency 0 times, e.1 = .zero := by
  constructor
  · intro hon
    -- by induction on the messages sent so far
    have hall : ∀ earlier later, timetable latency 0 times = earlier ++ later → ∀ e ∈ earlier,
        e.1 = .zero := by
      intro earlier
      induction earlier using List.reverseRecOn with
      | nil => exact fun _ _ => nofun
      | append_singleton earlier e ih =>
        obtain ⟨sent, due⟩ := e
        intro later h
        rw [List.append_assoc] at h
        have hzero := ih _ h
        refine List.forall_mem_append.mpr ⟨hzero, List.forall_mem_singleton.mpr ?_⟩
        obtain ⟨hearlier, hdue⟩ := timetable_split h
        have hz : ∀ t ∈ earlier.map Prod.fst, t = .zero := by simpa using fun t due he => hzero (t, due) he
        obtain ⟨hle, hlast⟩ := timetable_zero latency hz
        rw [← hearlier] at hle hlast
        obtain ⟨hfree, hflight⟩ := hon earlier sent due later h
        have hdueSat := hsat (sent, due) (h ▸ List.mem_append_right _ List.mem_cons_self)
        rw [hdue] at hdueSat hfree hflight
        by_cases hex : ∃ e ∈ earlier, sent < e.2
        · obtain ⟨e, he, hlt⟩ := hex
          obtain ⟨last, hl⟩ := List.getLast?_isSome.mpr (List.ne_nil_of_mem he) |> Option.isSome_iff_exists.mp
          have heq := hflight last hl ⟨e, he, hlt⟩
          rw [hlast last hl] at heq
          exact eq_zero_of_inFlight (hlt.trans_le (hle e he)) hdueSat heq
        · exact eq_zero_of_notInFlight hdueSat (hfree fun e he => not_lt.mp fun hlt => hex ⟨e, he, hlt⟩)
    exact hall _ [] (List.append_nil _).symm
  · intro hzero earlier sent due later h
    obtain ⟨hearlier, hdue⟩ := timetable_split h
    have hz : ∀ t ∈ earlier.map Prod.fst, t = .zero := by
      simpa using fun t due he => hzero (t, due) (h ▸ List.mem_append_left _ he)
    have hlast := (timetable_zero latency hz).2
    rw [← hearlier] at hlast
    obtain rfl : sent = .zero := hzero (sent, due) (h ▸ List.mem_append_right _ List.mem_cons_self)
    have hdue' :
        due = .fromDuration (queueTime latency 0 (earlier.map Prod.fst)) + .fromDuration latency := by
      rw [hdue]
      apply SimTime.ext_nanos
      simp only [SimTime.nanos_add, SimTime.fromDuration, SimTime.nanos_saturate, SimTime.nanos_zero]
      omega
    refine ⟨fun hle => ?_, fun last hl _ => ?_⟩
    · rcases List.eq_nil_or_concat earlier with rfl | ⟨init, last, rfl⟩
      · exact hdue'
      · have hl : last ∈ (init.concat last).getLast? := by simp
        rw [hdue', ← hlast last hl, le_antisymm (hle last (List.mem_of_getLast? hl)) (Nat.zero_le _)]
    · rw [hdue', hlast last hl]

end

namespace LatencyJitterModel

variable {α γ : Type}

/-- When the link is free. -/
def free (m : LatencyJitterModel α γ) (link : Link) : Nat := (m.queueTimes.lookup link).getD 0

theorem free_insert (m : LatencyJitterModel α γ) {m' : LatencyJitterModel α γ} {link key : Link}
    {total : Nat} (h : m'.queueTimes = m.queueTimes.insert key total) :
    m'.free link = if link = key then total else m.free link := by
  rw [free, h]
  split
  · rename_i e
    rw [e, AList.lookup_insert, Option.getD_some]
  · rename_i e
    rw [AList.lookup_insert_ne e]
    rfl

/-- The model has the same configuration and the same times. -/
structure Same (m m' : LatencyJitterModel α γ) : Prop where
  queueTimes : m'.queueTimes = m.queueTimes
  latencyConfig : m'.latencyConfig = m.latencyConfig
  defaultConfig : m'.defaultConfig = m.defaultConfig

theorem Same.getConfig {m m' : LatencyJitterModel α γ} (h : m.Same m') (link : Link) :
    m'.getConfig link = m.getConfig link := by
  rw [LatencyJitterModel.getConfig, h.latencyConfig, h.defaultConfig]
  rfl

theorem Same.free {m m' : LatencyJitterModel α γ} (h : m.Same m') (link : Link) :
    m'.free link = m.free link := by
  rw [LatencyJitterModel.free, h.queueTimes]
  rfl

variable [NetworkRng α γ]

theorem same_shouldDropMessage {m m' : LatencyJitterModel α γ} {source destination : EndpointId}
    {message : TransportMessage} {dropped : Bool}
    (h : NetworkModel.shouldDropMessage m source destination message = (dropped, m')) :
    m.Same m' := by
  cases h
  exact ⟨rfl, rfl, rfl⟩

/-- What `calculate_latency` answers is when the link is free after the message. -/
structure Calculated (m : LatencyJitterModel α γ) (message : TransportMessage) (total : Nat)
    (m' : LatencyJitterModel α γ) : Prop where
  queueTimes : m'.queueTimes = m.queueTimes.insert message.link total
  latencyConfig : m'.latencyConfig = m.latencyConfig
  defaultConfig : m'.defaultConfig = m.defaultConfig
  le_total : max (m.free message.link) message.sentAt.nanos ≤ total
  constant : NetworkRng.hasJitter γ (m.getConfig message.link).jitterFactor = false → (m.getConfig message.link).bandwidthBps = 0 →
    total = max (m.free message.link) message.sentAt.nanos + (m.getConfig message.link).baseLatency

theorem Calculated.getConfig {m m' : LatencyJitterModel α γ} {message : TransportMessage} {total : Nat}
    (h : m.Calculated message total m') (link : Link) : m'.getConfig link = m.getConfig link := by
  rw [LatencyJitterModel.getConfig, h.latencyConfig, h.defaultConfig]
  rfl

theorem calculated {m m' : LatencyJitterModel α γ} {message : TransportMessage} {total : Nat}
    (h : NetworkModel.calculateLatency m message.source message.destination message = some (total, m')) :
    m.Calculated message total m' := by
  simp only [NetworkModel.calculateLatency, calculateLatency, Option.ite_none_right_eq_some,
    Option.some.injEq, Prod.mk.injEq] at h
  obtain ⟨-, rfl, rfl⟩ := h
  refine ⟨rfl, rfl, rfl, ?_, fun hjitter hbandwidth => ?_⟩
  · exact (Nat.le_add_right ..).trans (Nat.le_add_right ..)
  · rw [show (message.source, message.destination) = message.link from rfl, hbandwidth, latency, hjitter]
    rfl

end LatencyJitterModel

namespace SimTransport

theorem traffic_append {ν χ : Type} (link : Link) (hs : List (Done ν χ)) (h : Done ν χ) :
    traffic link (hs ++ [h]) =
    traffic link hs ++ h.transmitted.filterMap fun send =>
      (send.event.delivery?.filter fun m => m.link = link).map fun _ => (h.now, h.now + send.delay) := by
  rw [traffic, List.flatMap_append, List.flatMap_singleton]
  rfl

variable {α γ : Type} {self : Uuid} {now : SimTime} {link : Link} {config : LatencyConfig α}
  {t t' : SimTransport (LatencyJitterModel α γ)} {hs : List (Done (LatencyJitterModel α γ) (Link × LatencyConfig α))}

/-- The messages of the link have been scheduled by a timetable with the latency of its configuration. -/
structure Scheduled (link : Link) (config : LatencyConfig α) (t : SimTransport (LatencyJitterModel α γ))
    (hs : List (Done (LatencyJitterModel α γ) (Link × LatencyConfig α))) : Prop where
  configured : t.networkModel.getConfig link = config
  free : t.networkModel.free link = queueTime config.baseLatency 0 ((traffic link hs).map Prod.fst)
  timed : traffic link hs = timetable config.baseLatency 0 ((traffic link hs).map Prod.fst)

/-- Nothing that concerns the link happens. -/
theorem Scheduled.append {x : Done (LatencyJitterModel α γ) (Link × LatencyConfig α)}
    (h : t.Scheduled link config hs)
    (hconfig : t'.networkModel.getConfig link = t.networkModel.getConfig link)
    (hfree : t'.networkModel.free link = t.networkModel.free link)
    (hquiet : ∀ send ∈ x.transmitted, send.event.delivery?.filter (fun m => m.link = link) = none) :
    t'.Scheduled link config (hs ++ [x]) := by
  have htraffic : traffic link (hs ++ [x]) = traffic link hs := by
    rw [traffic_append, List.filterMap_eq_nil_iff.mpr, List.append_nil]
    exact fun send hsend => Option.map_eq_none_iff.mpr (hquiet send hsend)
  refine ⟨hconfig.trans h.configured, ?_, ?_⟩
  · rw [htraffic, hfree, h.free]
  · rw [htraffic]
    exact h.timed

variable [NetworkRng α γ]

/-- Every event keeps the timetable of a link without jitter and bandwidth limit. -/
theorem Moved.scheduled {event : TransportEvent} {sends : List (Send TransportEvent)}
    (hm : t.Moved self now event t' sends)
    (hjitter : NetworkRng.hasJitter γ config.jitterFactor = false)
    (hbandwidth : config.bandwidthBps = 0) (h : t.Scheduled link config hs) :
    t'.Scheduled link config (hs ++ [⟨t, .inl event, now, t', sends⟩]) := by
  cases hm with
  | lose hentered hdrop =>
    have hsame := LatencyJitterModel.same_shouldDropMessage hdrop
    exact h.append (hsame.getConfig link) (hsame.free link) (List.forall_mem_singleton.mpr rfl)
  | @accept message m next latency networkModel networkModel' hentered hdrop hlatency =>
    have hsame := LatencyJitterModel.same_shouldDropMessage hdrop
    have hcalc := LatencyJitterModel.calculated hlatency
    have hconfig : networkModel'.getConfig link = t.networkModel.getConfig link :=
      (hcalc.getConfig link).trans (hsame.getConfig link)
    have hfree : networkModel'.free link = if link = m.link then latency else networkModel.free link :=
      networkModel.free_insert hcalc.queueTimes
    by_cases hlink : link = m.link
    · -- the message is the next one of the timetable
      have hsent : m.sentAt = now := by rw [hentered.eq]
      have htotal :
          latency = max (queueTime config.baseLatency 0
            ((traffic link hs).map Prod.fst)) now.nanos + config.baseLatency := by
        have hconst := hcalc.constant
        rw [← hlink, hsame.getConfig, h.configured, hsame.free, h.free, hsent] at hconst
        exact hconst hjitter hbandwidth
      have htraffic : traffic link (hs ++ [⟨t, .inl (.sendMessage message), now, { t with
          networkModel := networkModel', nextMessageId := next, stats := t.sentStats m },
          [⟨.fromDuration latency, self, .messageDelivered m⟩]⟩]) =
            traffic link hs ++ [(now, now + .fromDuration latency)] := by
        rw [traffic_append]
        simp [Done.transmitted, TransportEvent.delivery?, hlink]
      refine ⟨hconfig.trans h.configured, ?_, ?_⟩
      · rw [htraffic, List.map_append, List.map_singleton, queueTime_append, ← htotal]
        exact hfree.trans (if_pos hlink)
      · rw [htraffic, List.map_append, List.map_singleton, timetable_append, ← htotal, ← h.timed]
    · refine h.append hconfig ?_ (List.forall_mem_singleton.mpr ?_)
      · rw [← hsame.free]
        exact hfree.trans (if_neg hlink)
      · simp [TransportEvent.delivery?, Ne.symm hlink]
  | deliver message => exact h.append rfl rfl (List.forall_mem_nil _)
  | ignore message reason => exact h.append rfl rfl (List.forall_mem_nil _)

/-- A method of the owner keeps the timetable of a link whose configuration it does not change. -/
theorem scheduled_call {method : Method (Link × LatencyConfig α)}
    {sends : List (Send TransportEvent)}
    (hcall : (code LatencyJitterModel.setLatency).call t self method now = some (t', sends))
    (hmethod : ∀ config', method = .configure (link, config') → config' = config)
    (h : t.Scheduled link config hs) :
    t'.Scheduled link config (hs ++ [⟨t, .inr method, now, t', sends⟩]) := by
  rcases called_networkModel hcall with hsame | hreset | ⟨⟨key, config'⟩, rfl, hconfigured⟩
  · exact h.append (by rw [hsame]) (by rw [hsame]) nofun
  · exact h.append (by rw [hreset]; rfl) (by rw [hreset]; rfl) nofun
  · refine h.append ?_ (by rw [hconfigured]; rfl) nofun
    rw [hconfigured, LatencyJitterModel.setLatency, LatencyJitterModel.getConfig]
    by_cases hkey : link = key
    · rw [hkey, AList.lookup_insert, Option.getD_some, hmethod config' (by rw [hkey]), ← h.configured, hkey]
    · rw [AList.lookup_insert_ne hkey]
      rfl

/-! ## Runs -/

section

variable {τ ρ φ : Type} [EventFrontierPolicy φ] {model : LatencyJitterModel α γ} {seed : BitVec 64}
  {ops : List (Hosted.Op TransportEvent τ ρ φ (Method (Link × LatencyConfig α)))}
  {h : Hosted (SimTransport (LatencyJitterModel α γ)) TransportEvent τ ρ}
  {answers : List (Hosted.Answer (SimTransport (LatencyJitterModel α γ)) TransportEvent (Method (Link × LatencyConfig α)))}

/-- In any run, with any other traffic: the messages of a link that has a constant latency are on
time exactly when all of those that are not dropped are sent at the start of the simulation. If no
other delivery is made to the transport, the messages arrive when they are due. -/
theorem run_latency (hfresh : model.queueTimes = ∅) (hconfig : model.getConfig link = config)
    (hjitter : NetworkRng.hasJitter γ config.jitterFactor = false) (hbandwidth : config.bandwidthBps = 0)
    (hconfigure : ∀ config', .call (.configure (link, config')) ∈ ops → config' = config)
    (hrun : Machine.run (Hosted.step (code LatencyJitterModel.setLatency) self) ⟨.new model, .fresh seed⟩ ops = some (h, answers))
    (hsat : ∀ e ∈ traffic link (Hosted.history answers), e.2.nanos < u64Max) :
    let hs := Hosted.history answers
    (OnTime config.baseLatency (traffic link hs) ↔ ∀ e ∈ traffic link hs, e.1 = .zero) ∧
    ((∀ delay m, .other (.schedule delay self (.messageDelivered m)) ∉ ops) →
      (∀ endpoint, .call (.registerHandler endpoint self) ∉ ops) →
      (accepted hs).Perm (arrived hs ++ deliveries (h.session.mail self))) := by
  intro hs
  have hscheduled : h.component.Scheduled link config hs :=
    Hosted.run_rule (P := fun t (_ : List TransportEvent) hs => t.Scheduled link config hs)
      (I := fun _ => True)
      (A := fun m => ∀ config', m = .configure (link, config') → config' = config)
      (fun _ _ _ _ _ h => h) (fun _ _ _ _ _ h => h)
      (fun t l hs e now t' sends hp _ h => (moved hp).scheduled hjitter hbandwidth h)
      (fun t l hs m now t' sends hm hp _ h => scheduled_call hp hm h)
      (fun _ _ _ => trivial) (fun m hm config' he => hconfigure config' (he ▸ hm)) (Session.wf_fresh seed)
      ⟨hconfig, by simp [new, LatencyJitterModel.free, hfresh, traffic, queueTime], rfl⟩ hrun
  refine ⟨?_, fun hforeign hself => run_arrivals hforeign hself hrun⟩
  have htimed := hscheduled.timed
  rw [htimed] at hsat ⊢
  exact timetable_onTime hsat

end

/-- A link with a latency of five, on which a message is sent at the given time. -/
def messageAt (time : SimTime) :
    List (Hosted.Op TransportEvent Unit Unit FifoFrontierPolicy (Method (Link × LatencyConfig ZeroFloat))) :=
  [.other (.schedule time 7 (.sendMessage (.new 0 ⟨1⟩ ⟨2⟩ [1, 2, 3] .zero .unaryRequest))), .other .pop, .other .pop]

/-- A model with a latency of five on every link. -/
def latencyFive : LatencyJitterModel ZeroFloat Unit := .withSeed ⟨5, ⟨⟩, ⟨⟩, 0⟩ ()

/-- A message that is sent at 10 on an idle link with a latency of five arrives at 25. -/
theorem not_onTime_messageAt :
    ∃ (h : Hosted (SimTransport (LatencyJitterModel ZeroFloat Unit)) TransportEvent Unit Unit) (answers : _),
    Machine.run (Hosted.step (code LatencyJitterModel.setLatency) 7) ⟨.new latencyFive, .fresh 0⟩ (messageAt (.fromDuration 10)) =
      some (h, answers) ∧
    (arrived (Hosted.history answers)).map Prod.fst = [.fromDuration 25] ∧
    ¬OnTime 5 (traffic (⟨1⟩, ⟨2⟩) (Hosted.history answers)) := by
  refine ⟨_, _, rfl, by decide, fun hon => ?_⟩
  exact absurd ((hon [] (.fromDuration 10) (.fromDuration 25) [] (by decide)).1 nofun) (by decide)

theorem run_latency_messageAt :
    ∃ (h : Hosted (SimTransport (LatencyJitterModel ZeroFloat Unit)) TransportEvent Unit Unit) (answers : _),
    Machine.run (Hosted.step (code LatencyJitterModel.setLatency) 7) ⟨.new latencyFive, .fresh 0⟩ (messageAt .zero) =
      some (h, answers) ∧
    (arrived (Hosted.history answers)).map Prod.fst = [.fromDuration 5] ∧ OnTime 5 (traffic (⟨1⟩, ⟨2⟩) (Hosted.history answers)) := by
  have hconfigure : ∀ config', .call (.configure ((⟨1⟩, ⟨2⟩), config')) ∈ messageAt .zero →
      config' = latencyFive.defaultConfig := by
    simp [messageAt]
  have hrun := (rfl : Machine.run (Hosted.step (code LatencyJitterModel.setLatency) 7)
    ⟨.new latencyFive, .fresh 0⟩
    (messageAt .zero) = some (_, _))
  exact ⟨_, _, hrun, by decide, (run_latency rfl rfl rfl rfl hconfigure hrun (by decide)).1.mpr (by decide)⟩

end SimTransport

end DesCartes.Transport
