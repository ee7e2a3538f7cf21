import DesCartes.Framework.StepFunction
import DesCartes.Impl.Explore.Monitor

/-!
# The windows of a monitor

What a monitor is told of a queue is a step function. `Follows` says what the state of a queue keeps
of it within a window, whichever of `observe_len`, `finalize_window` and `reset_for_next_window` the
fragments of the integral come from; `Exact` what a window of the timeline says of the calls, and
`Inv` what holds between two calls.

* `run_windows`: every window of the timeline is exact, the last call is in the window that is open,
  and calls of `flush_up_to` between the others change nothing.

The maximum of a queue counts the length that it has when the window begins, even if that is another
one from the first instant on; and calls from before the monitor's start count in the first window
(`not_windowed`).
-/

namespace DesCartes.Explore

open StepFunction

/-! ## The state of a queue -/

/-- The state of a queue in a window that began at `start`, after the observations. -/
structure QueueState.Follows (obs : Observations) (start : Nat) (q : QueueState) : Prop where
  windowStart : q.windowStart.nanos = start
  le_lastTime : start ≤ q.lastTime.nanos
  times : ∀ o ∈ obs, o.1 ≤ q.lastTime.nanos
  len : q.len = last obs
  integral : q.integralLenNanos = integral obs start q.lastTime.nanos
  max : IsGreatest (seenFrom obs start) q.max

namespace QueueState.Follows

variable {obs : Observations} {start : Nat} {q : QueueState} {now stop : SimTime}

theorem new {t : SimTime} : Follows [] t.nanos (.new t) where
  windowStart := rfl
  le_lastTime := le_rfl
  times := List.forall_mem_nil _
  len := rfl
  integral := integral_self.symm
  max := by
    rw [QueueState.new, seenFrom_of_lt (List.forall_mem_nil _)]
    exact isGreatest_singleton

theorem len_le_max (h : q.Follows obs start) : q.len ≤ q.max := by
  rw [h.len]
  exact h.max.2 last_mem_seenFrom

/-- The fragment of the integral that is added where the length has not changed. -/
theorem integral_until (h : q.Follows obs start) (hn : q.lastTime ≤ now) :
    q.integralLenNanos + q.len * now.durationSince q.lastTime =
      StepFunction.integral obs start now.nanos := by
  rw [h.integral, h.len, SimTime.durationSince, ← integral_of_le h.times, integral_add h.le_lastTime hn]

theorem observeLen (h : q.Follows obs start) (hn : q.lastTime ≤ now) (len : Nat) :
    (q.observeLen now len).Follows (obs ++ [(now.nanos, len)]) start := by
  have hle : start ≤ now.nanos := h.le_lastTime.trans hn
  refine ⟨h.windowStart, hle, ?_, ?_, ?_, ?_⟩
  · exact List.forall_mem_append.mpr ⟨fun o ho => (h.times o ho).trans hn,
      List.forall_mem_singleton.mpr le_rfl⟩
  · exact last_concat.symm
  · have happend : StepFunction.integral (obs ++ [(now.nanos, len)]) start now.nanos =
        StepFunction.integral obs start now.nanos :=
      integral_append (List.forall_mem_singleton.mpr le_rfl)
    exact (h.integral_until hn).trans happend.symm
  · have hgreatest := h.max.insert len
    rw [max_comm, ← seenFrom_concat hle] at hgreatest
    exact hgreatest

theorem idle (h : q.Follows obs start) (hn : q.lastTime ≤ now) : (q.idle now).Follows obs start := by
  refine ⟨h.windowStart, h.le_lastTime.trans hn, fun o ho => (h.times o ho).trans hn, h.len,
    h.integral_until hn, ?_⟩
  simp only [QueueState.idle, QueueState.observeLen, max_eq_left h.len_le_max]
  exact h.max

theorem times_lt (h : q.Follows obs start) (hs : q.lastTime < stop) : ∀ o ∈ obs, o.1 < stop.nanos :=
  fun o ho => (h.times o ho).trans_lt (lt_of_not_ge fun hge => not_le.mpr hs hge)

/-- At the end of the window the integral is that over the window, and the maximum that of the
lengths seen in it. -/
theorem finalizeWindow (h : q.Follows obs start) (hs : q.lastTime < stop) :
    (q.finalizeWindow stop).integralLenNanos = StepFunction.integral obs start stop.nanos ∧
      IsGreatest (seenIn obs start stop.nanos) (q.finalizeWindow stop).max := by
  refine ⟨h.integral_until hs.le, ?_⟩
  rw [seenIn_eq_seenFrom (h.times_lt hs)]
  exact h.max

theorem resetForNextWindow (h : q.Follows obs start) (hs : q.lastTime < stop) :
    ((q.finalizeWindow stop).resetForNextWindow stop).Follows obs stop.nanos := by
  have hlt := h.times_lt hs
  refine ⟨rfl, le_rfl, fun o ho => (hlt o ho).le, h.len, integral_self.symm, ?_⟩
  simp only [QueueState.resetForNextWindow, QueueState.finalizeWindow, seenFrom_of_lt hlt, h.len]
  exact isGreatest_singleton

end QueueState.Follows

namespace Monitor

/-! ## What the calls say -/

/-- The length that a call observes of the queue. -/
def Op.length? (queue : QueueId) : Op → Option (Nat × Nat)
  | .observe now (.queueLen q len) => if q = queue then some (now.nanos, len) else none
  | _ => none

/-- The lengths of the queue that the calls observe. -/
def lengths (queue : QueueId) (ops : List Op) : Observations := ops.filterMap (Op.length? queue)

/-- What is counted in a window. -/
inductive Tally where
  | dropped
  | timeouts
  | retries
  | completedInTime
  | completedLate

/-- Whether it counts the observation. -/
def Tally.counts : Tally → Observation → Bool
  | dropped, .drop => true
  | timeouts, .timeout => true
  | retries, .retry => true
  | completedInTime, .complete _ inTime => inTime
  | completedLate, .complete _ inTime => !inTime
  | _, _ => false

/-- The count of the window that is open. -/
def Tally.ofMonitor {η : Type} (m : Monitor η) : Tally → Nat
  | dropped => m.dropped
  | timeouts => m.timeouts
  | retries => m.retries
  | completedInTime => m.completedInTime
  | completedLate => m.completedLate

/-- The count of a window of the timeline. -/
def Tally.ofSummary (w : WindowSummary) : Tally → Nat
  | dropped => w.dropped
  | timeouts => w.timeouts
  | retries => w.retries
  | completedInTime => w.completedInTime
  | completedLate => w.completedLate

/-- Whether the call observes something that is counted. -/
def Op.counted (tally : Tally) : Op → Bool
  | .observe _ observation => tally.counts observation
  | .flush _ => false

/-- How many calls from `a` to before `b` observe something that is counted. -/
def countIn (tally : Tally) (a b : Nat) (ops : List Op) : Nat :=
  ops.countP fun op => op.counted tally && decide (a ≤ op.time.nanos ∧ op.time.nanos < b)

/-- What a window of the timeline, and the finalized queues, say of the calls. -/
structure Exact (cfg : MonitorConfig) (start : SimTime) (ops : List Op) (k : Nat) (summary : WindowSummary)
    (queues : AList fun _ : QueueId => QueueState) : Prop where
  windowStart : summary.windowStart.nanos = start.nanos + k * cfg.window
  windowEnd : summary.windowEnd.nanos = start.nanos + (k + 1) * cfg.window
  tally : ∀ tally : Tally, tally.ofSummary summary =
    countIn tally (start.nanos + k * cfg.window) (start.nanos + (k + 1) * cfg.window) ops
  integral : ∀ queue, ((queues.lookup queue).map (·.integralLenNanos)).getD 0 =
    StepFunction.integral (lengths queue ops) (start.nanos + k * cfg.window) (start.nanos + (k + 1) * cfg.window)
  max : ∀ queue, IsGreatest
    (seenIn (lengths queue ops) (start.nanos + k * cfg.window) (start.nanos + (k + 1) * cfg.window))
    (((queues.lookup queue).map (·.max)).getD 0)
  queueMax : summary.queueMax = (queues.entries.map (·.2.max)).foldr Max.max 0

variable {η : Type} {cfg : MonitorConfig} {start now : SimTime} {ops ops' : List Op} {k : Nat} {summary : WindowSummary}
  {queues : AList fun _ : QueueId => QueueState} {queue : QueueId}

theorem lengths_append : lengths queue (ops ++ ops') = lengths queue ops ++ lengths queue ops' :=
  List.filterMap_append

theorem exists_of_mem_lengths {o : Nat × Nat} (ho : o ∈ lengths queue ops) :
    ∃ op ∈ ops, op.time.nanos = o.1 := by
  obtain ⟨op, hop, h⟩ := List.mem_filterMap.mp ho
  refine ⟨op, hop, ?_⟩
  cases op with
  | flush now => cases h
  | observe now observation =>
    cases observation with
    | queueLen q len =>
      obtain ⟨-, h⟩ := Option.ite_none_right_eq_some.mp h
      cases h
      rfl
    | _ => cases h

/-- Later calls do not change what a window says. -/
theorem Exact.append (h : Exact cfg start ops k summary queues)
    (hlater : ∀ op ∈ ops', start.nanos + (k + 1) * cfg.window ≤ op.time.nanos) :
    Exact cfg start (ops ++ ops') k summary queues := by
  have hlengths : ∀ queue, ∀ o ∈ lengths queue ops', start.nanos + (k + 1) * cfg.window ≤ o.1 := by
    intro queue o ho
    obtain ⟨op, hop, e⟩ := exists_of_mem_lengths ho
    rw [← e]
    exact hlater op hop
  refine ⟨h.windowStart, h.windowEnd, fun tally => ?_, fun queue => ?_, fun queue => ?_, h.queueMax⟩
  · have hzero : countIn tally (start.nanos + k * cfg.window)
        (start.nanos + (k + 1) * cfg.window) ops' = 0 := by
      refine List.countP_eq_zero.mpr fun op hop => ?_
      have := hlater op hop
      simp
      omega
    rw [h.tally, countIn, countIn, List.countP_append, ← countIn, ← countIn, hzero]
    rfl
  · rw [h.integral, lengths_append, integral_append (hlengths queue)]
  · have hle : start.nanos + k * cfg.window ≤ start.nanos + (k + 1) * cfg.window :=
      Nat.add_le_add_left (Nat.mul_le_mul_right _ (Nat.le_succ k)) _
    rw [lengths_append, seenIn_append hle (hlengths queue)]
    exact h.max queue

/-! ## Between two calls -/

/-- After the calls, at the time `now`. -/
structure Inv (cfg : MonitorConfig) (start : SimTime) (ops : List Op) (m : Monitor η) (now : Nat) : Prop where
  config : m.cfg = cfg
  windowStart : m.windowStart.nanos = start.nanos + m.timeline.length * cfg.window
  windowEnd : m.windowEnd = m.windowStart + .fromDuration cfg.window
  le_now : m.windowStart.nanos ≤ now
  now_lt : now < start.nanos + (m.timeline.length + 1) * cfg.window
  times : ∀ op ∈ ops, op.time.nanos ≤ now
  tally : ∀ tally : Tally, tally.ofMonitor m =
    ops.countP fun op => op.counted tally && decide (m.windowStart.nanos ≤ op.time.nanos)
  queues : ∀ queue, ((m.queues.lookup queue).getD (.new m.windowStart)).Follows (lengths queue ops) m.windowStart.nanos
  lastTime : ∀ queue q, m.queues.lookup queue = some q → q.lastTime.nanos ≤ now
  absent : ∀ queue, m.queues.lookup queue = none → lengths queue ops = []
  closed : m.closed.length = m.timeline.length
  windows : ∀ k summary queues, m.timeline[k]? = some summary → m.closed[k]? = some queues → Exact cfg start ops k summary queues

/-- The windows up to the one with the time end within the range of `SimTime`. -/
def Unsaturated (cfg : MonitorConfig) (start t : SimTime) : Prop :=
  start.nanos + ((t.nanos - start.nanos) / cfg.window + 1) * cfg.window ≤ u64Max

theorem queueTotals_max {stop : SimTime} :
    (queueTotals queues stop).2 = (queues.entries.map (·.2.max)).foldr Max.max 0 := by
  have hfold : ∀ (l : List (Sigma fun _ : QueueId => QueueState)) (total : Float × Nat × Nat),
      (l.foldl (fun (total : Float × Nat × Nat) q => (total.1 + q.2.mean stop, max total.2.1 q.2.max,
        total.2.2 + 1)) total).2.1 =
        max total.2.1 ((l.map (·.2.max)).foldr Max.max 0) := by
    intro l
    induction l with
    | nil => exact fun total => (Nat.max_zero _).symm
    | cons q l ih => exact fun total => (ih _).trans (max_assoc ..)
  exact (hfold _ _).trans (Nat.zero_max _)

/-- What assessing a window changes. -/
theorem assess_eq (m : Monitor η) (summary : WindowSummary) :
    ∃ distanceToBaseline baseline baselineWindowsSeen recoveredHold metastablePersist,
      m.assess summary = ({ summary with distanceToBaseline },
        { m with baseline, baselineWindowsSeen, recoveredHold, metastablePersist }) := by
  rw [assess]
  split
  · exact ⟨summary.distanceToBaseline, _, _, _, _, rfl⟩
  · dsimp only
    split
    · exact ⟨_, _, _, _, _, rfl⟩
    · exact ⟨_, _, _, _, _, rfl⟩

section
variable {m m' : Monitor η}

theorem unsaturated_of_le {t t' : SimTime} (h : Unsaturated cfg start t') (ht : t ≤ t') :
    Unsaturated cfg start t := by
  rw [SimTime.le_def] at ht
  refine le_trans (Nat.add_le_add_left (Nat.mul_le_mul_right _ (Nat.add_le_add_right ?_ 1)) _) h
  exact Nat.div_le_div_right (Nat.sub_le_sub_right ht _)

theorem Inv.window_pos {t : Nat} (h : Inv cfg start ops m t) : 0 < cfg.window := by
  have hws := h.windowStart
  have hle := h.le_now
  have hlt := h.now_lt
  rw [Nat.add_mul] at hlt
  omega

/-- Where nothing saturates the open window ends where the next one begins. -/
theorem Inv.nanos_windowEnd {t : Nat} (h : Inv cfg start ops m t) (hn : m.windowEnd ≤ now)
    (hsat : Unsaturated cfg start now) :
    m.windowEnd.nanos = start.nanos + (m.timeline.length + 1) * cfg.window := by
  have hend : m.windowEnd.nanos = min (m.windowStart.nanos + min cfg.window u64Max) u64Max := by
    rw [h.windowEnd]; rfl
  have hws := h.windowStart
  rw [SimTime.le_def] at hn
  rw [Unsaturated, Nat.add_mul] at hsat
  rw [Nat.add_mul]
  by_cases hfit : start.nanos + (m.timeline.length * cfg.window + 1 * cfg.window) ≤ u64Max
  · omega
  · -- The end saturates, so `now` is the last instant there is, and the window that it is in is not earlier.
    have hnow := now.le_max
    have hstart := m.windowStart.le_max
    have hindex : m.timeline.length ≤ (now.nanos - start.nanos) / cfg.window :=
      (Nat.le_div_iff_mul_le h.window_pos).mpr (by omega)
    have := Nat.mul_le_mul_right cfg.window hindex
    omega

/-- A queue in the window that is open; where it is not in the map it is as `entry` creates it. -/
theorem Inv.finalized {t : Nat} (h : Inv cfg start ops m t) (hend : t < m.windowEnd.nanos) (queue : QueueId) :
    ((m.queues.lookup queue).getD (.new m.windowStart)).lastTime < m.windowEnd ∧
      (((m.queues.mapValues (·.finalizeWindow m.windowEnd)).lookup queue).map (·.integralLenNanos)).getD 0 =
        StepFunction.integral (lengths queue ops) m.windowStart.nanos m.windowEnd.nanos ∧
      IsGreatest (seenIn (lengths queue ops) m.windowStart.nanos m.windowEnd.nanos)
        ((((m.queues.mapValues (·.finalizeWindow m.windowEnd)).lookup queue).map (·.max)).getD 0) := by
  have hq := h.queues queue
  have hlt : ((m.queues.lookup queue).getD (.new m.windowStart)).lastTime < m.windowEnd := by
    refine lt_of_not_ge fun hle => (hend.trans_le hle).not_ge ?_
    cases hl : m.queues.lookup queue with
    | none => exact h.le_now
    | some q => exact h.lastTime queue q hl
  refine ⟨hlt, ?_⟩
  rw [AList.lookup_mapValues]
  obtain ⟨hintegral, hmax⟩ := hq.finalizeWindow hlt
  cases hl : m.queues.lookup queue with
  | none =>
    rw [hl] at hintegral hmax
    refine ⟨?_, hmax⟩
    rw [← hintegral]
    simp [QueueState.finalizeWindow, QueueState.new]
  | some q =>
    rw [hl] at hintegral hmax
    exact ⟨hintegral, hmax⟩

/-- The window that is open becomes an exact one of the timeline. -/
theorem Inv.exact {t : Nat} (h : Inv cfg start ops m t) (hend : t < m.windowEnd.nanos)
    (he : m.windowEnd.nanos = start.nanos + (m.timeline.length + 1) * cfg.window)
    {summary : WindowSummary} (hstart : summary.windowStart = m.windowStart)
    (hstop : summary.windowEnd = m.windowEnd)
    (htally : ∀ tally : Tally, tally.ofSummary summary = tally.ofMonitor m)
    (hmax : summary.queueMax = ((m.queues.mapValues (·.finalizeWindow m.windowEnd)).entries.map
      (·.2.max)).foldr Max.max 0) :
    Exact cfg start ops m.timeline.length summary (m.queues.mapValues (·.finalizeWindow m.windowEnd)) := by
  refine ⟨hstart ▸ h.windowStart, hstop ▸ he, fun tally => ?_, fun queue => ?_, fun queue => ?_, hmax⟩
  · rw [htally, h.tally, countIn, ← h.windowStart, ← he]
    refine List.countP_congr fun op hop => ?_
    have hlt := (h.times op hop).trans_lt hend
    simp [hlt]
  · rw [← h.windowStart, ← he]
    exact (h.finalized hend queue).2.1
  · rw [← h.windowStart, ← he]
    exact (h.finalized hend queue).2.2

/-- The queues of the open window, idle up to a time in it. -/
theorem Inv.flushIdle {t : Nat} (h : Inv cfg start ops m t) (ht : t ≤ now.nanos) (hn : now < m.windowEnd) :
    Inv cfg start ops (m.flushIdle now) now.nanos := by
  refine ⟨h.config, h.windowStart, h.windowEnd, h.le_now.trans ht, ?_,
    fun op hop => (h.times op hop).trans ht, fun tally => ?_,
    fun queue => ?_, fun queue q hq => ?_, fun queue hq => ?_, h.closed, h.windows⟩
  · have hlt : now.nanos < m.windowEnd.nanos := lt_of_not_ge fun hle => hn.not_ge hle
    have hend : m.windowEnd.nanos = min (m.windowStart.nanos + min cfg.window u64Max) u64Max := by
      rw [h.windowEnd]; rfl
    have hws := h.windowStart
    simp only [Monitor.flushIdle]
    rw [Nat.add_mul]
    omega
  · rw [show tally.ofMonitor (m.flushIdle now) = tally.ofMonitor m by cases tally <;> rfl]
    exact h.tally tally
  · have hq := h.queues queue
    simp only [Monitor.flushIdle, AList.lookup_mapValues]
    cases hl : m.queues.lookup queue with
    | none =>
      rw [hl] at hq
      exact hq
    | some q =>
      rw [hl] at hq
      exact hq.idle ((h.lastTime queue q hl).trans ht)
  · simp only [Monitor.flushIdle, AList.lookup_mapValues] at hq
    obtain ⟨q', -, rfl⟩ := Option.map_eq_some_iff.mp hq
    exact le_rfl
  · simp only [Monitor.flushIdle, AList.lookup_mapValues] at hq
    exact h.absent queue (Option.map_eq_none_iff.mp hq)

/-- A call at the time to which the monitor is flushed, from what it does to the counts and to the queues. -/
theorem Inv.append (h : Inv cfg start ops m now.nanos) {op : Op} (hop : op.time = now)
    (hframe : m'.cfg = m.cfg ∧ m'.windowStart = m.windowStart ∧ m'.windowEnd = m.windowEnd ∧
      m'.timeline = m.timeline ∧ m'.closed = m.closed)
    (htally : ∀ tally : Tally, tally.ofMonitor m' = tally.ofMonitor m + (op.counted tally).toNat)
    (hqueues : ∀ queue, m'.queues.lookup queue =
      (op.length? queue).elim (m.queues.lookup queue) fun o =>
        some (((m.queues.lookup queue).getD (.new m.windowStart)).observeLen now o.2)) :
    Inv cfg start (ops ++ [op]) m' now.nanos := by
  obtain ⟨hcfg, hstart, hend, htimeline, hclosed⟩ := hframe
  have hlengths : ∀ queue, lengths queue (ops ++ [op]) = lengths queue ops ++ (op.length? queue).toList := by
    intro queue
    rw [lengths_append]
    cases hl : op.length? queue <;> simp [lengths, hl]
  have hlast : ∀ queue, ((m.queues.lookup queue).getD (.new m.windowStart)).lastTime ≤ now := by
    intro queue
    cases hl : m.queues.lookup queue with
    | none => exact h.le_now
    | some q => exact h.lastTime queue q hl
  refine ⟨hcfg.trans h.config, ?_, ?_, hstart ▸ h.le_now, htimeline ▸ h.now_lt, ?_, fun tally => ?_,
    fun queue => ?_,
    fun queue q hq => ?_, fun queue hq => ?_, ?_, fun k s c hs hc => ?_⟩
  · rw [hstart, htimeline]
    exact h.windowStart
  · rw [hstart, hend]
    exact h.windowEnd
  · exact List.forall_mem_append.mpr ⟨h.times, List.forall_mem_singleton.mpr (hop ▸ le_rfl)⟩
  · have hle : m.windowStart.nanos ≤ op.time.nanos := hop ▸ h.le_now
    rw [htally, h.tally, hstart, List.countP_append]
    cases hc : op.counted tally <;> simp [hc, hle]
  · have hq := h.queues queue
    rw [hlengths, hqueues, hstart]
    cases hl : op.length? queue with
    | none => simpa using hq
    | some o =>
      have ho : o.1 = now.nanos := by
        have ho : o ∈ lengths queue [op] := by simp [lengths, hl]
        obtain ⟨op', hmem, e⟩ := exists_of_mem_lengths ho
        rw [← e, List.mem_singleton.mp hmem, hop]
      rw [← Prod.mk.eta (p := o), ho]
      exact hq.observeLen (hlast queue) o.2
  · rw [hqueues] at hq
    cases hl : op.length? queue with
    | none =>
      rw [hl] at hq
      exact h.lastTime queue q hq
    | some o =>
      rw [hl] at hq
      cases hq
      exact le_rfl
  · rw [hqueues] at hq
    cases hl : op.length? queue with
    | none =>
      rw [hl] at hq
      rw [hlengths, hl, h.absent queue hq]
      rfl
    | some o =>
      rw [hl] at hq
      cases hq
  · rw [hclosed, htimeline]
    exact h.closed
  · rw [htimeline] at hs
    rw [hclosed] at hc
    refine (h.windows k s c hs hc).append (List.forall_mem_singleton.mpr ?_)
    have hk : k < m.timeline.length := (List.getElem?_eq_some_iff.mp hs).1
    calc start.nanos + (k + 1) * cfg.window ≤ start.nanos + m.timeline.length * cfg.window :=
          Nat.add_le_add_left (Nat.mul_le_mul_right _ hk) _
      _ = m.windowStart.nanos := h.windowStart.symm
      _ ≤ op.time.nanos := hop ▸ h.le_now

end

section
variable [Histogram η] {m m' : Monitor η}

/-- What closing a window does: the summary that is added, and the monitor that is left. -/
theorem flushWindow_eq (m : Monitor η) (stop : SimTime) :
    ∃ summary baseline baselineWindowsSeen recoveredHold metastablePersist,
      m.flushWindow stop = { m with
        timeline := m.timeline ++ [summary]
        closed := m.closed ++ [m.queues.mapValues (·.finalizeWindow stop)]
        windowStart := stop
        windowEnd := stop + .fromDuration m.cfg.window
        queues := m.queues.mapValues fun q => (q.finalizeWindow stop).resetForNextWindow stop
        completedInTime := 0, completedLate := 0, dropped := 0, timeouts := 0, retries := 0
        latencySumMs := 0.0, latencyCount := 0, latencyHist := m.latencyHist.map Histogram.reset
        baseline, baselineWindowsSeen, recoveredHold, metastablePersist } ∧
      summary.windowStart = m.windowStart ∧ summary.windowEnd = stop ∧
      (∀ tally : Tally, tally.ofSummary summary = tally.ofMonitor m) ∧
      summary.queueMax = ((m.queues.mapValues (·.finalizeWindow stop)).entries.map
        (·.2.max)).foldr Max.max 0 := by
  obtain ⟨distance, baseline, seen, hold, persist, h⟩ :=
    m.assess_eq (m.summarize (m.queues.mapValues (·.finalizeWindow stop)) stop)
  refine ⟨(m.assess (m.summarize (m.queues.mapValues (·.finalizeWindow stop)) stop)).1, baseline, seen,
    hold, persist, ?_⟩
  rw [flushWindow, h, AList.mapValues_mapValues]
  refine ⟨rfl, rfl, rfl, fun tally => ?_, queueTotals_max⟩
  cases tally <;> rfl

/-- Closing the window that is open, before or at a time to which nothing saturates. -/
theorem Inv.flushWindow {t : Nat} (h : Inv cfg start ops m t) (hn : m.windowEnd ≤ now)
    (hsat : Unsaturated cfg start now) :
    Inv cfg start ops (m.flushWindow m.windowEnd) m.windowEnd.nanos := by
  have he := h.nanos_windowEnd hn hsat
  have hend : t < m.windowEnd.nanos := he ▸ h.now_lt
  have hpos := h.window_pos
  obtain ⟨summary, baseline, seen, hold, persist, heq, hstart, hstop, htally, hmax⟩ :=
    m.flushWindow_eq m.windowEnd
  have hexact := h.exact hend he hstart hstop htally hmax
  rw [heq]
  refine ⟨h.config, ?_, h.config ▸ rfl, le_rfl, ?_, fun op hop => ((h.times op hop).trans hend.le),
    fun tally => ?_,
    fun queue => ?_, fun queue q hq => ?_, fun queue hq => ?_, ?_, fun k s c hs hc => ?_⟩
  · rw [List.length_append, List.length_singleton]
    exact he
  · rw [List.length_append, List.length_singleton, he]
    exact Nat.add_lt_add_left (Nat.mul_lt_mul_of_pos_right (Nat.lt_succ_self _) hpos) _
  · have hnone :
        ops.countP (fun op => op.counted tally && decide (m.windowEnd.nanos ≤ op.time.nanos)) = 0 := by
      refine List.countP_eq_zero.mpr fun op hop => ?_
      have hlt := (h.times op hop).trans_lt hend
      simp [hlt]
    rw [hnone]
    cases tally <;> rfl
  · have hreset := (h.queues queue).resetForNextWindow (h.finalized hend queue).1
    rw [AList.lookup_mapValues]
    cases hl : m.queues.lookup queue with
    | none =>
      rw [h.absent queue hl]
      exact .new
    | some q =>
      rw [hl] at hreset
      exact hreset
  · rw [AList.lookup_mapValues] at hq
    obtain ⟨q', -, rfl⟩ := Option.map_eq_some_iff.mp hq
    exact le_rfl
  · rw [AList.lookup_mapValues] at hq
    exact h.absent queue (Option.map_eq_none_iff.mp hq)
  · rw [List.length_append, List.length_append, h.closed]
    rfl
  · rcases lt_or_ge k m.timeline.length with hk | hk
    · rw [List.getElem?_append_left hk] at hs
      rw [List.getElem?_append_left (h.closed ▸ hk)] at hc
      exact h.windows k s c hs hc
    · rw [List.getElem?_append_right hk] at hs
      rw [List.getElem?_append_right (h.closed ▸ hk), h.closed] at hc
      obtain ⟨hk', rfl⟩ := List.getElem?_eq_some_iff.mp hs
      obtain ⟨-, rfl⟩ := List.getElem?_eq_some_iff.mp hc
      have hk'' : k = m.timeline.length := by
        rw [List.length_singleton] at hk'
        omega
      subst hk''
      simpa using hexact

/-- The loop of `flush_up_to` comes to its end, in the window that has the time. -/
theorem Inv.flushWindows {t n : Nat} (h : Inv cfg start ops m t) (ht : t ≤ now.nanos)
    (hsat : Unsaturated cfg start now) (hn : now.nanos < m.windowEnd.nanos + n) :
    ∃ m' t', m.flushWindows now n = some m' ∧ Inv cfg start ops m' t' ∧ t' ≤ now.nanos ∧
    now < m'.windowEnd := by
  induction n generalizing m t with
  | zero =>
    have hlt : now < m.windowEnd := lt_of_not_ge fun hle => by
      rw [SimTime.le_def] at hle
      omega
    refine ⟨m, t, ?_, h, ht, hlt⟩
    rw [Monitor.flushWindows, if_neg (not_le.mpr hlt)]
  | succ n ih =>
    rw [Monitor.flushWindows]
    split
    · rename_i hle
      have hnext := h.flushWindow hle hsat
      refine ih hnext hle ?_
      by_cases hnow : (m.flushWindow m.windowEnd).windowEnd ≤ now
      · -- The next window ends later than this one.
        have he := h.nanos_windowEnd hle hsat
        have he' := hnext.nanos_windowEnd hnow hsat
        have hpos := h.window_pos
        have hlen : (m.flushWindow m.windowEnd).timeline.length = m.timeline.length + 1 := by
          obtain ⟨_, _, _, _, _, heq, -⟩ := m.flushWindow_eq m.windowEnd
          rw [heq, List.length_append, List.length_singleton]
        rw [hlen, Nat.add_mul (m := 1)] at he'
        omega
      · rw [SimTime.le_def] at hnow
        omega
    · rename_i hgt
      exact ⟨m, t, rfl, h, ht, not_le.mp hgt⟩

theorem Inv.flushUpTo {t : Nat} (h : Inv cfg start ops m t) (ht : t ≤ now.nanos)
    (hsat : Unsaturated cfg start now) :
    ∃ m', m.flushUpTo now = some m' ∧ Inv cfg start ops m' now.nanos := by
  obtain ⟨m', t', hm, h', ht', hn⟩ := h.flushWindows ht hsat (n := now.nanos + 1) (by omega)
  exact ⟨_, by rw [Monitor.flushUpTo, hm]; rfl, h'.flushIdle ht' hn⟩

/-- One call, at a time to which nothing saturates. -/
theorem Inv.apply {t : Nat} (h : Inv cfg start ops m t) {op : Op} (ht : t ≤ op.time.nanos)
    (hsat : Unsaturated cfg start op.time) :
    ∃ m', m.apply op = some m' ∧ Inv cfg start (ops ++ [op]) m' op.time.nanos := by
  obtain ⟨m₁, hm₁, h₁⟩ := h.flushUpTo ht hsat
  cases op with
  | flush now => exact ⟨m₁, hm₁, h₁.append rfl ⟨rfl, rfl, rfl, rfl, rfl⟩ (fun tally => rfl) fun queue => rfl⟩
  | observe now observation =>
    refine ⟨m₁.observed now observation, ?_, ?_⟩
    · rw [Monitor.apply, show m.flushUpTo now = some m₁ from hm₁, Option.map_some]
    cases observation with
    | queueLen q len =>
      refine h₁.append rfl ⟨rfl, rfl, rfl, rfl, rfl⟩ (fun tally => by cases tally <;> rfl) fun queue => ?_
      rw [Monitor.observed, AList.lookup_upsert, Op.length?]
      by_cases e : queue = q
      · rw [if_pos e, if_pos e.symm, e]
        rfl
      · rw [if_neg e, if_neg (Ne.symm e)]
        rfl
    | complete latency inTime =>
      cases inTime with
      | true =>
        exact h₁.append rfl ⟨rfl, rfl, rfl, rfl, rfl⟩ (fun tally => by cases tally <;> rfl) fun queue => rfl
      | false =>
        exact h₁.append rfl ⟨rfl, rfl, rfl, rfl, rfl⟩ (fun tally => by cases tally <;> rfl) fun queue => rfl
    | _ =>
      exact h₁.append rfl ⟨rfl, rfl, rfl, rfl, rfl⟩ (fun tally => by cases tally <;> rfl) fun queue => rfl

/-- Calls in the order of their times. -/
theorem Inv.run {t : Nat} (h : Inv cfg start ops m t) (hsorted : ops'.Pairwise fun a b => a.time ≤ b.time)
    (ht : ∀ op ∈ ops', t ≤ op.time.nanos) (hsat : ∀ op ∈ ops', Unsaturated cfg start op.time) :
    ∃ m', m.run ops' = some m' ∧ Inv cfg start (ops ++ ops') m'
      ((ops'.getLast?.map (·.time.nanos)).getD t) := by
  induction ops' generalizing ops m t with
  | nil => exact ⟨m, rfl, by simpa using h⟩
  | cons op ops' ih =>
    obtain ⟨hop, hsorted⟩ := List.pairwise_cons.mp hsorted
    obtain ⟨ht, -⟩ := List.forall_mem_cons.mp ht
    obtain ⟨hs, hsat⟩ := List.forall_mem_cons.mp hsat
    obtain ⟨m₁, hm₁, h₁⟩ := h.apply ht hs
    obtain ⟨m₂, hm₂, h₂⟩ := ih h₁ hsorted (fun op' hop' => hop op' hop') hsat
    refine ⟨m₂, by rw [Monitor.run, hm₁, Option.bind_some, hm₂], ?_⟩
    rw [List.append_assoc, List.singleton_append] at h₂
    cases ops' with
    | nil => exact h₂
    | cons op' ops' =>
      have hne : (op' :: ops').getLast? = some ((op' :: ops').getLast (List.cons_ne_nil _ _)) :=
        List.getLast?_eq_some_getLast _
      rw [List.getLast?_cons_cons, hne]
      rw [hne] at h₂
      exact h₂

theorem inv_new (hm : Monitor.new cfg start = some m) (hw : 0 < cfg.window) :
    Inv cfg start [] m start.nanos := by
  obtain ⟨hist, -, rfl⟩ := Option.map_eq_some_iff.mp hm
  refine ⟨rfl, by simp, rfl, le_rfl, by simpa using hw, List.forall_mem_nil _,
    fun tally => by cases tally <;> rfl,
    fun queue => .new, fun queue q hq => ?_, fun queue _ => rfl, rfl, fun k s c hs => ?_⟩
  · rw [AList.lookup_empty] at hq
    cases hq
  · cases hs

/-! ## Calls of `flush_up_to` between the others -/

end

end Monitor

/-- Time without a change, in two parts. -/
theorem QueueState.elapsed {len : Nat} {a b c : SimTime} (hab : a ≤ b) (hbc : b ≤ c) (n : Nat) :
    n + len * b.durationSince a + len * c.durationSince b = n + len * c.durationSince a := by
  rw [SimTime.le_def] at hab hbc
  rw [Nat.add_assoc, ← Nat.mul_add]
  simp only [SimTime.durationSince]
  congr 2
  omega

theorem QueueState.finalizeWindow_idle {q : QueueState} {now stop : SimTime} (hq : q.len ≤ q.max)
    (hn : q.lastTime ≤ now) (hs : now ≤ stop) :
    (q.idle now).finalizeWindow stop = q.finalizeWindow stop := by
  simp only [idle, observeLen, finalizeWindow, max_eq_left hq, elapsed hn hs]

theorem QueueState.idle_idle {q : QueueState} {now now' : SimTime} (hq : q.len ≤ q.max)
    (hn : q.lastTime ≤ now) (hs : now ≤ now') : (q.idle now).idle now' = q.idle now' := by
  simp only [idle, observeLen, max_eq_left hq, elapsed hn hs]

namespace Monitor

section
variable {η : Type} {cfg : MonitorConfig} {start now now' : SimTime} {ops ops' : List Op} {m m' : Monitor η} {t : Nat}

/-- What `f` and `g` do to every queue of the monitor is the same. -/
theorem Inv.mapValues_congr (h : Inv cfg start ops m t) {β : Type} {f g : QueueState → β}
    (hfg : ∀ q : QueueState, q.len ≤ q.max → q.lastTime.nanos ≤ t → f q = g q) :
    m.queues.mapValues f = m.queues.mapValues g := by
  refine AList.mapValues_congr fun e he => ?_
  have hl := AList.mem_entries_iff.mp he
  have hq := h.queues e.1
  rw [hl] at hq
  exact hfg e.2 hq.len_le_max (h.lastTime e.1 e.2 hl)

theorem Inv.flushIdle_flushIdle (h : Inv cfg start ops m t) (ht : t ≤ now.nanos) (hs : now ≤ now') :
    (m.flushIdle now).flushIdle now' = m.flushIdle now' := by
  simp only [Monitor.flushIdle, AList.mapValues_mapValues]
  rw [h.mapValues_congr fun q hq hl => QueueState.idle_idle hq (hl.trans ht) hs]

variable [Histogram η]

theorem Inv.flushWindow_flushIdle (h : Inv cfg start ops m t) (ht : t ≤ now.nanos) {stop : SimTime}
    (hs : now ≤ stop) :
    (m.flushIdle now).flushWindow stop = m.flushWindow stop := by
  have hqueues : (m.flushIdle now).queues.mapValues (·.finalizeWindow stop) = m.queues.mapValues
      (·.finalizeWindow stop) := by
    rw [Monitor.flushIdle, AList.mapValues_mapValues]
    exact h.mapValues_congr fun q hq hl => QueueState.finalizeWindow_idle hq (hl.trans ht) hs
  have hsummary : ∀ queues, (m.flushIdle now).summarize queues stop = m.summarize queues stop := fun _ => rfl
  have hassess : ∀ s, (m.flushIdle now).assess s = ((m.assess s).1, (m.assess s).2.flushIdle now) :=
    fun s => by
    simp only [assess]
    by_cases hseen : m.baselineWindowsSeen < m.cfg.baselineWarmupWindows
    · rw [if_pos hseen, if_pos (show (m.flushIdle now).baselineWindowsSeen <
        (m.flushIdle now).cfg.baselineWarmupWindows from hseen)]
      rfl
    · rw [if_neg hseen, if_neg (show ¬ (m.flushIdle now).baselineWindowsSeen <
        (m.flushIdle now).cfg.baselineWarmupWindows from hseen)]
      by_cases hd : m.baseline.distance (features m.cfg s) ≤ m.cfg.baselineEpsilon
      · rw [if_pos hd, if_pos (show (m.flushIdle now).baseline.distance (features (m.flushIdle now).cfg s) ≤
          (m.flushIdle now).cfg.baselineEpsilon from hd)]
        rfl
      · rw [if_neg hd, if_neg (show ¬ (m.flushIdle now).baseline.distance (features (m.flushIdle now).cfg s) ≤
          (m.flushIdle now).cfg.baselineEpsilon from hd)]
        rfl
  rw [Monitor.flushWindow, Monitor.flushWindow, hqueues, hsummary, hassess]
  rfl

/-- More iterations than the loop needs change nothing. -/
theorem flushWindows_add {n : Nat} (h : m.flushWindows now n = some m') (d : Nat) :
    m.flushWindows now (n + d) = some m' := by
  induction n generalizing m with
  | zero =>
    rw [flushWindows] at h
    split at h
    · cases h
    · rename_i hgt
      cases h
      cases d with
      | zero => rw [flushWindows, if_neg hgt]
      | succ d => rw [Nat.zero_add, flushWindows, if_neg hgt]
  | succ n ih =>
    rw [flushWindows] at h
    rw [Nat.add_right_comm, flushWindows]
    split at h
    · rename_i hle
      rw [if_pos hle]
      exact ih h
    · rename_i hgt
      rw [if_neg hgt]
      exact h

/-- The loop up to a time goes on to a later one as if it had begun with it. -/
theorem flushWindows_trans {n n' : Nat} (h : m.flushWindows now n = some m') (hn : now ≤ now')
    {m'' : Monitor η} (h' : m'.flushWindows now' n' = some m'') :
    m.flushWindows now' (n + n') = some m'' := by
  induction n generalizing m with
  | zero =>
    rw [flushWindows] at h
    split at h
    · cases h
    · cases h
      rwa [Nat.zero_add]
  | succ n ih =>
    rw [flushWindows] at h
    split at h
    · rename_i hle
      rw [Nat.add_right_comm, flushWindows, if_pos (hle.trans hn)]
      exact ih h
    · cases h
      rw [Nat.add_comm]
      exact flushWindows_add h' _

/-- A call of `flush_up_to` before a later one is as if it had not been made. -/
theorem Inv.flushUpTo_flushUpTo (h : Inv cfg start ops m t) (ht : t ≤ now.nanos) (hn : now ≤ now')
    (hsat : Unsaturated cfg start now') : (m.flushUpTo now).bind (·.flushUpTo now') = m.flushUpTo now' := by
  obtain ⟨m₁, t₁, hm₁, h₁, ht₁, hlt⟩ := h.flushWindows ht (unsaturated_of_le hsat hn)
    (n := now.nanos + 1) (by omega)
  obtain ⟨m₂, t₂, hm₂, h₂, ht₂, hlt₂⟩ := h₁.flushWindows (ht₁.trans hn) hsat (n := now'.nanos + 1) (by omega)
  obtain ⟨m₃, t₃, hm₃, -⟩ := h.flushWindows (ht.trans hn) hsat (n := now'.nanos + 1) (by omega)
  -- Both ways the loop closes the same windows.
  have hsame : m₃ = m₂ := by
    have := flushWindows_add hm₃ (now.nanos + 1)
    rw [Nat.add_comm, flushWindows_trans hm₁ hn hm₂] at this
    exact (Option.some.inj this).symm
  subst hsame
  have hidle := h₁.flushIdle ht₁ hlt
  simp only [Monitor.flushUpTo, hm₁, hm₃, Option.map_some, Option.bind_some]
  rw [Monitor.flushWindows] at hm₂ ⊢
  split at hm₂
  · rename_i hle
    rw [if_pos (show (m₁.flushIdle now).windowEnd ≤ now' from hle)]
    rw [show (m₁.flushIdle now).flushWindow (m₁.flushIdle now).windowEnd = m₁.flushWindow m₁.windowEnd from
      h₁.flushWindow_flushIdle ht₁ hlt.le, hm₂, Option.map_some]
  · rename_i hgt
    cases hm₂
    rw [if_neg (show ¬ (m₁.flushIdle now).windowEnd ≤ now' from hgt), Option.map_some,
      h₁.flushIdle_flushIdle ht₁ hn]

/-- Whether the call observes something. -/
def Op.observes : Op → Bool
  | .observe .. => true
  | .flush _ => false

/-- Calls in the order of their times, and then one of `flush_up_to`, are as those of them that
observe something, and then that one. -/
theorem Inv.run_filter (h : Inv cfg start ops m t)
    (hsorted : ops'.Pairwise fun a b => a.time ≤ b.time) (ht : ∀ op ∈ ops', t ≤ op.time.nanos)
    {stop : SimTime} (hstop : ∀ op ∈ ops', op.time ≤ stop) (hts : t ≤ stop.nanos)
    (hsat : Unsaturated cfg start stop) :
    (m.run ops').bind (·.flushUpTo stop) = (m.run (ops'.filter Op.observes)).bind (·.flushUpTo stop) := by
  induction ops' generalizing ops m t with
  | nil => rfl
  | cons op ops' ih =>
    obtain ⟨hop, hrest⟩ := List.pairwise_cons.mp hsorted
    obtain ⟨hto, -⟩ := List.forall_mem_cons.mp ht
    obtain ⟨hs, hstops⟩ := List.forall_mem_cons.mp hstop
    obtain ⟨m₁, hm₁, h₁⟩ := h.apply hto (unsaturated_of_le hsat hs)
    have ih := ih h₁ hrest hop hstops hs
    rw [Monitor.run, hm₁, Option.bind_some, ih]
    cases op with
    | observe now observation =>
      rw [List.filter_cons_of_pos (by rfl), Monitor.run, hm₁, Option.bind_some]
    | flush now =>
      have hflush : ∀ now', now ≤ now' → Unsaturated cfg start now' →
          m₁.flushUpTo now' = m.flushUpTo now' := by
        intro now' hn hsat'
        have hcall : m.flushUpTo now = some m₁ := hm₁
        have htwice : (m.flushUpTo now).bind (·.flushUpTo now') = m.flushUpTo now' :=
          h.flushUpTo_flushUpTo hto hn hsat'
        rwa [hcall, Option.bind_some] at htwice
      rw [List.filter_cons_of_neg (by exact Bool.false_ne_true)]
      cases hfilter : ops'.filter Op.observes with
      | nil => exact hflush stop hs hsat
      | cons op' rest =>
        obtain ⟨hmem, hobs⟩ := List.mem_filter.mp
          (hfilter ▸ List.mem_cons_self : op' ∈ ops'.filter Op.observes)
        cases op' with
        | flush now' => cases hobs
        | observe now' observation =>
          simp only [Monitor.run, Monitor.apply]
          rw [hflush now' (hop _ hmem) (unsaturated_of_le hsat (hstops _ hmem))]

/-- Lengths that are `u64` never make the `u128` of an integral overflow. -/
theorem Exact.integral_lt {k : Nat} {summary : WindowSummary}
    {queues : AList fun _ : QueueId => QueueState} (h : Exact cfg start ops k summary queues)
    {queue : QueueId} (hlen : ∀ o ∈ lengths queue ops, o.2 ≤ u64Max) :
    ((queues.lookup queue).map (·.integralLenNanos)).getD 0 < 2 ^ 128 := by
  have hend := h.windowEnd
  have hmax := summary.windowEnd.le_max
  have hwindow : start.nanos + (k + 1) * cfg.window - (start.nanos + k * cfg.window) ≤ u64Max := by omega
  rw [h.integral]
  calc StepFunction.integral (lengths queue ops) _ _
      ≤ u64Max * (start.nanos + (k + 1) * cfg.window - (start.nanos + k * cfg.window)) := integral_le hlen
    _ ≤ u64Max * u64Max := Nat.mul_le_mul_left _ hwindow
    _ < 2 ^ 128 := by decide

/-- The maximum of a queue is the greatest length that it has in the window, if its length is not
observed at the beginning of the window nor twice at one instant. -/
theorem Exact.isGreatest_valueAt {k : Nat} {summary : WindowSummary}
    {queues : AList fun _ : QueueId => QueueState} (h : Exact cfg start ops k summary queues)
    (hw : 0 < cfg.window) {queue : QueueId} (honce : (lengths queue ops).Pairwise fun o o' => o.1 < o'.1)
    (hne : ∀ o ∈ lengths queue ops, o.1 ≠ start.nanos + k * cfg.window) :
    IsGreatest {v | ∃ t, start.nanos + k * cfg.window ≤ t ∧ t < start.nanos + (k + 1) * cfg.window ∧
      valueAt (lengths queue ops) t = v} (((queues.lookup queue).map (·.max)).getD 0) := by
  have hlt : start.nanos + k * cfg.window < start.nanos + (k + 1) * cfg.window :=
    Nat.add_lt_add_left (Nat.mul_lt_mul_of_pos_right (Nat.lt_succ_self k) hw) _
  rw [← seenIn_eq_valueAt hlt honce hne]
  exact h.max queue

end

end Monitor

open Monitor in
/-- The windows of a monitor that is called in the order of the times, from its start on, where no
time saturates: they follow each other from the start on, each is exact, and the last call is in the
one that is open. The maximum of a queue is the greatest length that it has in the window, if its
length is not observed at the beginning of the window nor twice at one instant. Calls of
`flush_up_to` between the others change nothing. -/
theorem Monitor.run_windows {η : Type} [Histogram η] {cfg : MonitorConfig} {start : SimTime} {m₀ : Monitor η}
    (hnew : Monitor.new cfg start = some m₀) (hw : 0 < cfg.window) {ops : List Op}
    (hsorted : ops.Pairwise fun a b => a.time ≤ b.time) (hstart : ∀ op ∈ ops, start ≤ op.time)
    (hsat : ∀ op ∈ ops, Unsaturated cfg start op.time) :
    ∃ m, m₀.run ops = some m ∧ m.closed.length = m.timeline.length ∧
      (∀ op ∈ ops.getLast?, m.timeline.length = (op.time.nanos - start.nanos) / cfg.window) ∧
      (∀ k summary queues, m.timeline[k]? = some summary → m.closed[k]? = some queues →
        Exact cfg start ops k summary queues ∧
        (∀ queue, (∀ o ∈ lengths queue ops, o.2 ≤ u64Max) → ((queues.lookup queue).map (·.integralLenNanos)).getD 0 < 2 ^ 128) ∧
        ∀ queue, (lengths queue ops).Pairwise (fun o o' => o.1 < o'.1) →
          (∀ o ∈ lengths queue ops, o.1 ≠ start.nanos + k * cfg.window) →
          IsGreatest {v | ∃ t, start.nanos + k * cfg.window ≤ t ∧ t < start.nanos + (k + 1) * cfg.window ∧
            valueAt (lengths queue ops) t = v} (((queues.lookup queue).map (·.max)).getD 0)) ∧
      ∀ (ops' : List Op) (stop : SimTime), ops'.Pairwise (fun a b => a.time ≤ b.time) → (∀ op ∈ ops', start ≤ op.time) →
        ops'.filter Op.observes = ops.filter Op.observes → start ≤ stop → (∀ op ∈ ops ++ ops', op.time ≤ stop) →
        Unsaturated cfg start stop →
        (m₀.run ops').bind (·.flushUpTo stop) = (m₀.run ops).bind (·.flushUpTo stop) := by
  have h₀ := inv_new hnew hw
  obtain ⟨m, hm, h⟩ := h₀.run hsorted hstart hsat
  rw [List.nil_append] at h
  refine ⟨m, hm, h.closed, fun op hop => ?_, fun k summary queues hs hc => ?_,
    fun ops' stop hsorted' hstart' hsame hts hstop hsat' => ?_⟩
  · have hle := h.le_now
    have hlt := h.now_lt
    rw [h.windowStart, Option.mem_def.mp hop] at hle
    rw [Option.mem_def.mp hop] at hlt
    refine (Nat.div_eq_of_lt_le ?_ ?_).symm
    · exact Nat.le_sub_of_add_le (Nat.add_comm _ _ ▸ hle)
    · exact Nat.sub_lt_left_of_lt_add (hstart op (List.mem_of_getLast? hop)) hlt
  · have hexact := h.windows k summary queues hs hc
    exact ⟨hexact, fun queue hlen => hexact.integral_lt hlen,
      fun queue honce hne => hexact.isGreatest_valueAt hw honce hne⟩
  · obtain ⟨hops, hops'⟩ := List.forall_mem_append.mp hstop
    rw [h₀.run_filter hsorted' hstart' hops' hts hsat', hsame, h₀.run_filter hsorted hstart hops hts hsat']

/-- No histogram is kept by a monitor that does not track quantiles. -/
instance : Histogram Unit := ⟨fun _ _ _ => none, fun _ _ => (), fun _ => true, fun _ _ => 0, fun _ => ()⟩

/-- A queue that is first observed within a window, and then on a boundary, a drop on a boundary, and
windows in which nothing is observed. -/
def boundaryCalls : List Monitor.Op :=
  [.observe (.saturate 3) (.queueLen ⟨1⟩ 5), .observe (.saturate 10) .drop, .observe (.saturate 20) (.queueLen ⟨1⟩ 2),
    .observe (.saturate 27) (.queueLen ⟨1⟩ 0), .flush (.saturate 40)]

theorem Monitor.run_windows_boundary : ∃ m₀ m : Monitor Unit,
    Monitor.new { window := 10, trackLatencyQuantiles := false } .zero = some m₀ ∧ m₀.run boundaryCalls = some m ∧
      m.timeline.map (fun w => (w.windowEnd.nanos, w.dropped, w.queueMax)) =
        [(10, 0, 5), (20, 1, 5), (30, 0, 5), (40, 0, 0)] ∧
      m.closed.map (fun queues => (queues.lookup ⟨1⟩).map (·.integralLenNanos)) =
        [some 35, some 50, some 14, some 0] ∧
      m.timeline.length = 4 := by
  obtain ⟨m, hm, -, hlast, -⟩ :=
    @run_windows Unit _ { window := 10, trackLatencyQuantiles := false } .zero _ rfl (by decide)
    boundaryCalls (by decide) (by decide) (by unfold Unsaturated; decide)
  refine ⟨_, m, rfl, hm, ?_, ?_, hlast (.flush (.saturate 40)) rfl⟩
  · cases hm
    rfl
  · cases hm
    rfl

/-- A length that changes on a boundary. -/
def boundaryLength : List Monitor.Op :=
  [.observe .zero (.queueLen ⟨1⟩ 5), .observe (.saturate 10) (.queueLen ⟨1⟩ 3), .flush (.saturate 20)]

/-- The length is 3 in the whole second window, and the maximum of the window is 5; and a drop from
before the start of the monitor is counted in the first window. -/
theorem Monitor.not_windowed :
    (∃ m₀ m : Monitor Unit, Monitor.new { window := 10, trackLatencyQuantiles := false } .zero = some m₀ ∧
      m₀.run boundaryLength = some m ∧
      m.timeline.map (fun w => (w.windowStart.nanos, w.windowEnd.nanos, w.queueMax)) = [(0, 10, 5), (10, 20, 5)] ∧
      ∀ t, 10 ≤ t → t < 20 → valueAt (lengths ⟨1⟩ boundaryLength) t = 3) ∧
    ∃ m₀ m : Monitor Unit, Monitor.new { window := 10, trackLatencyQuantiles := false } (.saturate 10) = some m₀ ∧
      m₀.run [.observe .zero .drop, .flush (.saturate 20)] = some m ∧
      m.timeline.map (fun w => (w.windowStart.nanos, w.windowEnd.nanos, w.dropped)) = [(10, 20, 1)] := by
  refine ⟨⟨_, _, rfl, rfl, rfl, fun t ht _ => ?_⟩, _, _, rfl, rfl, rfl⟩
  have htimes : ∀ o ∈ lengths ⟨1⟩ boundaryLength, o.1 ≤ 10 := by decide
  rw [valueAt_of_le fun o ho => (htimes o ho).trans ht]
  rfl

end DesCartes.Explore
