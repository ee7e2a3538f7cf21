import DesCartes.Framework.HashMap
import DesCartes.Impl.Time
import Mathlib.Data.Vector.Basic

/-!
# The monitor (`des-explore/src/monitor.rs`)

A `Monitor` follows queue lengths and counts events in windows of time, and compares each window
with a baseline. Its floating-point numbers are Lean's `Float`. The latency histogram, of another
package, is a parameter (`Histogram`).

`flush_up_to` closes windows in a loop that does not come to an end where a window has no length or
where the end of a window saturates; it then gives none here. The `closed` queues are not part of
the program: they record the state of the queues in which `flush_window` finds them finalized.
-/

namespace DesCartes.Explore

/-- `hdrhistogram::Histogram<u64>`. -/
class Histogram (η : Type) where
  /-- `new_with_bounds`; none where the bounds are not accepted. -/
  newWithBounds : (low high sigfig : Nat) → Option η
  /-- `record`, whose error is ignored. -/
  record : η → Nat → η
  isEmpty : η → Bool
  valueAtQuantile : η → Float → Nat
  reset : η → η

/-- `f64::max`. -/
def f64Max (x y : Float) : Float := if x.isNaN then y else if y.isNaN then x else if x ≤ y then y else x

/-- `f64::min`. -/
def f64Min (x y : Float) : Float := if x.isNaN then y else if y.isNaN then x else if x ≤ y then x else y

/-- `f64::clamp`. -/
def f64Clamp (x low high : Float) : Float := if x < low then low else if high < x then high else x

/-- `Duration::as_secs_f64`. -/
def asSecsF64 (duration : Nat) : Float := Float.ofNat (duration / 10 ^ 9) + Float.ofNat (duration % 10 ^ 9) / 1e9

/-- `QueueId`. -/
structure QueueId where
  id : Nat
deriving DecidableEq

/-- `ScoreWeights`. -/
structure ScoreWeights where
  queueMean : Float := 1.0
  retryAmplification : Float := 1.0
  timeoutRateRps : Float := 1.0
  dropRateRps : Float := 1.0
  distance : Float := 1.0

/-- `WindowSummary`. -/
structure WindowSummary where
  windowStart : SimTime
  windowEnd : SimTime
  queueMean : Float
  queueMax : Nat
  completedInTime : Nat
  completedLate : Nat
  dropped : Nat
  timeouts : Nat
  retries : Nat
  latencyMeanMs : Option Float
  latencyP95Ms : Option Float
  latencyP99Ms : Option Float
  throughputRps : Float
  timeoutRateRps : Float
  retryRateRps : Float
  dropRateRps : Float
  retryAmplification : Float
  distanceToBaseline : Option Float

/-- `MonitorConfig`, with its defaults. -/
structure MonitorConfig where
  window : Nat := 1000000000
  baselineWarmupWindows : Nat := 20
  recoveryHoldWindows : Nat := 3
  baselineEpsilon : Float := 3.0
  metastablePersistWindows : Nat := 10
  recoveryTimeLimit : Option Nat := none
  trackLatencyQuantiles : Bool := true
  latencyHistogramMaxMs : Nat := 60000
  retryAmplificationCap : Float := 100.0
  scoreWeights : ScoreWeights := {}

/-! ## The baseline -/

/-- `RunningStats`. -/
structure RunningStats where
  n : Nat
  mean : Float
  m2 : Float

/-- `RunningStats::update`. -/
def RunningStats.update (s : RunningStats) (x : Float) : RunningStats :=
  let n := s.n + 1
  let delta := x - s.mean
  let mean := s.mean + delta / Float.ofNat n
  let delta2 := x - mean
  ⟨n, mean, s.m2 + delta * delta2⟩

/-- `RunningStats::variance`. -/
def RunningStats.variance (s : RunningStats) : Float := if s.n < 2 then 0.0 else s.m2 / (Float.ofNat s.n - 1.0)

/-- `BaselineModel`: the statistics of the queue mean, the mean latency, the drop rate, the timeout
rate, the retry amplification and the throughput. -/
structure BaselineModel where
  stats : Vector RunningStats 6

namespace BaselineModel

/-- `BaselineModel::default`. -/
def default : BaselineModel := ⟨.replicate 6 ⟨0, 0.0, 0.0⟩⟩

/-- `BaselineModel::observe`. -/
def observe (b : BaselineModel) (features : Vector Float 6) : BaselineModel := ⟨b.stats.zipWith RunningStats.update features⟩

/-- `BaselineModel::mean`. -/
def mean (b : BaselineModel) : Vector Float 6 := b.stats.map (·.mean)

/-- `BaselineModel::var`. -/
def var (b : BaselineModel) : Vector Float 6 := b.stats.map fun s => f64Max s.variance 1.0

/-- `BaselineModel::distance`. -/
def distance (b : BaselineModel) (features : Vector Float 6) : Float :=
  Float.sqrt ((List.finRange 6).foldl (fun acc i =>
    let z := (features.get i - b.mean.get i) / Float.sqrt (b.var.get i)
    acc + z * z) 0.0)

end BaselineModel

/-! ## Queues -/

/-- `QueueState`. -/
structure QueueState where
  len : Nat
  max : Nat
  windowStart : SimTime
  lastTime : SimTime
  integralLenNanos : Nat
deriving DecidableEq

namespace QueueState

/-- `QueueState::new`. -/
def new (windowStart : SimTime) : QueueState := ⟨0, 0, windowStart, windowStart, 0⟩

/-- `QueueState::observe_len`. -/
def observeLen (q : QueueState) (now : SimTime) (newLen : Nat) : QueueState :=
  { q with
    integralLenNanos := q.integralLenNanos + q.len * now.durationSince q.lastTime
    lastTime := now
    len := newLen
    max := Max.max q.max newLen }

/-- What `QueueState::finalize_window` makes of the state. -/
def finalizeWindow (q : QueueState) (windowEnd : SimTime) : QueueState :=
  { q with
    integralLenNanos := q.integralLenNanos + q.len * windowEnd.durationSince q.lastTime
    lastTime := windowEnd }

/-- `QueueState::mean`. -/
def mean (q : QueueState) (windowEnd : SimTime) : Float :=
  let windowDurNanos := windowEnd.durationSince q.windowStart
  if windowDurNanos = 0 then Float.ofNat q.len else Float.ofNat q.integralLenNanos / Float.ofNat windowDurNanos

/-- `QueueState::reset_for_next_window`. -/
def resetForNextWindow (q : QueueState) (now : SimTime) : QueueState :=
  { q with windowStart := now, lastTime := now, max := q.len, integralLenNanos := 0 }

/-- What `flush_up_to` does with a queue in the current window. -/
def idle (now : SimTime) (q : QueueState) : QueueState := q.observeLen now q.len

end QueueState

/-! ## The monitor -/

/-- `Monitor`. -/
structure Monitor (η : Type) where
  cfg : MonitorConfig
  windowStart : SimTime
  windowEnd : SimTime
  queues : AList fun _ : QueueId => QueueState
  completedInTime : Nat
  completedLate : Nat
  dropped : Nat
  timeouts : Nat
  retries : Nat
  latencySumMs : Float
  latencyCount : Nat
  latencyHist : Option η
  baseline : BaselineModel
  baselineWindowsSeen : Nat
  recoveredHold : Nat
  postSpikeStart : Option SimTime
  metastablePersist : Nat
  timeline : List WindowSummary
  /-- The finalized queues of each window of the timeline. -/
  closed : List (AList fun _ : QueueId => QueueState)

namespace Monitor

/-- `MonitorStatus`. -/
structure MonitorStatus where
  windowsSeen : Nat
  recovered : Bool
  metastable : Bool
  recoveryTime : Option Nat
  lastDistance : Option Float
  score : Float

variable {η : Type}

section
variable [Histogram η]

/-- `Monitor::new`; none where it panics. -/
def new (cfg : MonitorConfig) (start : SimTime) : Option (Monitor η) :=
  (if cfg.trackLatencyQuantiles then (Histogram.newWithBounds 1 cfg.latencyHistogramMaxMs 3 : Option η).map some
    else some none).map fun latencyHist => {
      cfg
      windowStart := start
      windowEnd := start + .fromDuration cfg.window
      queues := ∅
      completedInTime := 0
      completedLate := 0
      dropped := 0
      timeouts := 0
      retries := 0
      latencySumMs := 0.0
      latencyCount := 0
      latencyHist
      baseline := .default
      baselineWindowsSeen := 0
      recoveredHold := 0
      postSpikeStart := none
      metastablePersist := 0
      timeline := []
      closed := [] }

/-- `Monitor::mark_post_spike_start`. -/
def markPostSpikeStart (m : Monitor η) (t : SimTime) : Monitor η := { m with postSpikeStart := some t }

/-- The queue mean and the queue maximum of a window that ends, from its finalized queues. -/
def queueTotals (queues : AList fun _ : QueueId => QueueState) (stop : SimTime) : Float × Nat :=
  let totals := queues.entries.foldl (fun (total : Float × Nat × Nat) q =>
    (total.1 + q.2.mean stop, max total.2.1 q.2.max, total.2.2 + 1)) (0.0, 0, 0)
  (if totals.2.2 = 0 then 0.0 else totals.1 / Float.ofNat totals.2.2, totals.2.1)

/-- The 95th and the 99th percentile of the latencies. -/
def latencyQuantiles (m : Monitor η) : Option Float × Option Float :=
  match m.latencyHist with
  | none => (none, none)
  | some hist =>
    if Histogram.isEmpty hist then (none, none)
    else (some (Float.ofNat (Histogram.valueAtQuantile hist 0.95)), some (Float.ofNat (Histogram.valueAtQuantile hist 0.99)))

/-- The summary that `flush_window` makes of the window, before it is compared with the baseline. -/
def summarize (m : Monitor η) (queues : AList fun _ : QueueId => QueueState) (stop : SimTime) : WindowSummary :=
  let (queueMean, queueMax) := queueTotals queues stop
  let windowSecs := asSecsF64 m.cfg.window
  let (p95, p99) := m.latencyQuantiles
  { windowStart := m.windowStart
    windowEnd := stop
    queueMean
    queueMax
    completedInTime := m.completedInTime
    completedLate := m.completedLate
    dropped := m.dropped
    timeouts := m.timeouts
    retries := m.retries
    latencyMeanMs := some (if m.latencyCount = 0 then 0.0 else m.latencySumMs / Float.ofNat m.latencyCount)
    latencyP95Ms := p95
    latencyP99Ms := p99
    throughputRps := Float.ofNat m.completedInTime / windowSecs
    timeoutRateRps := Float.ofNat m.timeouts / windowSecs
    retryRateRps := Float.ofNat m.retries / windowSecs
    dropRateRps := Float.ofNat m.dropped / windowSecs
    retryAmplification :=
      if m.completedInTime = 0 then 1.0 / 0.0 else Float.ofNat m.retries / Float.ofNat m.completedInTime
    distanceToBaseline := none }

/-- The features of a window. -/
def features (cfg : MonitorConfig) (w : WindowSummary) : Vector Float 6 :=
  #v[w.queueMean, w.latencyMeanMs.getD 0.0, w.dropRateRps, w.timeoutRateRps,
    f64Min w.retryAmplification cfg.retryAmplificationCap, w.throughputRps]

/-- A window is used for the baseline, or compared with it. -/
def assess (m : Monitor η) (summary : WindowSummary) : WindowSummary × Monitor η :=
  if m.baselineWindowsSeen < m.cfg.baselineWarmupWindows then
    (summary, { m with
      baseline := m.baseline.observe (features m.cfg summary)
      baselineWindowsSeen := m.baselineWindowsSeen + 1 })
  else
    let d := m.baseline.distance (features m.cfg summary)
    ({ summary with distanceToBaseline := some d },
      if d ≤ m.cfg.baselineEpsilon then { m with recoveredHold := m.recoveredHold + 1, metastablePersist := 0 }
      else { m with recoveredHold := 0, metastablePersist := m.metastablePersist + 1 })

/-- `Monitor::flush_window`. -/
def flushWindow (m : Monitor η) (stop : SimTime) : Monitor η :=
  let queues := m.queues.mapValues (·.finalizeWindow stop)
  let (summary, m) := m.assess (m.summarize queues stop)
  { m with
    timeline := m.timeline ++ [summary]
    closed := m.closed ++ [queues]
    windowStart := stop
    windowEnd := stop + .fromDuration m.cfg.window
    completedInTime := 0
    completedLate := 0
    dropped := 0
    timeouts := 0
    retries := 0
    latencySumMs := 0.0
    latencyCount := 0
    latencyHist := m.latencyHist.map Histogram.reset
    queues := queues.mapValues (·.resetForNextWindow stop) }

/-- The loop of `flush_up_to`. -/
def flushWindows (now : SimTime) : Nat → Monitor η → Option (Monitor η)
  | 0, m => if m.windowEnd ≤ now then none else some m
  | n + 1, m => if m.windowEnd ≤ now then flushWindows now n (m.flushWindow m.windowEnd) else some m

/-- The end of `flush_up_to`. -/
def flushIdle (m : Monitor η) (now : SimTime) : Monitor η := { m with queues := m.queues.mapValues (·.idle now) }

/-- `Monitor::flush_up_to`. Each window that the loop closes ends later than the one before, or it
closes the same window for ever. -/
def flushUpTo (m : Monitor η) (now : SimTime) : Option (Monitor η) :=
  (m.flushWindows now (now.nanos + 1)).map (·.flushIdle now)

/-- What is observed. -/
inductive Observation where
  | queueLen (queue : QueueId) (len : Nat)
  | drop
  | timeout
  | retry
  | complete (latency : Nat) (inTime : Bool)
deriving DecidableEq

/-- The latency of a request that was completed in time. -/
def recordLatency (m : Monitor η) (latency : Nat) : Monitor η :=
  let ms := asSecsF64 latency * 1000.0
  { m with
    latencySumMs := m.latencySumMs + ms
    latencyCount := m.latencyCount + 1
    latencyHist := m.latencyHist.map fun hist =>
      Histogram.record hist (f64Clamp ms.ceil 1.0 (Float.ofNat m.cfg.latencyHistogramMaxMs)).toUInt64.toNat }

/-- `observe_queue_len`, `observe_drop`, `observe_timeout`, `observe_retry` and `observe_complete`,
after their `flush_up_to`. -/
def observed (m : Monitor η) (now : SimTime) : Observation → Monitor η
  | .queueLen queue len =>
    { m with queues := m.queues.upsert queue (.new m.windowStart) (·.observeLen now len) }
  | .drop => { m with dropped := m.dropped + 1 }
  | .timeout => { m with timeouts := m.timeouts + 1 }
  | .retry => { m with retries := m.retries + 1 }
  | .complete latency inTime =>
    if inTime then ({ m with completedInTime := m.completedInTime + 1 } : Monitor η).recordLatency latency
    else { m with completedLate := m.completedLate + 1 }

/-- A call of one of these, or of `flush_up_to` itself. -/
inductive Op where
  | observe (now : SimTime) (observation : Observation)
  | flush (now : SimTime)
deriving DecidableEq

/-- The time of a call. -/
def Op.time : Op → SimTime
  | observe now _ => now
  | flush now => now

/-- One call. -/
def apply (m : Monitor η) : Op → Option (Monitor η)
  | .observe now observation => (m.flushUpTo now).map (·.observed now observation)
  | .flush now => m.flushUpTo now

/-- The calls, one after the other. -/
def run : List Op → Monitor η → Option (Monitor η)
  | [], m => some m
  | op :: ops, m => (m.apply op).bind (run ops)

end

/-! ## The status -/

/-- `Monitor::recovery_time`. -/
def recoveryTime (m : Monitor η) : Option Nat :=
  if m.cfg.recoveryHoldWindows ≤ m.recoveredHold then
    m.postSpikeStart.bind fun post => m.timeline.getLast?.map fun last => last.windowEnd.durationSince post
  else none

/-- `Monitor::is_metastable`. -/
def isMetastable (m : Monitor η) : Bool :=
  m.cfg.metastablePersistWindows ≤ m.metastablePersist ||
    match m.cfg.recoveryTimeLimit, m.postSpikeStart, m.timeline.getLast? with
    | some limit, some post, some last =>
      limit ≤ last.windowEnd.durationSince post && m.recoveredHold < m.cfg.recoveryHoldWindows
    | _, _, _ => false

/-- `Monitor::score`. -/
def score (m : Monitor η) (w : WindowSummary) : Float :=
  let weights := m.cfg.scoreWeights
  let s := 0.0 + weights.queueMean * w.queueMean
  let s := s + weights.retryAmplification * f64Min w.retryAmplification m.cfg.retryAmplificationCap
  let s := s + weights.timeoutRateRps * w.timeoutRateRps
  let s := s + weights.dropRateRps * w.dropRateRps
  match w.distanceToBaseline with
  | some d => s + weights.distance * d
  | none => s

/-- `Monitor::status`. -/
def status (m : Monitor η) : MonitorStatus where
  windowsSeen := m.timeline.length
  recovered := m.cfg.recoveryHoldWindows ≤ m.recoveredHold
  metastable := m.isMetastable
  recoveryTime := m.recoveryTime
  lastDistance := m.timeline.getLast?.bind (·.distanceToBaseline)
  score := (m.timeline.getLast?.map m.score).getD 0.0

end Monitor

end DesCartes.Explore
