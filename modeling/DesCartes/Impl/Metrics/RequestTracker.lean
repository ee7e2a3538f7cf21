import DesCartes.Impl.Service.Request
import Mathlib.Data.List.Sort
import Mathlib.Data.Rat.Floor

/-!
# Tracking requests (`des-metrics/src/request_tracker.rs`)

The requests and attempts that are under way and those that are completed, and the statistics of
their latencies. The percentiles, which are computed with `f64`, are exact; the other arithmetic
with `f64` is a parameter (`LatencyFloat`).
-/

namespace DesCartes.Metrics

open Service (AttemptStatus Request RequestAttempt RequestAttemptId RequestId RequestStatus)

/-- What the tracker has of `MetricsError`. -/
inductive MetricsError where
  | duplicateRequest (id : RequestId)
  | duplicateAttempt (id : RequestAttemptId)
  | requestNotFound (id : RequestId)
  | attemptNotFound (id : RequestAttemptId)
deriving DecidableEq

/-! ## Latencies -/

/-- What is computed with `f64`: the standard deviation of durations from the mean, in nanoseconds. -/
class LatencyFloat (φ : Type) where
  zero : φ
  ofNat : Nat → φ
  add : φ → φ → φ
  sub : φ → φ → φ
  mul : φ → φ → φ
  div : φ → φ → φ
  sqrt : φ → φ
  toU64 : φ → Nat

/-- `LatencyStats`. -/
structure LatencyStats where
  mean : Nat
  median : Nat
  p50 : Nat
  p95 : Nat
  p99 : Nat
  p999 : Nat
  min : Nat
  max : Nat
  stdDev : Nat
  count : Nat
deriving DecidableEq

/-- `percentile`; none where it panics. -/
def percentile (sortedDurations : List Nat) (p : ℚ) : Option Nat :=
  if sortedDurations = [] then some 0
  else
    let index := (round (p / 100 * (sortedDurations.length - 1 : Nat))).toNat
    sortedDurations[min index (sortedDurations.length - 1)]?

namespace LatencyStats

/-- `LatencyStats::default`. -/
def default : LatencyStats := ⟨0, 0, 0, 0, 0, 0, 0, 0, 0, 0⟩

/-- The sum of `u64` words; none where it overflows. -/
def sumU64 : List Nat → Nat → Option Nat
  | [], total => some total
  | n :: words, total => if total + n ≤ u64Max then sumU64 words (total + n) else none

/-- The standard deviation. -/
def stdDevOf (φ : Type) [LatencyFloat φ] (durations : List Nat) (meanNanos : Nat) : Nat :=
  let squares : List φ := durations.map fun d =>
    let diff := LatencyFloat.sub (LatencyFloat.ofNat d) (LatencyFloat.ofNat meanNanos)
    LatencyFloat.mul diff diff
  let varianceNanos := LatencyFloat.div (squares.foldl LatencyFloat.add LatencyFloat.zero) (LatencyFloat.ofNat durations.length)
  LatencyFloat.toU64 (LatencyFloat.sqrt varianceNanos)

/-- `LatencyStats::from_durations`; none where it panics. -/
def fromDurations (φ : Type) [LatencyFloat φ] (durations : List Nat) : Option LatencyStats :=
  if durations = [] then some default
  else do
    let sortedDurations := durations.insertionSort (· ≤ ·)
    let count := sortedDurations.length
    let min ← sortedDurations[0]?
    let max ← sortedDurations[count - 1]?
    let totalNanos ← sumU64 (sortedDurations.map (· % 2 ^ 64)) 0
    let mean := totalNanos / count
    let p50 ← percentile sortedDurations 50
    let p95 ← percentile sortedDurations 95
    let p99 ← percentile sortedDurations 99
    let p999 ← percentile sortedDurations (999 / 10)
    return ⟨mean, p50, p50, p95, p99, p999, min, max, stdDevOf φ sortedDurations mean, count⟩

end LatencyStats

/-! ## Requests and attempts -/

/-- `RequestTracker`. -/
structure RequestTracker where
  activeRequests : AList fun _ : RequestId => Request
  completedRequests : List Request
  activeAttempts : AList fun _ : RequestAttemptId => RequestAttempt
  completedAttempts : List RequestAttempt
  maxCompleted : Nat

namespace RequestTracker

/-- `RequestTracker::with_max_completed`; `RequestTracker::new` is that of `0`. -/
def withMaxCompleted (maxCompleted : Nat) : RequestTracker := ⟨∅, [], ∅, [], maxCompleted⟩

/-- `RequestTracker::start_request`. -/
def startRequest (t : RequestTracker) (request : Request) : RequestTracker × Except MetricsError Unit :=
  if request.id ∈ t.activeRequests then (t, .error (.duplicateRequest request.id))
  else ({ t with activeRequests := t.activeRequests.insert request.id request }, .ok ())

/-- `RequestTracker::start_attempt`. -/
def startAttempt (t : RequestTracker) (attempt : RequestAttempt) : RequestTracker × Except MetricsError Unit :=
  if attempt.id ∈ t.activeAttempts then (t, .error (.duplicateAttempt attempt.id))
  else
    let activeRequests :=
      match t.activeRequests.lookup attempt.requestId with
      | some request => t.activeRequests.insert attempt.requestId (request.addAttempt attempt.id)
      | none => t.activeRequests
    ({ t with activeRequests, activeAttempts := t.activeAttempts.insert attempt.id attempt }, .ok ())

/-- `drain(0..excess)`, of what is over the limit. -/
def enforceLimit {α : Type} (maxCompleted : Nat) (completed : List α) : List α :=
  if completed.length > maxCompleted then completed.drop (completed.length - maxCompleted) else completed

/-- `RequestTracker::enforce_completed_limit`. -/
def enforceCompletedLimit (t : RequestTracker) : RequestTracker :=
  if t.maxCompleted = 0 then t
  else { t with
    completedRequests := enforceLimit t.maxCompleted t.completedRequests
    completedAttempts := enforceLimit t.maxCompleted t.completedAttempts }

/-- `RequestTracker::complete_attempt`. -/
def completeAttempt (t : RequestTracker) (attemptId : RequestAttemptId) (status : AttemptStatus) (completedAt : SimTime) :
    RequestTracker × Except MetricsError Unit :=
  match t.activeAttempts.lookup attemptId with
  | none => (t, .error (.attemptNotFound attemptId))
  | some attempt =>
    (enforceCompletedLimit { t with
      activeAttempts := t.activeAttempts.erase attemptId
      completedAttempts := t.completedAttempts ++ [attempt.complete completedAt status] }, .ok ())

/-- `RequestTracker::complete_request`. -/
def completeRequest (t : RequestTracker) (requestId : RequestId) (status : RequestStatus) (completedAt : SimTime) :
    RequestTracker × Except MetricsError Unit :=
  match t.activeRequests.lookup requestId with
  | none => (t, .error (.requestNotFound requestId))
  | some request =>
    (enforceCompletedLimit { t with
      activeRequests := t.activeRequests.erase requestId
      completedRequests := t.completedRequests ++ [request.complete completedAt status] }, .ok ())

/-- `RequestTracker::request_latency_stats`. -/
def requestLatencyStats (φ : Type) [LatencyFloat φ] (t : RequestTracker) : Option LatencyStats :=
  LatencyStats.fromDurations φ (t.completedRequests.filterMap Request.latency)

/-- `RequestTracker::attempt_latency_stats`. -/
def attemptLatencyStats (φ : Type) [LatencyFloat φ] (t : RequestTracker) : Option LatencyStats :=
  LatencyStats.fromDurations φ (t.completedAttempts.filterMap RequestAttempt.duration)

/-- A call. -/
inductive Call where
  | startRequest (request : Request)
  | startAttempt (attempt : RequestAttempt)
  | completeAttempt (attemptId : RequestAttemptId) (status : AttemptStatus) (completedAt : SimTime)
  | completeRequest (requestId : RequestId) (status : RequestStatus) (completedAt : SimTime)
deriving DecidableEq

/-- One call, with what it returns. -/
def call (t : RequestTracker) : Call → RequestTracker × Except MetricsError Unit
  | .startRequest request => t.startRequest request
  | .startAttempt attempt => t.startAttempt attempt
  | .completeAttempt attemptId status completedAt => t.completeAttempt attemptId status completedAt
  | .completeRequest requestId status completedAt => t.completeRequest requestId status completedAt

end RequestTracker

end DesCartes.Metrics
