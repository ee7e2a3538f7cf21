import DesCartes.Impl.Time
import Mathlib.Algebra.Order.Ring.Unbundled.Rat
import Mathlib.Data.Rat.Defs

/-!
# Time series (`des-metrics/src/mmk_time_series.rs`)

The values, which are `f64`, are rational numbers.
-/

namespace DesCartes.Metrics

/-- `TimeSeriesPoint`. -/
structure TimeSeriesPoint where
  timestamp : SimTime
  value : ℚ
deriving DecidableEq

/-- `ExponentialMovingAverage`. -/
structure ExponentialMovingAverage where
  alpha : ℚ
  currentValue : Option ℚ
deriving DecidableEq

namespace ExponentialMovingAverage

/-- `ExponentialMovingAverage::new`; none where it panics. -/
def new (alpha : ℚ) : Option ExponentialMovingAverage := if 0 < alpha ∧ alpha ≤ 1 then some ⟨alpha, none⟩ else none

/-- `ExponentialMovingAverage::update`. -/
def update (ema : ExponentialMovingAverage) (value : ℚ) : ExponentialMovingAverage × ℚ :=
  match ema.currentValue with
  | none => ({ ema with currentValue := some value }, value)
  | some current =>
    let newValue := ema.alpha * value + (1 - ema.alpha) * current
    ({ ema with currentValue := some newValue }, newValue)

end ExponentialMovingAverage

/-- `TimeSeriesCollector`. -/
structure TimeSeriesCollector where
  rawData : List TimeSeriesPoint
  aggregatedData : List TimeSeriesPoint
  aggregationWindow : Nat
  ema : ExponentialMovingAverage
  lastAggregation : Option SimTime
  windowSum : ℚ
  windowCount : Nat
deriving DecidableEq

namespace TimeSeriesCollector

/-- `TimeSeriesCollector::new`; none where it panics. -/
def new (aggregationWindow : Nat) (emaAlpha : ℚ) : Option TimeSeriesCollector :=
  (ExponentialMovingAverage.new emaAlpha).map fun ema => ⟨[], [], aggregationWindow, ema, none, 0, 0⟩

/-- `aggregate_window`, which is also `flush`. -/
def aggregateWindow (c : TimeSeriesCollector) (currentTimestamp : SimTime) : TimeSeriesCollector :=
  if 0 < c.windowCount then
    let windowAverage := c.windowSum / c.windowCount
    let (ema, smoothedValue) := c.ema.update windowAverage
    { c with
      aggregatedData := c.aggregatedData ++ [⟨currentTimestamp, smoothedValue⟩]
      ema
      windowSum := 0
      windowCount := 0
      lastAggregation := some currentTimestamp }
  else { c with lastAggregation := some currentTimestamp }

/-- Whether a point leads to an aggregation. -/
def shouldAggregate (c : TimeSeriesCollector) (timestamp : SimTime) : Bool :=
  match c.lastAggregation with
  | none => true
  | some last => timestamp.durationSince last ≥ c.aggregationWindow

/-- The raw data are bounded. -/
def bounded (rawData : List TimeSeriesPoint) : List TimeSeriesPoint := rawData.drop (rawData.length - 10000)

/-- `TimeSeriesCollector::add_point`. -/
def addPoint (c : TimeSeriesCollector) (timestamp : SimTime) (value : ℚ) : TimeSeriesCollector :=
  let c := { c with rawData := c.rawData ++ [(⟨timestamp, value⟩ : TimeSeriesPoint)] }
  let c :=
    if c.shouldAggregate timestamp then c.aggregateWindow timestamp
    else { c with windowSum := c.windowSum + value, windowCount := c.windowCount + 1 }
  { c with rawData := bounded c.rawData }

/-- `TimeSeriesCollector::flush`. -/
def flush (c : TimeSeriesCollector) (currentTimestamp : SimTime) : TimeSeriesCollector := c.aggregateWindow currentTimestamp

end TimeSeriesCollector

end DesCartes.Metrics
