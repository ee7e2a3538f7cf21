import DesCartes.Framework.BTreeMap
import DesCartes.Framework.HashMap
import Mathlib.Data.List.Lex
import Mathlib.Data.String.Basic

/-!
# Counters and gauges, and their export (`des-metrics/src/simulation_metrics.rs`, `recorder.rs`, `export/csv.rs`)

Strings are lists of characters. The values of gauges, which are `f64`, are a parameter, with the
text that they are displayed as. An exported file is the text that is written to it. The order of a
`HashMap` is not specified, so what is exported is a list of its entries in any order. A counter
that overflows panics.
-/

namespace DesCartes.Metrics

/-- What is done with the `f64` of a gauge. -/
class GaugeFloat (φ : Type) where
  zero : φ
  add : φ → φ → φ
  neg : φ → φ
  display : φ → List Char

/-- `MetricKey`. -/
structure MetricKey where
  name : List Char
  labels : BTreeMap (List Char) (List Char)

/-- `MetricKey::new` and `MetricKey::from_owned`. -/
def MetricKey.new (name : List Char) (labels : List (List Char × List Char)) : MetricKey :=
  ⟨name, labels.foldl (fun m e => m.insert e.1 e.2) .empty⟩

theorem MetricKey.ext_iff' {k k' : MetricKey} :
    k = k' ↔ k.name = k'.name ∧ k.labels.entries = k'.labels.entries := by
  obtain ⟨name, ⟨entries, sorted⟩⟩ := k
  obtain ⟨name', ⟨entries', sorted'⟩⟩ := k'
  simp

instance : DecidableEq MetricKey := fun _ _ => decidable_of_iff _ MetricKey.ext_iff'.symm

/-- `MetricStorage`, without the histograms. -/
structure MetricStorage (φ : Type) where
  counters : AList fun _ : MetricKey => Nat
  gauges : AList fun _ : MetricKey => φ

/-- An operation on the metrics, or of a handle of the recorder. -/
inductive MetricOp (φ : Type) where
  /-- `increment_counter_by`, and `increment` of a counter handle. -/
  | incrementCounterBy (name : List Char) (value : Nat) (labels : List (List Char × List Char))
  /-- `set_counter_absolute_owned`, for `absolute` of a counter handle. -/
  | setCounterAbsolute (name : List Char) (value : Nat) (labels : List (List Char × List Char))
  /-- `record_gauge`, and `set` of a gauge handle. -/
  | recordGauge (name : List Char) (value : φ) (labels : List (List Char × List Char))
  /-- `increment_gauge_owned`, for `increment` of a gauge handle. -/
  | incrementGauge (name : List Char) (delta : φ) (labels : List (List Char × List Char))
  /-- `decrement` of a gauge handle. -/
  | decrementGauge (name : List Char) (delta : φ) (labels : List (List Char × List Char))
  /-- `reset_metrics`, and `clear`. -/
  | resetMetrics

namespace MetricStorage

variable {φ : Type} [GaugeFloat φ]

def empty : MetricStorage φ := ⟨∅, ∅⟩

/-- `increment_counter_by` and `increment_counter_by_owned`. -/
def incrementCounterBy (m : MetricStorage φ) (key : MetricKey) (value : Nat) : Option (MetricStorage φ) :=
  if (m.counters.lookup key).getD 0 + value < 2 ^ 64 then
    some { m with counters := m.counters.upsert key 0 (· + value) }
  else none

/-- `set_counter_absolute_owned`. -/
def setCounterAbsolute (m : MetricStorage φ) (key : MetricKey) (value : Nat) : MetricStorage φ :=
  { m with counters := m.counters.upsert key 0 fun entry => if value > entry then value else entry }

/-- `increment_gauge_owned`. -/
def incrementGauge (m : MetricStorage φ) (key : MetricKey) (delta : φ) : MetricStorage φ :=
  { m with gauges := m.gauges.upsert key GaugeFloat.zero (GaugeFloat.add · delta) }

/-- One operation; none where it panics. -/
def step (m : MetricStorage φ) : MetricOp φ → Option (MetricStorage φ)
  | .incrementCounterBy name value labels => m.incrementCounterBy (.new name labels) value
  | .setCounterAbsolute name value labels => some (m.setCounterAbsolute (.new name labels) value)
  | .recordGauge name value labels => some { m with gauges := m.gauges.insert (.new name labels) value }
  | .incrementGauge name delta labels => some (m.incrementGauge (.new name labels) delta)
  | .decrementGauge name delta labels => some (m.incrementGauge (.new name labels) (GaugeFloat.neg delta))
  | .resetMetrics => some .empty

/-- `get_counter`. -/
def getCounter (m : MetricStorage φ) (name : List Char) (labels : List (List Char × List Char)) :
    Option Nat :=
  m.counters.lookup (.new name labels)

/-- `list_counters`, in the order of the map. -/
def listCounters (m : MetricStorage φ) : List (MetricKey × Nat) :=
  m.counters.entries.map fun e => (e.1, e.2)

/-- `list_gauges`, in the order of the map. -/
def listGauges (m : MetricStorage φ) : List (MetricKey × φ) := m.gauges.entries.map fun e => (e.1, e.2)

end MetricStorage

/-! ## Export -/

/-- `format_labels`. -/
def formatLabels (labels : BTreeMap (List Char) (List Char)) : List Char :=
  if labels.entries = [] then [] else [','].intercalate (labels.entries.map fun e => e.1 ++ '=' :: e.2)

/-- `escape_csv`. -/
def escapeCsv (s : List Char) : List Char :=
  if ',' ∈ s ∨ '"' ∈ s ∨ '\n' ∈ s then
    '"' :: s.flatMap (fun c => if c = '"' then ['"', '"'] else [c]) ++ ['"']
  else s

/-- The row of a metric. -/
def exportRow (includeLabels : Bool) (key : MetricKey) (value : List Char) : List Char :=
  if includeLabels then
    escapeCsv key.name ++ ',' :: escapeCsv (formatLabels key.labels) ++ ',' :: value ++ ['\n']
  else escapeCsv key.name ++ ',' :: value ++ ['\n']

/-- The header, and a row for each metric. -/
def exportRows {α : Type} (display : α → List Char) (includeLabels : Bool)
    (metrics : List (MetricKey × α)) : List Char :=
  (if includeLabels then "metric_name,labels,value\n".toList else "metric_name,value\n".toList) ++
    metrics.flatMap fun e => exportRow includeLabels e.1 (display e.2)

/-- `export_counters`. -/
def exportCounters (includeLabels : Bool) (counters : List (MetricKey × Nat)) : List Char :=
  exportRows (Nat.toDigits 10) includeLabels counters

/-- `export_gauges`. -/
def exportGauges {φ : Type} [GaugeFloat φ] (includeLabels : Bool) (gauges : List (MetricKey × φ)) :
    List Char :=
  exportRows GaugeFloat.display includeLabels gauges

end DesCartes.Metrics
