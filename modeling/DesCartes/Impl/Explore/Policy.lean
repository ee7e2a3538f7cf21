import DesCartes.Impl.Explore.Harness
import Mathlib.Data.List.AList

/-!
# Table policies (`des-explore/src/policy.rs`)

A `TablePolicy` maps decisions to what is to be chosen there. Its hash map is a list of entries with
different keys, since `to_decision_script` goes through them, in an order that the map does not
promise. Drawing from a categorical distribution computes with floating-point weights; it is a
parameter (`Sampler`).
-/

namespace DesCartes.Explore

open AsyncRuntime (ReadyTaskPolicy)

/-- `ActionDistribution`. -/
inductive ActionDistribution where
  | deterministic (chosenId : Nat)
  | categorical (ids : List Nat) (weights : List F64)
deriving DecidableEq

/-- A random generator, and the draw from a categorical distribution. -/
class Sampler (γ : Type) where
  sample : γ → List Nat → List F64 → Option Nat × γ

/-- `TablePolicy`. -/
structure TablePolicy where
  table : AList fun _ : DecisionKey => ActionDistribution

namespace TablePolicy

/-- `TablePolicy::new`. -/
def new : TablePolicy := ⟨∅⟩

/-- `TablePolicy::set_deterministic`. -/
def setDeterministic (policy : TablePolicy) (key : DecisionKey) (chosenId : Nat) : TablePolicy :=
  ⟨policy.table.insert key.normalized (.deterministic chosenId)⟩

/-- `TablePolicy::remove`. -/
def remove (policy : TablePolicy) (key : DecisionKey) : TablePolicy := ⟨policy.table.erase key.normalized⟩

/-- The loop body of `to_decision_script`. -/
def insertEntry (script : DecisionScript) (entry : Sigma fun _ : DecisionKey => ActionDistribution) : DecisionScript :=
  match entry.2 with
  | .deterministic chosenId => script.insert entry.1 chosenId
  | .categorical .. => script

/-- `TablePolicy::to_decision_script`, with the entries of the table in the order in which they come. -/
def toDecisionScript (entries : List (Sigma fun _ : DecisionKey => ActionDistribution)) : DecisionScript :=
  entries.foldl insertEntry .new

/-- `TablePolicy::choose_from_key`. -/
def chooseFromKey {γ : Type} [Sampler γ] (policy : TablePolicy) (key : DecisionKey) (rng : γ) : Option Nat × γ :=
  match policy.table.lookup key with
  | none => (none, rng)
  | some (.deterministic chosenId) => (some chosenId, rng)
  | some (.categorical ids weights) =>
    if ids = [] ∨ ids.length ≠ weights.length then (none, rng) else Sampler.sample rng ids weights

end TablePolicy

/-- A change of a table. -/
inductive TableOp where
  | setDeterministic (key : DecisionKey) (chosenId : Nat)
  | remove (key : DecisionKey)

/-- The table after a change. -/
def TablePolicy.apply (policy : TablePolicy) : TableOp → TablePolicy
  | .setDeterministic key chosenId => policy.setDeterministic key chosenId
  | .remove key => policy.remove key

/-- The table that the changes lead to. -/
def TablePolicy.build (ops : List TableOp) : TablePolicy := ops.foldl apply new

/-! ## Policies with a table -/

/-- `TableFrontierPolicy`. -/
structure TableFrontierPolicy (φ γ : Type) where
  policy : TablePolicy
  fallback : φ
  rng : γ
  nextOrdinal : Nat

/-- `TableFrontierPolicy::new`. -/
def TableFrontierPolicy.new {φ γ : Type} (policy : TablePolicy) (fallback : φ) (rng : γ) : TableFrontierPolicy φ γ :=
  ⟨policy, fallback, rng, 0⟩

/-- `TableFrontierPolicy::choose`. -/
def TableFrontierPolicy.choose {φ γ : Type} [EventFrontierPolicy φ] [Sampler γ] (policy : TableFrontierPolicy φ γ)
    (recorder : TraceRecorder) (time : SimTime) (frontier : List FrontierEvent) :
    Nat × TableFrontierPolicy φ γ × TraceRecorder :=
  let (chosenSeq, rng) := policy.policy.chooseFromKey (.new .frontier time.nanos policy.nextOrdinal (seqs frontier)) policy.rng
  let (chosenIndex, fallback) :=
    match chosenSeq with
    | some chosenSeq =>
      match (seqs frontier).idxOf? chosenSeq with
      | some pos => (pos, policy.fallback)
      | none => EventFrontierPolicy.choose policy.fallback time frontier
    | none => EventFrontierPolicy.choose policy.fallback time frontier
  recordFrontier recorder time frontier chosenIndex { policy with fallback, rng, nextOrdinal := policy.nextOrdinal + 1 }

instance {φ γ : Type} [EventFrontierPolicy φ] [Sampler γ] : TracedFrontierPolicy (TableFrontierPolicy φ γ) :=
  ⟨TableFrontierPolicy.choose⟩

/-- `TableReadyTaskPolicy`. -/
structure TableReadyTaskPolicy (π γ : Type) where
  policy : TablePolicy
  fallback : π
  rng : γ
  nextOrdinal : Nat

/-- `TableReadyTaskPolicy::new`. -/
def TableReadyTaskPolicy.new {π γ : Type} (policy : TablePolicy) (fallback : π) (rng : γ) : TableReadyTaskPolicy π γ :=
  ⟨policy, fallback, rng, 0⟩

/-- `TableReadyTaskPolicy::choose`. -/
def TableReadyTaskPolicy.choose {π γ : Type} [ReadyTaskPolicy π] [Sampler γ] (policy : TableReadyTaskPolicy π γ)
    (recorder : TraceRecorder) (time : SimTime) (ready : List AsyncRuntime.TaskId) :
    Nat × TableReadyTaskPolicy π γ × TraceRecorder :=
  let (chosenTaskId, rng) := policy.policy.chooseFromKey (.new .tokioReady time.nanos policy.nextOrdinal ready) policy.rng
  let (chosenIndex, fallback) :=
    match chosenTaskId with
    | some chosenId =>
      match ready.idxOf? chosenId with
      | some pos => (pos, policy.fallback)
      | none => ReadyTaskPolicy.choose policy.fallback time ready
    | none => ReadyTaskPolicy.choose policy.fallback time ready
  recordReady recorder time ready chosenIndex { policy with fallback, rng, nextOrdinal := policy.nextOrdinal + 1 }

instance {π γ : Type} [ReadyTaskPolicy π] [Sampler γ] : TracedReadyTaskPolicy (TableReadyTaskPolicy π γ) :=
  ⟨TableReadyTaskPolicy.choose⟩

end DesCartes.Explore
