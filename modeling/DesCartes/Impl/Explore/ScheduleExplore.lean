import DesCartes.Framework.Vec
import DesCartes.Impl.Explore.Trace

/-!
# Scheduling decisions (`des-explore/src/schedule_explore.rs`)

The keys by which decisions are found again in another run, scripts of decisions, and the decisions
of a trace. The hash map of a script is the function that looks a key up in it. The ordinals, which
are `u64`, do not overflow.
-/

namespace DesCartes.Explore

/-- `DecisionKind`. -/
inductive DecisionKind where
  | frontier
  | tokioReady
deriving DecidableEq

/-- `DecisionKey`. -/
structure DecisionKey where
  kind : DecisionKind
  timeNanos : Nat
  ordinal : Nat
  choiceSet : List Nat
deriving DecidableEq

namespace DecisionKey

/-- `DecisionKey::normalize` and `DecisionKey::normalized`. -/
def normalized (key : DecisionKey) : DecisionKey := { key with choiceSet := Vec.sortDedup key.choiceSet }

/-- `DecisionKey::new`. -/
def new (kind : DecisionKind) (timeNanos ordinal : Nat) (choiceSet : List Nat) : DecisionKey :=
  normalized ⟨kind, timeNanos, ordinal, choiceSet⟩

@[simp] theorem normalized_normalized (key : DecisionKey) : key.normalized.normalized = key.normalized := by
  simp [normalized]

@[simp] theorem normalized_new (kind : DecisionKind) (timeNanos ordinal : Nat) (choiceSet : List Nat) :
    (new kind timeNanos ordinal choiceSet).normalized = new kind timeNanos ordinal choiceSet :=
  normalized_normalized _

end DecisionKey

/-- `ObservedDecision`. -/
structure ObservedDecision where
  key : DecisionKey
  chosen : Nat
deriving DecidableEq

/-- `DecisionScript`. -/
structure DecisionScript where
  decisions : DecisionKey → Option Nat

namespace DecisionScript

/-- `DecisionScript::new`. -/
def new : DecisionScript := ⟨fun _ => none⟩

/-- `DecisionScript::insert`. -/
def insert (script : DecisionScript) (key : DecisionKey) (chosen : Nat) : DecisionScript :=
  ⟨Function.update script.decisions key.normalized (some chosen)⟩

/-- `DecisionScript::get`. -/
def get (script : DecisionScript) (key : DecisionKey) : Option Nat := script.decisions key.normalized

/-- `DecisionScript::from_observed`. -/
def fromObserved (decisions : List ObservedDecision) : DecisionScript :=
  decisions.foldl (fun script d => script.insert d.key d.chosen) new

end DecisionScript

/-- `scheduler_choice_set`, which is also `ReplayFrontierPolicy::expected_seqs`. -/
def SchedulerDecision.choiceSet (decision : SchedulerDecision) : List Nat :=
  if decision.frontierSeqs ≠ [] then decision.frontierSeqs else decision.frontier.map (·.seq)

/-- One decision of `extract_decisions`; a panic when the index is out of bounds. -/
def observe (kind : DecisionKind) (timeNanos ordinal : Nat) (choiceSet : List Nat) (chosen : Option Nat)
    (chosenIndex : Nat) : Option ObservedDecision :=
  (chosen.or choiceSet[chosenIndex]?).map fun chosen => ⟨.new kind timeNanos ordinal choiceSet, chosen⟩

/-- The loop of `extract_decisions`, with its two ordinals. -/
def extractDecisionsFrom : Nat → Nat → List TraceEvent → Option (List ObservedDecision)
  | _, _, [] => some []
  | frontierOrdinal, tokioReadyOrdinal, .schedulerDecision d :: events =>
    (observe .frontier d.timeNanos frontierOrdinal d.choiceSet d.chosenSeq d.chosenIndex).bind fun observed =>
      (extractDecisionsFrom (frontierOrdinal + 1) tokioReadyOrdinal events).map (observed :: ·)
  | frontierOrdinal, tokioReadyOrdinal, .asyncRuntimeDecision d :: events =>
    (observe .tokioReady d.timeNanos tokioReadyOrdinal d.readyTaskIds d.chosenTaskId d.chosenIndex).bind fun observed =>
      (extractDecisionsFrom frontierOrdinal (tokioReadyOrdinal + 1) events).map (observed :: ·)
  | frontierOrdinal, tokioReadyOrdinal, _ :: events => extractDecisionsFrom frontierOrdinal tokioReadyOrdinal events

/-- `extract_decisions`. -/
def extractDecisions (events : List TraceEvent) : Option (List ObservedDecision) := extractDecisionsFrom 0 0 events

end DesCartes.Explore
