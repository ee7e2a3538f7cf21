import DesCartes.Impl.Explore.ScheduleExplore

/-!
# Frontier policies of exploration (`des-explore/src/frontier.rs`)

The policies that record their choices share a recorder with the ready-task policies; they are given
it and return it (`TracedFrontierPolicy`). The policy that a wrapper wraps is any frontier policy
that does not use the recorder.
-/

namespace DesCartes.Explore

/-- A frontier policy with the shared recorder: the index it chooses, and what becomes of the two. -/
class TracedFrontierPolicy (φ : Type) where
  choose : φ → TraceRecorder → SimTime → List FrontierEvent → Nat × φ × TraceRecorder

/-- The position of the id that the script forces at the decision, if it has one that is among the ids. -/
def forced (script : Option DecisionScript) (key : DecisionKey) (ids : List Nat) : Option Nat :=
  match script with
  | none => none
  | some script =>
    match script.get key with
    | some chosen => ids.idxOf? chosen
    | none => none

/-- The end of `choose`: the index is put into range, and recorded. -/
def recordFrontier {φ : Type} (recorder : TraceRecorder) (time : SimTime) (frontier : List FrontierEvent) (chosenIndex : Nat)
    (policy : φ) : Nat × φ × TraceRecorder :=
  let chosenIndex := min chosenIndex (frontier.length - 1)
  (chosenIndex, policy, recorder.record (.schedulerDecision (.realized time frontier chosenIndex)))

/-! ## Exploration -/

/-- `ExplorationFrontierPolicy`. -/
structure ExplorationFrontierPolicy (φ : Type) where
  inner : φ
  script : Option DecisionScript
  nextOrdinal : Nat

/-- `ExplorationFrontierPolicy::new`. -/
def ExplorationFrontierPolicy.new {φ : Type} (inner : φ) (script : Option DecisionScript) : ExplorationFrontierPolicy φ :=
  ⟨inner, script, 0⟩

/-- `ExplorationFrontierPolicy::choose`. -/
def ExplorationFrontierPolicy.choose {φ : Type} [EventFrontierPolicy φ] (policy : ExplorationFrontierPolicy φ)
    (recorder : TraceRecorder) (time : SimTime) (frontier : List FrontierEvent) :
    Nat × ExplorationFrontierPolicy φ × TraceRecorder :=
  let key := .new .frontier time.nanos policy.nextOrdinal (seqs frontier)
  let (chosenIndex, inner) :=
    match forced policy.script key (seqs frontier) with
    | some pos => (pos, policy.inner)
    | none => EventFrontierPolicy.choose policy.inner time frontier
  recordFrontier recorder time frontier chosenIndex { policy with inner, nextOrdinal := policy.nextOrdinal + 1 }

instance {φ : Type} [EventFrontierPolicy φ] : TracedFrontierPolicy (ExplorationFrontierPolicy φ) :=
  ⟨ExplorationFrontierPolicy.choose⟩

/-! ## Recording -/

/-- `RecordingFrontierPolicy`. -/
structure RecordingFrontierPolicy (φ : Type) where
  inner : φ

/-- `RecordingFrontierPolicy::choose`. -/
def RecordingFrontierPolicy.choose {φ : Type} [EventFrontierPolicy φ] (policy : RecordingFrontierPolicy φ)
    (recorder : TraceRecorder) (time : SimTime) (frontier : List FrontierEvent) :
    Nat × RecordingFrontierPolicy φ × TraceRecorder :=
  let (chosenIndex, inner) := EventFrontierPolicy.choose policy.inner time frontier
  recordFrontier recorder time frontier chosenIndex ⟨inner⟩

instance {φ : Type} [EventFrontierPolicy φ] : TracedFrontierPolicy (RecordingFrontierPolicy φ) :=
  ⟨RecordingFrontierPolicy.choose⟩

/-! ## Replay -/

/-- `ReplayFrontierError`. -/
inductive ReplayFrontierError where
  | outOfDecisions (index timeNanos : Nat) (frontierSeqs : List Nat)
  | timeMismatch (index expected actual : Nat)
  | frontierMismatch (index timeNanos : Nat) (expected actual : List Nat)
  | chosenSeqNotFound (index timeNanos chosen : Nat) (frontier : List Nat)
  | chosenIndexOutOfBounds (index timeNanos chosenIndex frontierLen : Nat)
deriving DecidableEq

/-- `ReplayFrontierPolicy`. -/
structure ReplayFrontierPolicy where
  decisions : List SchedulerDecision
  next : Nat
  error : Option ReplayFrontierError
deriving DecidableEq

namespace ReplayFrontierPolicy

/-- `ReplayFrontierPolicy::from_trace_events`. -/
def fromTraceEvents (events : List TraceEvent) : ReplayFrontierPolicy :=
  ⟨events.filterMap TraceEvent.schedulerDecision?, 0, none⟩

/-- An error is stored, and the first event of the frontier chosen. -/
def fail (policy : ReplayFrontierPolicy) (error : ReplayFrontierError) : Nat × ReplayFrontierPolicy :=
  (0, { policy with error := some error })

/-- `ReplayFrontierPolicy::choose`, once the decision has been found and its time and ids compared. -/
def find (policy : ReplayFrontierPolicy) (index : Nat) (decision : SchedulerDecision) (frontier : List FrontierEvent) :
    Nat × ReplayFrontierPolicy :=
  match decision.chosenSeq with
  | some chosenSeq =>
    match (seqs frontier).idxOf? chosenSeq with
    | some i => (i, policy)
    | none => policy.fail (.chosenSeqNotFound index decision.timeNanos chosenSeq (seqs frontier))
  | none =>
    if frontier = [] then (0, policy)
    else
      (min decision.chosenIndex (frontier.length - 1),
        if frontier.length ≤ decision.chosenIndex then
          (policy.fail (.chosenIndexOutOfBounds index decision.timeNanos decision.chosenIndex frontier.length)).2
        else policy)

/-- `ReplayFrontierPolicy::choose`. -/
def choose (policy : ReplayFrontierPolicy) (time : SimTime) (frontier : List FrontierEvent) : Nat × ReplayFrontierPolicy :=
  if policy.error.isSome then (0, policy)
  else
    let index := policy.next
    match policy.decisions[index]? with
    | none => policy.fail (.outOfDecisions index time.nanos (seqs frontier))
    | some decision =>
      let policy := { policy with next := policy.next + 1 }
      if decision.timeNanos ≠ time.nanos then policy.fail (.timeMismatch index decision.timeNanos time.nanos)
      else if decision.choiceSet ≠ [] ∧ Vec.sortDedup decision.choiceSet ≠ Vec.sortDedup (seqs frontier) then
        policy.fail (.frontierMismatch index decision.timeNanos decision.choiceSet (seqs frontier))
      else policy.find index decision frontier

end ReplayFrontierPolicy

instance : TracedFrontierPolicy ReplayFrontierPolicy :=
  ⟨fun policy recorder time frontier =>
    let (chosenIndex, policy) := policy.choose time frontier
    (chosenIndex, policy, recorder)⟩

end DesCartes.Explore
