import DesCartes.Impl.Explore.EstimateSplitting
import DesCartes.Impl.Explore.Policy

/-!
# Policy search (`des-explore/src/policy_search.rs`)

`search_policy` climbs from table to table: it changes one decision of the best table so far,
evaluates the candidate in a number of rollouts and keeps it if it is better. What `setup` builds
and `run_until_end_or` does with it is a function of the seed of the model and of the policies
(`Setup`); the crate has its feature `tokio`. The numbers that are computed with `f64` are
parameters, and so are the orders in which the hash maps and sets are iterated (`HashOrders`). A
panic of a rollout's thread is none.
-/

namespace DesCartes.Explore

open AsyncRuntime (ReadyTaskPolicy)

/-! ## Random numbers -/

/-- `StdRng`, with `gen_range(0..n)` and the index that `SliceRandom::choose` draws for a slice of
`n` entries. -/
class SearchRng (γ : Type) where
  seedFromU64 : BitVec 64 → γ
  genRange : γ → Nat → Nat × γ
  genIndex : γ → Nat → Nat × γ
  genIndex_lt {n : Nat} (rng : γ) : 0 < n → (genIndex rng n).1 < n

/-- `SliceRandom::choose`. -/
def SearchRng.choose {α γ : Type} [SearchRng γ] (l : List α) (rng : γ) : Option α × γ :=
  if l = [] then (none, rng)
  else
    let (i, rng) := genIndex rng l.length
    (l[i]?, rng)

/-- `UniformRandomFrontierPolicy` (`des-core/src/scheduler.rs`). -/
structure UniformRandomFrontierPolicy (γ : Type) where
  rng : γ

/-- `UniformRandomReadyTaskPolicy` (`des-core/src/async_runtime.rs`). -/
structure UniformRandomReadyTaskPolicy (γ : Type) where
  rng : γ

instance {γ : Type} [SearchRng γ] : EventFrontierPolicy (UniformRandomFrontierPolicy γ) where
  choose p _ frontier :=
    if frontier = [] then (0, p)
    else
      let (i, rng) := SearchRng.genRange p.rng frontier.length
      (i, ⟨rng⟩)

instance {γ : Type} [SearchRng γ] : ReadyTaskPolicy (UniformRandomReadyTaskPolicy γ) where
  choose p _ ready :=
    if ready = [] then (0, p)
    else
      let (i, rng) := SearchRng.genRange p.rng ready.length
      (i, ⟨rng⟩)

/-! ## Configuration -/

/-- `PolicySearchObjective`. -/
inductive PolicySearchObjective where
  | pHat
  | wilsonLowerBound
deriving DecidableEq

/-- `BaseFrontierPolicy`. -/
inductive BaseFrontierPolicy where
  | fifo
  | uniformRandom
deriving DecidableEq

/-- `BaseTokioReadyPolicy`. -/
inductive BaseTokioReadyPolicy where
  | fifo
  | uniformRandom
deriving DecidableEq

/-- What `search_policy` uses of a `PolicySearchConfig`. -/
structure PolicySearchConfig where
  /-- `base_sim_config.seed`. -/
  baseSeed : BitVec 64
  installTokio : Bool
  baseFrontier : BaseFrontierPolicy
  baseTokioReady : BaseTokioReadyPolicy
  budgetPolicies : Nat
  trialsPerPolicy : Nat
  holdoutTrials : Nat
  confidence : F64
  objective : PolicySearchObjective
  maxFailureTraces : Nat
  mutationSeed : BitVec 64

/-- The quotient of two counts, and `wilson_interval`. -/
structure Stats where
  ratio : Nat → Nat → F64
  wilsonInterval : Nat → Nat → F64 → Option (F64 × F64)

/-- `PolicyEvaluationSummary`. -/
structure PolicyEvaluationSummary where
  policyIndex : Nat
  successes : Nat
  trials : Nat
  pHat : F64
  wilsonLb : Option F64
  objectiveValue : F64

/-- `FailurePhase`. -/
inductive FailurePhase where
  | search
  | holdout
deriving DecidableEq

/-- `PolicySearchFailure`, with a status of type `S`. -/
structure PolicySearchFailure (S : Type) where
  phase : FailurePhase
  policyIndex : Nat
  trialIndex : Nat
  trace : List TraceEvent
  status : Option S
  panicMessage : Option String

/-- `BernoulliEstimate`. -/
structure BernoulliEstimate where
  trials : Nat
  successes : Nat
  pHat : F64
  ciLow : Option F64
  ciHigh : Option F64

/-- `PolicySearchError`, without those of the harness. -/
inductive PolicySearchError where
  | zeroTrialsPerPolicy
  | zeroHoldoutTrials
deriving DecidableEq

/-! ## Rollouts -/

/-- The frontier policy that a rollout falls back on. -/
inductive BaseFrontier (γ : Type) where
  | fifo (policy : FifoFrontierPolicy)
  | uniformRandom (policy : UniformRandomFrontierPolicy γ)

/-- The ready-task policy that a rollout falls back on. -/
inductive BaseReady (γ : Type) where
  | fifo (policy : AsyncRuntime.FifoReadyTaskPolicy)
  | uniformRandom (policy : UniformRandomReadyTaskPolicy γ)

instance {γ : Type} [SearchRng γ] : EventFrontierPolicy (BaseFrontier γ) where
  choose
    | .fifo p, time, frontier => (EventFrontierPolicy.choose p time frontier).map id .fifo
    | .uniformRandom p, time, frontier => (EventFrontierPolicy.choose p time frontier).map id .uniformRandom

instance {γ : Type} [SearchRng γ] : ReadyTaskPolicy (BaseReady γ) where
  choose
    | .fifo p, time, ready => (ReadyTaskPolicy.choose p time ready).map id .fifo
    | .uniformRandom p, time, ready => (ReadyTaskPolicy.choose p time ready).map id .uniformRandom

section
variable {γ : Type} [SearchRng γ] (cfg : PolicySearchConfig)

/-- The frontier policy of a rollout. -/
def rolloutFrontier (script : Option DecisionScript) (frontierSeed : BitVec 64) : ExplorationFrontierPolicy (BaseFrontier γ) :=
  match cfg.baseFrontier with
  | .fifo => .new (.fifo ⟨⟩) script
  | .uniformRandom => .new (.uniformRandom ⟨SearchRng.seedFromU64 frontierSeed⟩) script

/-- The ready-task policy of a rollout, with `fallback_ready_policy`. -/
def rolloutReady (script : Option DecisionScript) (readySeed : BitVec 64) : ExplorationReadyTaskPolicy (BaseReady γ) :=
  match cfg.baseTokioReady with
  | .fifo => .new (.fifo ⟨⟩) script
  | .uniformRandom => .new (.uniformRandom ⟨SearchRng.seedFromU64 readySeed⟩) script

end

/-- How a rollout has ended: with a status or a panic, and with a trace. -/
structure RolloutOutcome (S : Type) where
  result : Except String S
  trace : List TraceEvent

/-- What the simulation of a seed does, up to the end time or until the predicate holds, under the
ready-task policy, if the runtime is installed, and the frontier policy. -/
structure Setup (S γ : Type) where
  run : BitVec 64 → Option (ExplorationReadyTaskPolicy (BaseReady γ)) →
    ExplorationFrontierPolicy (BaseFrontier γ) → RolloutOutcome S
  predicate : S → Bool

/-- `RolloutResult`. -/
structure RolloutResult (S : Type) where
  hitBad : Bool
  status : Option S
  panicMessage : Option String
  trace : List TraceEvent
  observedKeys : Finset DecisionKey

/-- The entries of a table. -/
abbrev TableEntries := List (Sigma fun _ : DecisionKey => ActionDistribution)

/-- The script of a table that is given to the policies; an empty one is not. -/
def TablePolicy.rolloutScript (entries : TableEntries) : Option DecisionScript :=
  if entries.any (fun e => match e.2 with | .deterministic _ => true | .categorical .. => false) then
    some (TablePolicy.toDecisionScript entries)
  else none

section
variable {S γ : Type} [SearchRng γ] (cfg : PolicySearchConfig) (setup : Setup S γ) (stats : Stats)

/-- `run_rollout`, with the entries of the table in the order in which they come. -/
def runRollout (entries : TableEntries) (trialSeedBase : BitVec 64) (trialIndex : Nat) : Option (RolloutResult S) :=
  let modelSeed := Estimate.deriveSeed trialSeedBase (BitVec.ofNat 64 trialIndex)
  let policySeed := Estimate.deriveSeed (trialSeedBase ^^^ 0xA0A0A0A0A0A0A0A0) (BitVec.ofNat 64 trialIndex)
  let frontierSeed := Estimate.deriveSeed (policySeed ^^^ 0xF00DF00DF00DF00D) 0
  let readySeed := Estimate.deriveSeed (policySeed ^^^ 0xBEEFBEEFBEEFBEEF) 0
  let script := TablePolicy.rolloutScript entries
  let ready := if cfg.installTokio then some (rolloutReady cfg script readySeed) else none
  let outcome := setup.run modelSeed ready (rolloutFrontier cfg script frontierSeed)
  (extractDecisions outcome.trace).map fun decisions =>
    let observedKeys := (decisions.map (·.key)).toFinset
    match outcome.result with
    | .ok status => ⟨setup.predicate status, some status, none, outcome.trace, observedKeys⟩
    | .error message => ⟨true, none, some message, outcome.trace, observedKeys⟩

/-- `objective_value`. -/
def objectiveValue (successes trials : Nat) : F64 :=
  match cfg.objective with
  | .pHat => stats.ratio successes trials
  | .wilsonLowerBound => ((stats.wilsonInterval successes trials cfg.confidence).map (·.1)).getD 0

/-- `EvalResult`. -/
structure EvalResult (S : Type) where
  successes : Nat
  trials : Nat
  observedKeys : Finset DecisionKey
  failures : List (PolicySearchFailure S)

/-- The loop of `eval_policy` over the trials from an index on; `entries` are those of the table in
each of them. -/
def evalTrials (entries : Nat → TableEntries) (phase : FailurePhase) (policyIndex : Nat) (trialSeedBase : BitVec 64)
    (maxFailureTraces : Nat) : Nat → Nat → EvalResult S → Option (EvalResult S)
  | 0, _, r => some r
  | n + 1, trialIndex, r =>
    (runRollout cfg setup (entries trialIndex) trialSeedBase trialIndex).bind fun rr =>
      let r := { r with observedKeys := r.observedKeys ∪ rr.observedKeys }
      evalTrials entries phase policyIndex trialSeedBase maxFailureTraces n (trialIndex + 1)
        (if rr.hitBad then
          { r with
            successes := r.successes + 1
            failures :=
              if r.failures.length < maxFailureTraces then
                r.failures ++ [⟨phase, policyIndex, trialIndex, rr.trace, rr.status, rr.panicMessage⟩]
              else r.failures }
        else r)

/-- `eval_policy`. -/
def evalPolicy (entries : Nat → TableEntries) (phase : FailurePhase) (policyIndex trials : Nat) (trialSeedBase : BitVec 64)
    (maxFailureTraces : Nat) : Option (EvalResult S × PolicyEvaluationSummary) :=
  (evalTrials cfg setup entries phase policyIndex trialSeedBase maxFailureTraces trials 0 ⟨0, trials, ∅, []⟩).map fun r =>
    (r, ⟨policyIndex, r.successes, trials, stats.ratio r.successes trials,
      (stats.wilsonInterval r.successes trials cfg.confidence).map (·.1), objectiveValue cfg stats r.successes trials⟩)

end

/-! ## Mutation -/

/-- `TablePolicy::get`. -/
def TablePolicy.get (policy : TablePolicy) (key : DecisionKey) : Option ActionDistribution := policy.table.lookup key.normalized

/-- `kind as u8`. -/
def DecisionKind.toU8 : DecisionKind → Nat
  | frontier => 0
  | tokioReady => 1

/-- The comparison that `mutate_one` sorts by. -/
def DecisionKey.sortCmp : DecisionKey → DecisionKey → Ordering :=
  compareLex (compareOn (·.timeNanos)) (compareLex (compareOn (·.kind.toU8)) (compareLex (compareOn (·.ordinal))
    (compareLex (compareOn (·.choiceSet.length)) (compareOn (·.choiceSet)))))

/-- The keys that `mutate_one` chooses from. -/
def mutationPool (knownKeys : List DecisionKey) : List DecisionKey :=
  let multi := Vec.sortBy DecisionKey.sortCmp (knownKeys.filter fun k => 1 < k.choiceSet.length)
  match multi.head? with
  | none => []
  | some first =>
    let earliest := multi.filter fun k => k.timeNanos = first.timeNanos
    let (tokioReady, other) := earliest.partition fun k => k.kind = .tokioReady
    if tokioReady ≠ [] then tokioReady else other

/-- The choice at a key that `mutate_one` takes for that of the base policy. -/
def currentChoice (base : TablePolicy) (key : DecisionKey) : Option Nat :=
  match base.get key with
  | some (.deterministic chosenId) => some chosenId
  | _ => key.choiceSet.head?

variable {γ : Type} [SearchRng γ]

/-- `mutate_one`, once the key has been chosen. -/
def mutateKey (base : TablePolicy) (key : DecisionKey) (rng : γ) : Option TablePolicy × γ :=
  let (chosenId, rng) := SearchRng.choose (key.choiceSet.filter fun id => some id ≠ currentChoice base key) rng
  (chosenId.map fun id => base.setDeterministic key id, rng)

/-- `mutate_one`. -/
def mutateOne (base : TablePolicy) (knownKeys : List DecisionKey) (rng : γ) : Option TablePolicy × γ :=
  match SearchRng.choose (mutationPool knownKeys) rng with
  | (none, rng) => (none, rng)
  | (some key, rng) => mutateKey base key rng

/-! ## Search -/

/-- The orders in which the hash sets of keys and the hash maps of the tables are iterated, each
time that they are. -/
structure HashOrders where
  /-- The keys that have been observed, when the candidate of an index is made. -/
  keys : Nat → Finset DecisionKey → List DecisionKey
  /-- The entries of a table, in a trial of a policy. -/
  entries : FailurePhase → Nat → TablePolicy → Nat → TableEntries
  keys_perm (i : Nat) (s : Finset DecisionKey) : (keys i s : Multiset DecisionKey) = s.val
  entries_perm (phase : FailurePhase) (policyIndex : Nat) (policy : TablePolicy) (trialIndex : Nat) :
    (entries phase policyIndex policy trialIndex).Perm policy.table.entries

/-- The variables of `search_policy`, and the candidates that have been evaluated. -/
structure Search (S γ : Type) where
  bestPolicy : TablePolicy
  bestObj : F64
  evaluations : List PolicyEvaluationSummary
  failures : List (PolicySearchFailure S)
  observedKeys : Finset DecisionKey
  mutationRng : γ
  candidates : List TablePolicy

/-- `PolicySearchReport`, and the candidates that have been evaluated. -/
structure PolicySearchReport (S : Type) where
  bestPolicy : TablePolicy
  evaluations : List PolicyEvaluationSummary
  holdout : BernoulliEstimate
  failures : List (PolicySearchFailure S)
  observedKeys : Finset DecisionKey
  candidates : List TablePolicy

section
variable {S : Type} (cfg : PolicySearchConfig) (setup : Setup S γ) (stats : Stats) (orders : HashOrders)

/-- The loop of `search_policy`, from the index `k` on. -/
def searchLoop : Nat → Nat → Search S γ → Option (Search S γ)
  | 0, _, s => some s
  | n + 1, k, s =>
    match mutateOne s.bestPolicy (orders.keys (k + 1) s.observedKeys) s.mutationRng with
    | (none, mutationRng) => some { s with mutationRng }
    | (some candidate, mutationRng) =>
      (evalPolicy cfg setup stats (orders.entries .search (k + 1) candidate) .search (k + 1) cfg.trialsPerPolicy cfg.baseSeed
        (cfg.maxFailureTraces - s.failures.length)).bind fun (eval, summary) =>
        let s := { s with
          evaluations := s.evaluations ++ [summary]
          failures := s.failures ++ eval.failures
          observedKeys := s.observedKeys ∪ eval.observedKeys
          mutationRng
          candidates := s.candidates ++ [candidate] }
        let obj := objectiveValue cfg stats eval.successes eval.trials
        searchLoop n (k + 1) (if F64.gt obj s.bestObj then { s with bestObj := obj, bestPolicy := candidate } else s)

/-- The evaluation of the empty table, before the loop. -/
def searchStart : Option (Search S γ) :=
  (evalPolicy cfg setup stats (orders.entries .search 0 .new) .search 0 cfg.trialsPerPolicy cfg.baseSeed
    cfg.maxFailureTraces).map fun (eval, summary) =>
      { bestPolicy := .new
        bestObj := objectiveValue cfg stats eval.successes eval.trials
        evaluations := [summary]
        failures := eval.failures
        observedKeys := eval.observedKeys
        mutationRng := SearchRng.seedFromU64 cfg.mutationSeed
        candidates := [] }

/-- The evaluation of the best table, after the loop. -/
def searchHoldout (s : Search S γ) : Option (PolicySearchReport S) :=
  (evalPolicy cfg setup stats (orders.entries .holdout s.evaluations.length s.bestPolicy) .holdout s.evaluations.length
    cfg.holdoutTrials (cfg.baseSeed ^^^ 0xC0FFEE00C0FFEE00) (cfg.maxFailureTraces - s.failures.length)).map fun (eval, _) =>
      let ci := stats.wilsonInterval eval.successes eval.trials cfg.confidence
      { bestPolicy := s.bestPolicy
        evaluations := s.evaluations
        holdout := ⟨eval.trials, eval.successes, stats.ratio eval.successes eval.trials, ci.map (·.1), ci.map (·.2)⟩
        failures := s.failures ++ eval.failures
        observedKeys := s.observedKeys
        candidates := s.candidates }

/-- `search_policy`. -/
def searchPolicy : Option (Except PolicySearchError (PolicySearchReport S)) :=
  if cfg.trialsPerPolicy = 0 then some (.error .zeroTrialsPerPolicy)
  else if cfg.holdoutTrials = 0 then some (.error .zeroHoldoutTrials)
  else
    ((searchStart cfg setup stats orders).bind fun s =>
      (searchLoop cfg setup stats orders cfg.budgetPolicies 0 s).bind (searchHoldout cfg setup stats orders)).map .ok

end

end DesCartes.Explore
