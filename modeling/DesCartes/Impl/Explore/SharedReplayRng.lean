import DesCartes.Framework.Client
import DesCartes.Impl.Explore.Trace

/-!
# Random draws (`des-explore/src/shared_rng.rs`, `shared_replay_rng.rs`)

The clones of a provider share everything, so all of them together are one value; the recorder,
which they share with others, is given to them and returned. A panic ends the run. The generator is
a parameter (`StdRng`), as are the numbers that it makes.

A simulation whose randomness comes from a provider is a `Client` of it: `Effect` is what it does
with the provider and the recorder, and everything else is a function of what it was answered.
`branch` is a run of its setup and a number of steps.
-/

namespace DesCartes.Explore

/-- `DrawSite`. -/
structure DrawSite where
  tag : String
  siteId : Nat
deriving DecidableEq

/-- `rand::rngs::StdRng`. -/
class StdRng (γ : Type) where
  /-- `StdRng::seed_from_u64`. -/
  seedFromU64 : BitVec 64 → γ
  /-- A sample of `rand_distr::Exp`; none where `Exp::new` does not accept the rate. -/
  sampleExp : γ → F64 → Option (F64 × γ)

/-- The panics of the providers. -/
inductive DrawPanic where
  | siteMismatch (expected got : Nat) (tag : String)
  | unexpectedDrawValue (other : DrawValue)
  | rateMustBePositive
deriving DecidableEq

/-- `RandomProvider`, with the recorder. -/
class RandomProvider (ρ : Type) where
  sampleExpSeconds : ρ → TraceRecorder → DrawSite → F64 → Except DrawPanic (F64 × ρ × TraceRecorder)

/-- The event that `record` and `record_f64` record. -/
def drawEvent (site : DrawSite) (value : F64) : TraceEvent := .randomDraw ⟨none, site.tag, site.siteId, .f64 value⟩

/-! ## Providers -/

/-- `SharedTracingRandomProvider`. -/
structure SharedTracingRandomProvider (γ : Type) where
  rng : γ

section
variable {γ : Type} [StdRng γ]

/-- `SharedTracingRandomProvider::new`. -/
def SharedTracingRandomProvider.new (seed : BitVec 64) : SharedTracingRandomProvider γ := ⟨StdRng.seedFromU64 seed⟩

/-- `SharedTracingRandomProvider::sample_exp_seconds`. -/
def SharedTracingRandomProvider.sampleExpSeconds (provider : SharedTracingRandomProvider γ) (recorder : TraceRecorder)
    (site : DrawSite) (rate : F64) : Except DrawPanic (F64 × SharedTracingRandomProvider γ × TraceRecorder) :=
  match StdRng.sampleExp provider.rng rate with
  | none => .error .rateMustBePositive
  | some (value, rng) => .ok (value, ⟨rng⟩, recorder.record (drawEvent site value))

instance : RandomProvider (SharedTracingRandomProvider γ) := ⟨SharedTracingRandomProvider.sampleExpSeconds⟩

/-- `SharedChainedRandomProvider`. -/
structure SharedChainedRandomProvider (γ : Type) where
  draws : List RandomDraw
  fallback : SharedTracingRandomProvider γ

/-- `SharedChainedRandomProvider::new`, with the events of the prefix. -/
def SharedChainedRandomProvider.new (pre : Option (List TraceEvent)) (fallbackSeed : BitVec 64) : SharedChainedRandomProvider γ :=
  ⟨(pre.map fun events => events.filterMap TraceEvent.randomDraw?).getD [], .new fallbackSeed⟩

/-- `SharedChainedRandomProvider::sample_exp_seconds`. -/
def SharedChainedRandomProvider.sampleExpSeconds (provider : SharedChainedRandomProvider γ) (recorder : TraceRecorder)
    (site : DrawSite) (rate : F64) : Except DrawPanic (F64 × SharedChainedRandomProvider γ × TraceRecorder) :=
  match provider.draws with
  | next :: draws =>
    if next.siteId ≠ site.siteId then .error (.siteMismatch site.siteId next.siteId next.tag)
    else
      match next.value with
      | .f64 value => .ok (value, { provider with draws }, recorder.record (drawEvent site value))
      | other => .error (.unexpectedDrawValue other)
  | [] => (provider.fallback.sampleExpSeconds recorder site rate).map fun (value, fallback, recorder) =>
    (value, { provider with fallback }, recorder)

instance : RandomProvider (SharedChainedRandomProvider γ) := ⟨SharedChainedRandomProvider.sampleExpSeconds⟩

end

/-! ## Simulations -/

/-- What a simulation does with what it shares with others. -/
inductive Effect where
  /-- A draw, which is answered with its value. -/
  | draw (site : DrawSite) (rate : F64)
  /-- Something else is recorded, to which there is no answer. -/
  | record (event : TraceEvent) (notDraw : event.randomDraw? = none)

/-- A provider and the recorder. -/
structure Shared (ρ : Type) where
  provider : ρ
  recorder : TraceRecorder

/-- One of these. -/
def Shared.perform {ρ : Type} [RandomProvider ρ] (shared : Shared ρ) : Effect → Except DrawPanic (Option F64 × Shared ρ)
  | .draw site rate => (RandomProvider.sampleExpSeconds shared.provider shared.recorder site rate).map
      fun (value, provider, recorder) => (some value, ⟨provider, recorder⟩)
  | .record event _ => .ok (none, { shared with recorder := shared.recorder.record event })

/-- A simulation: how it is set up, and its steps. -/
structure Scenario (κ : Type) where
  setup : Client Effect (Option F64) κ
  step : κ → Client Effect (Option F64) κ

namespace Scenario

variable {κ : Type} (scenario : Scenario κ)

/-- A number of steps. -/
def steps : Nat → κ → Client Effect (Option F64) κ
  | 0, k => .done k
  | n + 1, k => (scenario.step k).bind (steps n)

/-- The setup and a number of steps. -/
def run (n : Nat) : Client Effect (Option F64) κ := scenario.setup.bind (scenario.steps n)

/-- A run of the setup and a number of steps, whose randomness comes from the clones of one
`SharedChainedRandomProvider`, with a recorder that is empty. -/
def branch (γ : Type) [StdRng γ] (pre : Option (List TraceEvent)) (seed : BitVec 64) (n : Nat) :
    Except DrawPanic (Client.Trial Effect (Option F64) κ (Shared (SharedChainedRandomProvider γ))) :=
  (scenario.run n).tryRun Shared.perform ⟨.new pre seed, []⟩

end Scenario

end DesCartes.Explore
