import DesCartes.Impl.Explore.Splitting
import DesCartes.Proof.Explore.Branch

/-!
# Prefixes of prefixes

The prefixes of particles are captured from runs of particles with prefixes (`Rooted`), however many
levels there are. `findWithSplitting_panic`: no run of a particle meets a draw at another site than
the one its prefix has there.
-/

namespace DesCartes.Explore.MonitoredScenario

section
variable {κ : Type} (scenario : MonitoredScenario κ) (γ : Type) [StdRng γ]

/-- The trace of a run after some steps. -/
def Captured (tr : List TraceEvent) : Prop :=
  ∃ pre seed n earlier, scenario.watched.branch γ pre seed n = .ok earlier ∧ tr = earlier.state.recorder

/-- The particle starts with nothing or with a trace that was captured. -/
def Rooted (p : Particle) : Prop := ∀ pre ∈ p.pre, scenario.Captured γ pre

variable {scenario γ} {pre : Option (List TraceEvent)} {seed : BitVec 64} {n : Nat}

theorem branch_succ {t : Client.Trial Effect (Option F64) κ (Shared (SharedChainedRandomProvider γ))}
    (h : scenario.watched.branch γ pre seed n = .ok t) : scenario.watched.branch γ pre seed (n + 1) =
      ((scenario.watched.step t.result).tryRun Shared.perform t.state).map (Client.Trial.after t.log) := by
  have hstep : scenario.watched.steps 1 t.result = scenario.watched.step t.result := Client.bind_done _
  rw [Scenario.branch_add, h, ← hstep]
  rfl

theorem branch_zero : scenario.watched.branch γ pre seed 0 =
    scenario.setup.tryRun Shared.perform (⟨.new pre seed, []⟩ : Shared (SharedChainedRandomProvider γ)) :=
  congrArg (fun c => Client.tryRun _ c _) (Client.bind_done scenario.setup)

theorem Rooted.branch_error {p : Particle} (hp : scenario.Rooted γ p) {e : DrawPanic}
    (h : scenario.watched.branch γ p.pre p.continuationSeed n = .error e) : e = .rateMustBePositive := by
  cases hpre : p.pre with
  | none =>
    rw [hpre] at h
    exact Scenario.branch_none_error h
  | some tr =>
    rw [hpre] at h
    obtain ⟨pre, seed, m, earlier, hb, rfl⟩ := hp tr hpre
    exact Scenario.branch_error hb p.continuationSeed h

variable {endTime : SimTime} {threshold : F64} {fuel : Nat}

/-- What is left of a run: a captured prefix, and only a panic of the generator. -/
def Fine (scenario : MonitoredScenario κ) (γ : Type) [StdRng γ] : Except Stopped Ran → Prop
  | .ok ran => ∀ tr ∈ ran.capturedPrefix, scenario.Captured γ tr
  | .error stopped => ∀ e, stopped = .panic e → e = .rateMustBePositive

/-- The loop, from a state that `n` steps lead to. -/
theorem fine_runUntilThresholdOrEnd {p : Particle} (hp : scenario.Rooted γ p)
    {t : Client.Trial Effect (Option F64) κ (Shared (SharedChainedRandomProvider γ))}
    (ht : scenario.watched.branch γ p.pre p.continuationSeed n = .ok t)
    {capturedPrefix : Option (List TraceEvent)}
    (hc : ∀ tr ∈ capturedPrefix, scenario.Captured γ tr) :
    Fine scenario γ (scenario.runUntilThresholdOrEnd endTime threshold fuel t.result t.state capturedPrefix) := by
  induction fuel generalizing n t capturedPrefix with
  | zero => exact nofun
  | succ fuel ih =>
    rw [runUntilThresholdOrEnd]
    have hsucc := branch_succ ht
    split
    · cases hs : (scenario.watched.step t.result).tryRun Shared.perform t.state with
      | error e =>
        rw [hs] at hsucc
        rintro _ ⟨⟩
        exact hp.branch_error hsucc
      | ok u =>
        rw [hs] at hsucc
        simp only
        split
        · exact hc
        · refine ih hsucc fun tr htr => ?_
          split at htr
          · cases htr
            exact ⟨p.pre, p.continuationSeed, n + 1, _, hsucc, rfl⟩
          · exact hc tr htr
    · exact hc

theorem fine_runParticle {p : Particle} (hp : scenario.Rooted γ p) :
    Fine scenario γ (scenario.runParticle endTime threshold γ fuel p) := by
  have hzero : scenario.watched.branch γ p.pre p.continuationSeed 0 = _ := branch_zero
  rw [runParticle]
  cases ht : scenario.setup.tryRun Shared.perform
      (⟨.new p.pre p.continuationSeed, []⟩ : Shared (SharedChainedRandomProvider γ)) with
  | error e =>
    rw [ht] at hzero
    rintro _ ⟨⟩
    exact hp.branch_error hzero
  | ok t =>
    rw [ht] at hzero
    exact fine_runUntilThresholdOrEnd hp hzero nofun

variable {cfg : SplittingConfig}

theorem rooted_spawnContinuations {pIndex : Nat} {p : Particle} {tr : List TraceEvent}
    (htr : scenario.Captured γ tr) {nextLevel : List Particle}
    (hn : ∀ q ∈ nextLevel, scenario.Rooted γ q) :
    ∀ q ∈ spawnContinuations cfg threshold pIndex p tr nextLevel, scenario.Rooted γ q := by
  refine List.foldlRecOn (motive := fun next => ∀ q ∈ next,
    scenario.Rooted γ q) _ _ hn fun next hnext i _ => ?_
  split
  · exact hnext
  · refine List.forall_mem_append.mpr ⟨hnext, List.forall_mem_singleton.mpr ?_⟩
    rintro _ ⟨⟩
    exact htr

theorem rooted_runLevel {pIndex : Nat} {particles nextLevel : List Particle}
    (hp : ∀ p ∈ particles, scenario.Rooted γ p) (hn : ∀ p ∈ nextLevel, scenario.Rooted γ p) :
    (∀ e, scenario.runLevel γ fuel cfg threshold pIndex particles nextLevel = .error (.panic e) →
      e = .rateMustBePositive) ∧
    ∀ next, scenario.runLevel γ fuel cfg threshold pIndex particles nextLevel = .ok (.inr next) →
      ∀ p ∈ next, scenario.Rooted γ p := by
  induction particles generalizing pIndex nextLevel with
  | nil =>
    refine ⟨nofun, fun next h => ?_⟩
    cases h
    exact hn
  | cons p particles ih =>
    obtain ⟨hp, hps⟩ := List.forall_mem_cons.mp hp
    have hfine : Fine scenario γ (scenario.runParticle cfg.endTime threshold γ fuel p) := fine_runParticle hp
    rw [runLevel]
    cases hran : scenario.runParticle cfg.endTime threshold γ fuel p with
    | error stopped =>
      rw [hran] at hfine
      refine ⟨fun e h => ?_, nofun⟩
      cases h
      exact hfine e rfl
    | ok ran =>
      rw [hran] at hfine
      simp only
      split
      · exact ⟨nofun, nofun⟩
      · cases hc : ran.capturedPrefix with
        | none => exact ih hps hn
        | some tr => exact ih hps (rooted_spawnContinuations (hfine tr hc) hn)

theorem runLevels_panic {levels : List F64} {particles : List Particle}
    (hp : ∀ p ∈ particles, scenario.Rooted γ p) {e : DrawPanic}
    (h : scenario.runLevels γ fuel cfg levels particles = .error (.panic e)) :
    e = .rateMustBePositive := by
  induction levels generalizing particles with
  | nil => cases h
  | cons threshold levels ih =>
    have hnil : ∀ q ∈ [], scenario.Rooted γ q := nofun
    rw [runLevels] at h
    split at h
    · rename_i stopped hl
      cases h
      exact (rooted_runLevel hp hnil).1 e hl
    · cases h
    · cases h
    · rename_i next hne hl
      exact ih ((rooted_runLevel hp hnil).2 _ hl) h

end

/-- No run that `find_with_splitting` makes of a particle panics at a site that its prefix does not
have there. -/
theorem findWithSplitting_panic {κ : Type} (scenario : MonitoredScenario κ) (γ : Type) [StdRng γ] (fuel : Nat)
    (cfg : SplittingConfig) (seed : BitVec 64) {e : DrawPanic}
    (h : scenario.findWithSplitting γ fuel cfg seed = .error (.panic e)) : e = .rateMustBePositive :=
  runLevels_panic (List.forall_mem_singleton.mpr fun pre hpre => absurd hpre (Option.not_mem_none pre)) h

end DesCartes.Explore.MonitoredScenario
