import DesCartes.Impl.Explore.MonteCarlo
import DesCartes.Proof.Explore.EstimateSplitting
import DesCartes.Proof.Ids
import Mathlib.Data.List.Nodup

/-!
# Seeds are distinct

`derive_seed` mixes the base and a multiple of the index as `splitmix64` does (`deriveSeed_eq`), and
its factor has an inverse, so different indices have different seeds (`deriveSeed_inj`). A stage
that is resampled packs its level and the particle into the halves of the index (`packed_inj`).

`ranStages` are the stages that an estimate runs, the terminal one included, and `stageSuccesses_eq`
says that the estimate counts the particles of these. `distinct_seeds`: the trials of an estimate
have distinct seeds, the particles of a stage too, and all those that are resampled.
-/

namespace DesCartes.Explore.Estimate

/-! ## The function -/

theorem deriveSeed_eq (base i : BitVec 64) :
    deriveSeed base i = Ids.splitmix64 (base + i * 0x9E3779B97F4A7C15#64 - 0x9E3779B97F4A7C15#64) := by
  rw [Ids.splitmix64, BitVec.sub_add_cancel]
  rfl

/-- Different indices have different seeds. -/
theorem deriveSeed_inj {base i j : BitVec 64} (h : deriveSeed base i = deriveSeed base j) : i = j := by
  rw [deriveSeed_eq, deriveSeed_eq] at h
  have hmixed := congrArg (· + 0x9E3779B97F4A7C15#64) (Ids.splitmix64_inj h)
  simp only [BitVec.sub_add_cancel] at hmixed
  have hinverse : 0x9E3779B97F4A7C15#64 * 0xF1DE83E19937733D#64 = 1#64 := by decide
  exact Ids.mul_right_inj_of_inverse hinverse ((BitVec.add_right_inj base).mp hmixed)

/-- The index of a particle that is resampled. -/
theorem packed_inj {l l' j j' : Nat} (hl : l < 2 ^ 32) (hl' : l' < 2 ^ 32) (hj : j < 2 ^ 32)
    (hj' : j' < 2 ^ 32)
    (h : BitVec.ofNat 64 l <<< 32 ||| BitVec.ofNat 64 j = BitVec.ofNat 64 l' <<< 32 ||| BitVec.ofNat 64 j') :
    l = l' ∧ j = j' := by
  have packed : ∀ {l j : Nat}, l < 2 ^ 32 → j < 2 ^ 32 →
      (BitVec.ofNat 64 l <<< 32 ||| BitVec.ofNat 64 j).toNat = l * 2 ^ 32 + j := by
    intro l j hl hj
    rw [BitVec.toNat_or, BitVec.toNat_shiftLeft, BitVec.toNat_ofNat, BitVec.toNat_ofNat, Nat.shiftLeft_eq,
      Nat.mod_eq_of_lt (show l < 2 ^ 64 by omega), Nat.mod_eq_of_lt (show j < 2 ^ 64 by omega),
      Nat.mod_eq_of_lt (by omega),
      ← Nat.shiftLeft_eq, ← Nat.shiftLeft_add_eq_or_of_lt hj, Nat.shiftLeft_eq]
  have hpacked := congrArg BitVec.toNat h
  rw [packed hl hj, packed hl' hj'] at hpacked
  omega

/-- The seed of a particle that is resampled. -/
def resampledSeed (seed : BitVec 64) (levelIndex j : Nat) : BitVec 64 :=
  deriveSeed (seed ^^^ 0xD1B54A32D192ED03) (BitVec.ofNat 64 levelIndex <<< 32 ||| BitVec.ofNat 64 j)

theorem resampledSeed_inj {seed : BitVec 64} {l l' j j' : Nat} (hl : l < 2 ^ 32) (hl' : l' < 2 ^ 32)
    (hj : j < 2 ^ 32) (hj' : j' < 2 ^ 32) (h : resampledSeed seed l j = resampledSeed seed l' j') :
    l = l' ∧ j = j' :=
  packed_inj hl hl' hj hj' (deriveSeed_inj h)

theorem nodup_trialSeeds (seed : BitVec 64) {trials : Nat} (h : trials ≤ u64Max) :
    (trialSeeds seed trials).Nodup := by
  refine List.Nodup.map_on (fun i hi j hj e => ?_) List.nodup_range
  have hi := List.mem_range.mp hi
  have hj := List.mem_range.mp hj
  exact Ids.ofNat_inj (by omega) (by omega) (deriveSeed_inj e)

/-! ## The trials -/

namespace Model

variable {κ : Type} (model : Model κ)

section
variable (predicate : MonitorStatus → Bool) (fuel : Nat) (endTime : SimTime)

/-- The run of a particle, with the predicate to stop it, ends with a status that satisfies it. -/
def satisfies (p : Particle) : Bool :=
  (model.runParticle fuel (fun captured sim => (predicate (model.status sim), captured)) endTime p).any fun ended =>
    predicate ended.status

variable {model predicate fuel endTime}

/-- The successes are counted among the trials of the seeds; a trial is the run of a particle
without a prefix. -/
theorem runTrials_eq {seeds : List (BitVec 64)} {successes n : Nat}
    (h : model.runTrials predicate fuel endTime seeds successes = some n) :
    n = successes + seeds.countP fun seed => model.satisfies predicate fuel endTime ⟨none, seed⟩ := by
  induction seeds generalizing successes with
  | nil =>
    cases h
    rfl
  | cons seed seeds ih =>
    obtain ⟨ended, hended, hrest⟩ := Option.bind_eq_some_iff.mp h
    have hsatisfies : model.satisfies predicate fuel endTime ⟨none, seed⟩ = predicate ended.status :=
      congrArg (Option.any fun ended : Ended κ => predicate ended.status) hended
    rw [ih hrest, List.countP_cons, hsatisfies]
    split <;> omega

theorem sampleTerminal_eq {particles : List Particle} {sampled sampled' : Nat × Option FoundCounterexample}
    (h : model.sampleTerminal predicate fuel endTime particles sampled = some sampled') :
    sampled'.1 = sampled.1 + particles.countP (model.satisfies predicate fuel endTime) := by
  induction particles generalizing sampled with
  | nil =>
    cases h
    rfl
  | cons p particles ih =>
    obtain ⟨ended, hended, hrest⟩ := Option.bind_eq_some_iff.mp h
    rw [ih hrest, List.countP_cons, satisfies, hended, Option.any_some]
    split <;> omega

end

/-! ## The stages -/

/-- A stage that is run: its threshold, unless it is the terminal one, and its particles. -/
structure RanStage where
  threshold : Option F64
  particles : List Particle

section
variable (terminal : MonitorStatus → Bool) (fuel : Nat) (cfg : SplittingEstimateConfig) (seed : BitVec 64)

/-- The stages from a level on: there are no more once a level has no prefix. -/
def ranStages : Nat → List F64 → List Particle → List RanStage
  | _, [], particles => [⟨none, particles⟩]
  | levelIndex, threshold :: levels, particles =>
    let successful := model.successful terminal fuel cfg ⟨threshold, particles⟩
    ⟨some threshold, particles⟩ ::
      if successful = [] then [] else ranStages (levelIndex + 1) levels (resample seed levelIndex cfg.particles successful)

/-- How many particles of a stage are counted: those that have a prefix, or in the terminal stage
satisfy the predicate. -/
def counted (stage : RanStage) : Nat :=
  match stage.threshold with
  | some threshold => (model.successful terminal fuel cfg ⟨threshold, stage.particles⟩).length
  | none => stage.particles.countP (model.satisfies terminal fuel cfg.endTime)

variable {model terminal fuel cfg seed}

/-- The successes that an estimate reports are counted in the stages that it runs. -/
theorem stageSuccesses_eq {levelIndex : Nat} {levels : List F64} {particles : List Particle}
    {stageSuccesses : List Nat} {found : Option FoundCounterexample} {est : SplittingEstimate}
    (h : model.runStages terminal fuel cfg seed levelIndex levels particles stageSuccesses found = some est) :
    est.stageSuccesses = stageSuccesses ++
      (model.ranStages terminal fuel cfg seed levelIndex levels particles).map
        (model.counted terminal fuel cfg) := by
  induction levels generalizing levelIndex particles stageSuccesses found with
  | nil =>
    rw [runStages] at h
    obtain ⟨⟨successes, found⟩, hterminal, rfl⟩ := Option.map_eq_some_iff.mp h
    have hcounted : successes = 0 + model.counted terminal fuel cfg ⟨none, particles⟩ :=
      sampleTerminal_eq hterminal
    rw [ranStages, List.map_cons, List.map_nil, hcounted, Nat.zero_add]
  | cons threshold levels ih =>
    rw [runStages] at h
    obtain ⟨⟨successful, found⟩, hlevel, h⟩ := Option.bind_eq_some_iff.mp h
    have hsuccessful : successful = model.successful terminal fuel cfg ⟨threshold, particles⟩ :=
      successful_sampleLevel hlevel
    have hcounted : model.counted terminal fuel cfg ⟨some threshold, particles⟩ = successful.length := by
      rw [hsuccessful]
      rfl
    simp only at h
    rw [ranStages, ← hsuccessful, List.map_cons, hcounted]
    split at h
    · rename_i hnil
      cases h
      rw [if_pos hnil, List.map_nil]
    · rename_i hnil
      rw [if_neg hnil, ih h, List.append_assoc, List.singleton_append]

theorem map_seed_resample (seed : BitVec 64) (levelIndex particles : Nat)
    (successful : List (List TraceEvent)) :
    (resample seed levelIndex particles successful).map (·.seed) =
      (List.range particles).map (resampledSeed seed levelIndex) := by
  rw [resample, List.map_map]
  rfl

/-- The seeds of the stages that follow a level: those of the levels from it on, as far as they are run. -/
theorem map_seeds_ranStages (levelIndex : Nat) (levels : List F64) (successful : List (List TraceEvent)) :
    ∃ k ≤ levels.length + 1, (model.ranStages terminal fuel cfg seed (levelIndex + 1) levels
        (resample seed levelIndex cfg.particles successful)).map (fun stage => stage.particles.map (·.seed)) =
      (List.range' levelIndex k).map fun l => (List.range cfg.particles).map (resampledSeed seed l) := by
  induction levels generalizing levelIndex successful with
  | nil =>
    refine ⟨1, le_rfl, ?_⟩
    rw [ranStages, List.map_cons, map_seed_resample]
    rfl
  | cons threshold levels ih =>
    rw [ranStages]
    split
    · refine ⟨1, by rw [List.length_cons]; omega, ?_⟩
      rw [List.map_cons, map_seed_resample]
      rfl
    · obtain ⟨k, hk, hmap⟩ := ih (levelIndex + 1) (model.successful terminal fuel cfg
        ⟨threshold, resample seed levelIndex cfg.particles successful⟩)
      refine ⟨k + 1, by rw [List.length_cons]; omega, ?_⟩
      rw [List.map_cons, hmap, map_seed_resample, List.range'_succ, List.map_cons]

/-- The seeds of the stages: the first one has those of trials, the others those of the levels before them. -/
theorem map_seeds_stages (model : Model κ) (terminal : MonitorStatus → Bool) (fuel : Nat)
    (cfg : SplittingEstimateConfig) (seed : BitVec 64) (levels : List F64) : ∃ k ≤ levels.length,
    (model.ranStages terminal fuel cfg seed 0 levels (firstParticles seed cfg.particles)).map (fun stage =>
        stage.particles.map (·.seed)) =
      trialSeeds seed cfg.particles :: (List.range' 0 k).map fun l => (List.range cfg.particles).map
        (resampledSeed seed l) := by
  have hfirst : (firstParticles seed cfg.particles).map (·.seed) = trialSeeds seed cfg.particles := by
    rw [firstParticles, List.map_map]
    rfl
  cases levels with
  | nil => exact ⟨0, le_rfl, by rw [ranStages, List.map_cons, hfirst]; rfl⟩
  | cons threshold levels =>
    rw [ranStages]
    split
    · exact ⟨0, Nat.zero_le _, by rw [List.map_cons, hfirst]; rfl⟩
    · obtain ⟨k, hk, hmap⟩ := map_seeds_ranStages 0 levels (model.successful terminal fuel cfg
        ⟨threshold, firstParticles seed cfg.particles⟩)
      exact ⟨k, hk, by rw [List.map_cons, hfirst, hmap]⟩

end

end Model

/-- The seeds of a level and of a particle are those of no other. -/
theorem nodup_resampled (seed : BitVec 64) {particles k : Nat} (hparticles : particles < 2 ^ 32)
    (hk : k < 2 ^ 32) :
    ((List.range' 0 k).flatMap fun l => (List.range particles).map (resampledSeed seed l)).Nodup := by
  have hlevel : ∀ {l}, l ∈ List.range' 0 k → l < 2 ^ 32 := by
    intro l hl
    have := List.mem_range'_1.mp hl
    omega
  have hparticle : ∀ {j}, j ∈ List.range particles → j < 2 ^ 32 :=
    fun hj => (List.mem_range.mp hj).trans hparticles
  refine List.nodup_flatMap.mpr ⟨fun l hl => ?_, ?_⟩
  · refine List.Nodup.map_on (fun i hi j hj e => ?_) List.nodup_range
    exact (resampledSeed_inj (hlevel hl) (hlevel hl) (hparticle hi) (hparticle hj) e).2
  · refine List.Pairwise.imp_of_mem (fun {l l'} hl hl' hne => ?_) (List.nodup_range' (s := 0) (n := k))
    show List.Disjoint _ _
    intro s hs hs'
    obtain ⟨j, hj, rfl⟩ := List.mem_map.mp hs
    obtain ⟨j', hj', e⟩ := List.mem_map.mp hs'
    exact hne (resampledSeed_inj (hlevel hl') (hlevel hl) (hparticle hj') (hparticle hj) e).1.symm

open Model

/-- `derive_seed` is injective in its index, so the trials of a Monte Carlo estimate have distinct
seeds, and in an estimate by splitting the particles of each stage do and all the particles that are
resampled; what the estimates report is counted in these. -/
theorem distinct_seeds {κ : Type} (model : Model κ) (predicate : MonitorStatus → Bool) (fuel : Nat)
    (seed : BitVec 64) (stats : Stats)
    (monteCarlo : MonteCarloConfig) (cfg : SplittingEstimateConfig) :
    let stages := model.ranStages predicate fuel cfg seed 0 cfg.levels (firstParticles seed cfg.particles)
    (∀ base, Function.Injective (deriveSeed base)) ∧
      (trialSeeds seed monteCarlo.trials).Nodup ∧
      (∀ est, model.estimateMonteCarlo predicate fuel stats monteCarlo seed = some (.ok est) → est.successes =
        (trialSeeds seed monteCarlo.trials).countP fun s => model.satisfies predicate fuel monteCarlo.endTime ⟨none, s⟩) ∧
      (cfg.particles < 2 ^ 32 → cfg.levels.length < 2 ^ 32 →
        (∀ stage ∈ stages, (stage.particles.map (·.seed)).Nodup) ∧ ((stages.tail.flatMap (·.particles)).map (·.seed)).Nodup) ∧
      ∀ est, model.estimateWithSplitting predicate fuel cfg seed = some (.ok est) →
        est.stageSuccesses = stages.map (model.counted predicate fuel cfg) := by
  intro stages
  refine ⟨fun base i j h => deriveSeed_inj h, nodup_trialSeeds seed monteCarlo.trials_le, fun est hest => ?_,
    fun hparticles hlevels => ?_, fun est hest => ?_⟩
  · rw [estimateMonteCarlo] at hest
    split at hest
    · cases hest
    · obtain ⟨successes, hsuccesses, hok⟩ := Option.map_eq_some_iff.mp hest
      cases hok
      rw [← Nat.zero_add (List.countP _ _)]
      exact runTrials_eq hsuccesses
  · obtain ⟨k, hk, hmap⟩ := map_seeds_stages model predicate fuel cfg seed cfg.levels
    have hresampled := nodup_resampled seed hparticles (hk.trans_lt hlevels)
    constructor
    · intro stage hstage
      have hmem := List.mem_map_of_mem (f := fun stage : RanStage => stage.particles.map (·.seed)) hstage
      rw [hmap] at hmem
      rcases List.mem_cons.mp hmem with hseeds | hseeds
      · rw [hseeds]
        exact nodup_trialSeeds seed (by simp only [u64Max]; omega)
      · obtain ⟨l, hl, hseeds⟩ := List.mem_map.mp hseeds
        rw [← hseeds]
        exact (List.nodup_flatMap.mp hresampled).1 l hl
    · have htail := congrArg List.tail hmap
      rw [← List.map_tail, List.tail_cons] at htail
      rw [List.map_flatMap, List.flatMap_def, htail, ← List.flatMap_def]
      exact hresampled
  · rw [estimateWithSplitting] at hest
    split at hest
    · cases hest
    · obtain ⟨est', hest', hok⟩ := Option.map_eq_some_iff.mp hest
      cases hok
      exact stageSuccesses_eq hest'

/-- Two trials, and two particles that come to the terminal stage. -/
theorem distinct_seeds_two :
    let model := twoSteps (fun s => s.1 = 2) fun _ => one
    let stats : Stats := ⟨fun _ _ => 0, fun _ _ _ => none⟩
    let cfg : SplittingEstimateConfig := ⟨[one], 2, .saturate 60⟩
    let stages := model.ranStages MonitorStatus.metastable 3 cfg 7 0 cfg.levels (firstParticles 7 cfg.particles)
    (∃ est, model.estimateMonteCarlo MonitorStatus.metastable 3 stats ⟨2, .saturate 60, 0, by decide⟩ 7 = some (.ok est) ∧
      est.successes = (trialSeeds 7 2).countP fun s => model.satisfies MonitorStatus.metastable 3 (.saturate 60) ⟨none, s⟩) ∧
    (∃ est, model.estimateWithSplitting MonitorStatus.metastable 3 cfg 7 = some (.ok est) ∧
      est.stageSuccesses = stages.map (model.counted MonitorStatus.metastable 3 cfg)) ∧
    stages.length = 2 ∧ (∀ stage ∈ stages, (stage.particles.map (·.seed)).Nodup) ∧
      ((stages.tail.flatMap (·.particles)).map (·.seed)).Nodup := by
  intro model stats cfg stages
  obtain ⟨-, -, htrials, hstages, hcounted⟩ :=
    distinct_seeds model MonitorStatus.metastable 3 7 stats ⟨2, .saturate 60, 0, by decide⟩ cfg
  have hmonteCarlo : model.estimateMonteCarlo MonitorStatus.metastable 3 stats
    ⟨2, .saturate 60, 0, by decide⟩ 7 = some (.ok _) := rfl
  have hsplitting : model.estimateWithSplitting MonitorStatus.metastable 3 cfg 7 = some (.ok _) := rfl
  have hnodup := hstages (by decide) (by decide)
  exact ⟨⟨_, hmonteCarlo, htrials _ hmonteCarlo⟩, ⟨_, hsplitting, hcounted _ hsplitting⟩, rfl,
    hnodup.1, hnodup.2⟩

end DesCartes.Explore.Estimate
