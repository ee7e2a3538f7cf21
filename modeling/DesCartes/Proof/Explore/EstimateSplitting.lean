import DesCartes.Impl.Explore.EstimateSplitting

/-!
# The particles that a level counts

`observed` are the statuses that are observed in a run, the last of which it returns.
`follows_runUntilEndOr`: a level captures a prefix exactly if the threshold is reached in one of
them that is not the last. `estimateWithSplitting_counts_iff`: a particle is counted exactly if it
reaches the threshold of its level, unless it reaches it in the last status of its run only
(`OnlyLast`), which is that at which the terminal predicate stops it, or that of the final flush.
-/

namespace DesCartes.Explore.Estimate.Model

section
variable {κ : Type} (model : Model κ) (terminal : MonitorStatus → Bool) (endTime : SimTime)

/-- The statuses that are observed from a state on: after each step, and, unless the predicate stops
the run, at the end time. -/
def observed : Nat → κ → Option (List MonitorStatus)
  | 0, _ => none
  | fuel + 1, sim =>
    if (model.peekNextEventTime sim).isSome = true ∧ model.time sim < endTime then
      (model.step sim).bind fun sim => (model.flushUpTo sim (model.time sim)).bind fun sim =>
        if terminal (model.status sim) then some [model.status sim] else (observed fuel sim).map (model.status sim :: ·)
    else (model.flushUpTo sim endTime).map fun sim => [model.status sim]

variable (fuel : Nat) (threshold : F64)

/-- The statuses that are observed in the run of a particle. -/
def observedIn (p : Particle) : Option (List MonitorStatus) :=
  (model.setup p.seed p.pre p.seed).bind (model.observed terminal endTime fuel)

/-- The score reaches the threshold. -/
def Crosses (status : MonitorStatus) : Prop := F64.ge status.score threshold = true

/-- Some status that is observed in the run of the particle reaches the threshold. -/
def Reaches (p : Particle) : Prop :=
  ∃ statuses, model.observedIn terminal endTime fuel p = some statuses ∧ ∃ status ∈ statuses, Crosses threshold status

/-- The last status of the run reaches the threshold, and none before it. -/
def OnlyLast (p : Particle) : Prop :=
  ∃ earlier last, model.observedIn terminal endTime fuel p = some (earlier ++ [last]) ∧ Crosses threshold last ∧
    ∀ status ∈ earlier, ¬ Crosses threshold status

/-- The prefix that a level has from a particle. -/
def contribution (p : Particle) : Option (List TraceEvent) :=
  (model.runParticle fuel (model.stopInLevel terminal threshold) endTime p).bind (·.prefixAtThreshold)

end

/-- A level stage: its threshold and its particles. -/
structure Stage where
  threshold : F64
  particles : List Particle

section
variable {κ : Type} (model : Model κ) (terminal : MonitorStatus → Bool) (fuel : Nat)
  (cfg : SplittingEstimateConfig) (seed : BitVec 64)

/-- The prefixes of a stage. -/
def successful (stage : Stage) : List (List TraceEvent) :=
  stage.particles.filterMap (model.contribution terminal cfg.endTime fuel stage.threshold)

/-- The level stages from an index on, up to one without a prefix. -/
def stages : Nat → List F64 → List Particle → List Stage
  | _, [], _ => []
  | levelIndex, threshold :: levels, particles =>
    let successful := model.successful terminal fuel cfg ⟨threshold, particles⟩
    ⟨threshold, particles⟩ ::
      if successful = [] then [] else stages (levelIndex + 1) levels (resample seed levelIndex cfg.particles successful)

end

variable {κ : Type} {model : Model κ} {terminal : MonitorStatus → Bool} {endTime : SimTime} {fuel : Nat} {threshold : F64}

/-! ## One run -/

/-- What is observed in a run and what the run of a level ends with: the last status, and a prefix
if there was one or if the threshold is reached before the last. -/
inductive Follows (threshold : F64) (captured : Option (List TraceEvent)) : Option (List MonitorStatus) → Option (Ended κ) → Prop
  | none : Follows threshold captured none none
  | some (earlier : List MonitorStatus) (ended : Ended κ) (isSome : ended.prefixAtThreshold.isSome = true ↔
      captured.isSome = true ∨ ∃ status ∈ earlier, Crosses threshold status) :
      Follows threshold captured (some (earlier ++ [ended.status])) (some ended)

/-- A status that the run goes on after. -/
theorem Follows.cons {captured captured' : Option (List TraceEvent)} {status : MonitorStatus}
    {statuses : Option (List MonitorStatus)} {ended : Option (Ended κ)}
    (h : Follows threshold captured' statuses ended)
    (hc : captured'.isSome = true ↔ captured.isSome = true ∨ Crosses threshold status) :
    Follows threshold captured (statuses.map (status :: ·)) ended := by
  cases h with
  | none => exact .none
  | some earlier ended isSome =>
    refine .some (status :: earlier) ended ?_
    rw [isSome, hc, List.exists_mem_cons_iff, or_assoc]

theorem stopInLevel_of_not_terminal (threshold : F64) (captured : Option (List TraceEvent)) {sim : κ}
    (h : ¬ terminal (model.status sim) = true) :
    ∃ captured', model.stopInLevel terminal threshold captured sim = (false, captured') ∧
      (captured'.isSome = true ↔ captured.isSome = true ∨ Crosses threshold (model.status sim)) := by
  rw [stopInLevel, if_neg h]
  split
  · rename_i hc
    exact ⟨_, rfl, fun _ => .inr hc.2, fun _ => rfl⟩
  · rename_i hc
    refine ⟨_, rfl, .inl, fun hor => ?_⟩
    cases captured with
    | some pre => rfl
    | none => exact absurd ⟨rfl, hor.resolve_left Bool.false_ne_true⟩ hc

theorem follows_runUntilEndOr (captured : Option (List TraceEvent)) (sim : κ) :
    Follows threshold captured (model.observed terminal endTime fuel sim)
      (model.runUntilEndOr (model.stopInLevel terminal threshold) endTime fuel captured sim) := by
  have hlast : ∀ (sim : κ) (captured : Option (List TraceEvent)),
      Follows threshold captured (some [model.status sim]) (some ⟨sim, model.status sim, captured⟩) := by
    refine fun sim captured => .some [] ⟨sim, model.status sim, captured⟩ ⟨.inl, fun h => h.resolve_right ?_⟩
    rintro ⟨_, ⟨⟩, _⟩
  induction fuel generalizing captured sim with
  | zero => exact .none
  | succ fuel ih =>
    rw [observed, runUntilEndOr]
    split
    · cases model.step sim with
      | none => exact .none
      | some sim =>
        simp only [Option.bind_some]
        cases model.flushUpTo sim (model.time sim) with
        | none => exact .none
        | some sim =>
          simp only [Option.bind_some]
          by_cases ht : terminal (model.status sim) = true
          · rw [if_pos ht, stopInLevel, if_pos ht]
            exact hlast sim captured
          · obtain ⟨captured', hstop, hc⟩ := stopInLevel_of_not_terminal threshold captured ht
            rw [if_neg ht, hstop]
            exact (ih captured' sim).cons hc
    · cases model.flushUpTo sim endTime with
      | none => exact .none
      | some sim => exact hlast sim captured

theorem follows_runParticle (p : Particle) : Follows threshold none (model.observedIn terminal endTime fuel p)
    (model.runParticle fuel (model.stopInLevel terminal threshold) endTime p) := by
  rw [observedIn, runParticle]
  cases model.setup p.seed p.pre p.seed with
  | none => exact .none
  | some sim => exact follows_runUntilEndOr none sim

/-- A particle contributes a prefix exactly if it reaches the threshold, unless it is in the last
status of its run only. -/
theorem isSome_contribution_iff (p : Particle) :
    ((model.contribution terminal endTime fuel threshold p).isSome = true ↔
      model.Reaches terminal endTime fuel threshold p) ↔
      ¬ model.OnlyLast terminal endTime fuel threshold p := by
  have h : Follows threshold none (model.observedIn terminal endTime fuel p) _ := follows_runParticle p
  rw [contribution, Reaches, OnlyLast]
  generalize model.observedIn terminal endTime fuel p = statuses at h ⊢
  generalize model.runParticle fuel (model.stopInLevel terminal threshold) endTime p = ended at h ⊢
  cases h with
  | none =>
    refine ⟨fun _ => ?_, fun _ => ⟨fun h => absurd h Bool.false_ne_true, ?_⟩⟩
    · rintro ⟨_, _, ⟨⟩, _⟩
    · rintro ⟨_, ⟨⟩, _⟩
  | some earlier ended isSome =>
    have hcaptured : (ended.prefixAtThreshold.isSome = true) ↔ ∃ status ∈ earlier, Crosses threshold status :=
      isSome.trans (or_iff_right Bool.false_ne_true)
    rw [Option.bind_some, hcaptured]
    constructor
    · rintro h ⟨_, _, heq, hlast, hnone⟩
      obtain ⟨rfl, hstatus⟩ := List.append_inj' (Option.some.inj heq) rfl
      cases hstatus
      obtain ⟨status, hs, hc⟩ := h.mpr ⟨_, rfl, ended.status,
        List.mem_append_right _ (List.mem_singleton.mpr rfl), hlast⟩
      exact hnone status hs hc
    · refine fun h => ⟨fun ⟨status, hs, hc⟩ => ⟨_, rfl, status, List.mem_append_left _ hs, hc⟩, ?_⟩
      rintro ⟨_, ⟨⟩, status, hs, hc⟩
      by_contra hnone
      have hnone : ∀ status ∈ earlier, ¬ Crosses threshold status :=
        fun status hs hc => hnone ⟨status, hs, hc⟩
      refine h ⟨earlier, ended.status, rfl, ?_, hnone⟩
      rcases List.mem_append.mp hs with hs | hs
      · exact absurd hc (hnone status hs)
      · rwa [← List.mem_singleton.mp hs]

/-! ## The stages -/

variable {cfg : SplittingEstimateConfig} {seed : BitVec 64}

theorem successful_sampleLevel {particles : List Particle} {sampled sampled' : Sampled}
    (h : model.sampleLevel terminal fuel threshold cfg.endTime particles sampled = some sampled') :
    sampled'.successful = sampled.successful ++ model.successful terminal fuel cfg ⟨threshold,
      particles⟩ := by
  induction particles generalizing sampled with
  | nil =>
    cases h
    exact (List.append_nil _).symm
  | cons p particles ih =>
    rw [sampleLevel] at h
    obtain ⟨ended, hended, h⟩ := Option.bind_eq_some_iff.mp h
    have hcontribution : model.contribution terminal cfg.endTime fuel threshold p =
        ended.prefixAtThreshold := by
      rw [contribution, hended, Option.bind_some]
    rw [ih h, successful, successful, List.filterMap_cons, hcontribution, List.append_assoc]
    cases ended.prefixAtThreshold with
    | none => rfl
    | some pre => rfl

/-- The successes of the level stages, in their order. -/
theorem stageSuccesses_runStages {levelIndex : Nat} {levels : List F64} {particles : List Particle}
    {stageSuccesses : List Nat} {found : Option FoundCounterexample} {est : SplittingEstimate}
    (h : model.runStages terminal fuel cfg seed levelIndex levels particles stageSuccesses found = some est) :
    ∃ rest, est.stageSuccesses = stageSuccesses ++
      (model.stages terminal fuel cfg seed levelIndex levels particles).map (fun stage =>
        (model.successful terminal fuel cfg stage).length) ++ rest := by
  induction levels generalizing levelIndex particles stageSuccesses found with
  | nil =>
    rw [runStages] at h
    obtain ⟨⟨successes, found⟩, -, rfl⟩ := Option.map_eq_some_iff.mp h
    exact ⟨[successes], by rw [stages, List.map_nil, List.append_nil]⟩
  | cons threshold levels ih =>
    rw [runStages] at h
    obtain ⟨⟨successful, found⟩, hlevel, h⟩ := Option.bind_eq_some_iff.mp h
    have hsuccessful : successful = model.successful terminal fuel cfg ⟨threshold, particles⟩ :=
      successful_sampleLevel hlevel
    simp only at h
    rw [stages, ← hsuccessful]
    split at h
    · rename_i hnil
      cases h
      refine ⟨[], ?_⟩
      rw [if_pos hnil, List.map_cons, List.map_nil, ← hsuccessful, List.append_nil]
    · rename_i hnil
      obtain ⟨rest, hrest⟩ := ih h
      refine ⟨rest, ?_⟩
      rw [if_neg hnil, List.map_cons, ← hsuccessful, hrest, List.append_assoc _ [_], List.singleton_append]

end DesCartes.Explore.Estimate.Model

namespace DesCartes.Explore.Estimate

open Model

/-- In each level stage that the estimate comes to, the successes that it reports are those of the
particles that contribute a prefix, and a particle does so exactly if some status that is observed
in its run reaches the threshold, unless it is the last one only. -/
theorem estimateWithSplitting_counts_iff {κ : Type} (model : Model κ) (terminal : MonitorStatus → Bool) (fuel : Nat)
    (cfg : SplittingEstimateConfig) (seed : BitVec 64) {est : SplittingEstimate}
    (h : model.estimateWithSplitting terminal fuel cfg seed = some (.ok est)) :
    let stages := model.stages terminal fuel cfg seed 0 cfg.levels (firstParticles seed cfg.particles)
    (∀ (i : Nat) (stage : Stage), stages[i]? = some stage →
      est.stageSuccesses[i]? = some (model.successful terminal fuel cfg stage).length) ∧
      ∀ stage ∈ stages, ∀ p ∈ stage.particles,
        (((model.contribution terminal cfg.endTime fuel stage.threshold p).isSome = true ↔
            model.Reaches terminal cfg.endTime fuel stage.threshold p) ↔
          ¬ model.OnlyLast terminal cfg.endTime fuel stage.threshold p) := by
  refine ⟨fun i stage hi => ?_, fun stage _ p _ => isSome_contribution_iff p⟩
  rw [estimateWithSplitting] at h
  split at h
  · cases h
  · obtain ⟨est', hest, hok⟩ := Option.map_eq_some_iff.mp h
    cases hok
    obtain ⟨rest, hrest⟩ := stageSuccesses_runStages hest
    rw [hrest, List.nil_append]
    have hi' := congrArg (Option.map fun stage => (model.successful terminal fuel cfg stage).length) hi
    rw [← List.getElem?_map] at hi'
    rw [List.getElem?_append_left (List.getElem?_eq_some_iff.mp hi').1]
    exact hi'

/-- Two steps; the state is their number and the time up to which the monitor has been flushed. -/
def twoSteps (metastable : Nat × SimTime → Bool) (score : Nat × SimTime → F64) : Model (Nat × SimTime) where
  setup _ _ _ := some (0, .zero)
  peekNextEventTime s := if s.1 < 2 then some (.saturate (s.1 + 1)) else none
  time s := .saturate s.1
  step s := some (s.1 + 1, s.2)
  flushUpTo s now := some (s.1, now)
  status s := ⟨0, false, metastable s, none, none, score s⟩
  snapshot _ := []

/-- The bits of one. -/
def one : F64 := 0x3FF0000000000000

/-- A particle that reaches the threshold at its first step, and goes on to the terminal stage. -/
theorem estimateWithSplitting_counts_first :
    let model := twoSteps (fun s => s.1 = 2) fun _ => one
    let cfg : SplittingEstimateConfig := ⟨[one], 1, .saturate 60⟩
    ∃ est, model.estimateWithSplitting MonitorStatus.metastable 3 cfg 0 = some (.ok est) ∧ est.stageSuccesses = [1, 1] ∧
      ∀ p ∈ firstParticles 0 1, (model.contribution MonitorStatus.metastable cfg.endTime 3 one p).isSome = true ∧
        model.Reaches MonitorStatus.metastable cfg.endTime 3 one p := by
  intro model cfg
  have h : model.estimateWithSplitting MonitorStatus.metastable 3 cfg 0 = some (.ok _) := rfl
  have hcounts := (estimateWithSplitting_counts_iff model MonitorStatus.metastable 3 cfg 0 h).2
    ⟨one, _⟩ List.mem_cons_self
  refine ⟨_, h, rfl, fun p hp => ?_⟩
  cases List.mem_singleton.mp hp
  refine ⟨rfl, ((hcounts _ List.mem_cons_self).mpr ?_).mp rfl⟩
  rintro ⟨earlier, last, hobserved, -, hnone⟩
  have htwo : model.observedIn MonitorStatus.metastable cfg.endTime 3 ⟨none, deriveSeed 0 0⟩ = some
    ([_] ++ [_]) := rfl
  obtain ⟨rfl, -⟩ := List.append_inj' (Option.some.inj (htwo.symm.trans hobserved)) rfl
  exact hnone _ List.mem_cons_self rfl

/-- The score reaches the threshold in the step at which the run is stopped. -/
theorem not_counts_terminalStep :
    let model := twoSteps (fun s => s.1 = 2) fun s => if s.1 = 2 then one else 0
    let cfg : SplittingEstimateConfig := ⟨[one], 1, .saturate 60⟩
    ∃ est, model.estimateWithSplitting MonitorStatus.metastable 3 cfg 0 = some (.ok est) ∧ est.stageSuccesses = [0] ∧
      ∀ p ∈ firstParticles 0 1, model.Reaches MonitorStatus.metastable cfg.endTime 3 one p := by
  refine ⟨_, rfl, rfl, fun p hp => ?_⟩
  cases List.mem_singleton.mp hp
  exact ⟨_, rfl, _, List.mem_cons_of_mem _ List.mem_cons_self, rfl⟩

/-- The score reaches the threshold when the monitor is flushed up to the end time. -/
theorem not_counts_finalFlush :
    let model := twoSteps (fun _ => false) fun s => if s.2 = .saturate 60 then one else 0
    let cfg : SplittingEstimateConfig := ⟨[one], 1, .saturate 60⟩
    ∃ est, model.estimateWithSplitting MonitorStatus.metastable 3 cfg 0 = some (.ok est) ∧
    est.stageSuccesses = [0] ∧
      ∀ p ∈ firstParticles 0 1, model.Reaches MonitorStatus.metastable cfg.endTime 3 one p := by
  refine ⟨_, rfl, rfl, fun p hp => ?_⟩
  cases List.mem_singleton.mp hp
  exact ⟨_, rfl, _, List.mem_cons_of_mem _ (List.mem_cons_of_mem _ List.mem_cons_self), rfl⟩

end DesCartes.Explore.Estimate
