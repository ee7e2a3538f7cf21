import DesCartes.Proof.Explore.Splitting

/-!
# What splitting searches

`explored` are the particles that `find_with_splitting` runs, `created` the continuations that it
creates, in their order. `findWithSplitting_explores_iff`: where it returns none, all that it
creates is run, and none of it is metastable, exactly if the search comes to a level that its
particles leave no continuation of (`Unreached`). Otherwise it is the continuations of the last
level that no level is left for (`explored_append_unexplored`).
-/

namespace DesCartes.Explore.MonitoredScenario

section
variable {κ : Type} (scenario : MonitoredScenario κ) (γ : Type) [StdRng γ]

/-- A run of the particle ends or stops in a metastable status. -/
def EndsMetastable (endTime : SimTime) (p : Particle) : Prop :=
  ∃ threshold fuel ran, scenario.runParticle endTime threshold γ fuel p = .ok ran ∧ ran.status.metastable = true

variable (fuel : Nat) (cfg : SplittingConfig)

/-- The particles of a level that are run, which is each one until the search ends. -/
def ranIn (threshold : F64) : List Particle → List Particle
  | [] => []
  | p :: particles =>
    match scenario.runParticle cfg.endTime threshold γ fuel p with
    | .error _ => [p]
    | .ok ran => if ran.status.metastable then [p] else p :: ranIn threshold particles

/-- The continuations that there are at the end of a level. -/
def createdIn (threshold : F64) : Nat → List Particle → List Particle → List Particle
  | _, [], nextLevel => nextLevel
  | pIndex, p :: particles, nextLevel =>
    match scenario.runParticle cfg.endTime threshold γ fuel p with
    | .error _ => nextLevel
    | .ok ran =>
      if ran.status.metastable then nextLevel
      else
        match ran.capturedPrefix with
        | none => createdIn threshold (pIndex + 1) particles nextLevel
        | some pre => createdIn threshold (pIndex + 1) particles (spawnContinuations cfg threshold pIndex p pre nextLevel)

/-- The particles that the levels run. -/
def explored : List F64 → List Particle → List Particle
  | [], _ => []
  | threshold :: levels, particles =>
    scenario.ranIn γ fuel cfg threshold particles ++
      match scenario.runLevel γ fuel cfg threshold 0 particles [] with
      | .ok (.inr (p :: nextLevel)) => explored levels (p :: nextLevel)
      | _ => []

/-- The continuations that the levels create. -/
def created : List F64 → List Particle → List Particle
  | [], _ => []
  | threshold :: levels, particles =>
    scenario.createdIn γ fuel cfg threshold 0 particles [] ++
      match scenario.runLevel γ fuel cfg threshold 0 particles [] with
      | .ok (.inr (p :: nextLevel)) => created levels (p :: nextLevel)
      | _ => []

/-- The particles that there is no level left for. -/
def unexplored : List F64 → List Particle → List Particle
  | [], particles => particles
  | threshold :: levels, particles =>
    match scenario.runLevel γ fuel cfg threshold 0 particles [] with
    | .ok (.inr (p :: nextLevel)) => unexplored levels (p :: nextLevel)
    | _ => []

/-- The particles leave no continuation: there are to be none, or no run reaches the threshold. -/
def Barren (threshold : F64) (particles : List Particle) : Prop :=
  cfg.branchFactor = 0 ∨ cfg.maxParticlesPerLevel = 0 ∨
    ∀ p ∈ particles, ∀ ran, scenario.runParticle cfg.endTime threshold γ fuel p = .ok ran → ran.capturedPrefix = none

/-- The search comes to a level that its particles leave no continuation of. -/
def Unreached : List F64 → List Particle → Prop
  | [], _ => False
  | threshold :: levels, particles =>
    scenario.Barren γ fuel cfg threshold particles ∨
      ∃ nextLevel, scenario.runLevel γ fuel cfg threshold 0 particles [] = .ok (.inr nextLevel) ∧ Unreached levels nextLevel

end

variable {κ : Type} {scenario : MonitoredScenario κ} {γ : Type} [StdRng γ] {fuel : Nat} {cfg : SplittingConfig}

/-! ## The status of a run -/

/-- The status that a run ends with depends neither on the threshold nor on what has been captured. -/
theorem status_runUntilThresholdOrEnd {endTime : SimTime} {threshold threshold' : F64} {fuel' : Nat}
    {k : κ} {shared : Shared (SharedChainedRandomProvider γ)} {pre pre' : Option (List TraceEvent)}
    {ran ran' : Ran}
    (h : scenario.runUntilThresholdOrEnd endTime threshold fuel k shared pre = .ok ran)
    (h' : scenario.runUntilThresholdOrEnd endTime threshold' fuel' k shared pre' = .ok ran') :
    ran.status = ran'.status := by
  induction fuel generalizing fuel' k shared pre pre' with
  | zero => cases h
  | succ fuel ih =>
    cases fuel' with
    | zero => cases h'
    | succ fuel' =>
      rw [runUntilThresholdOrEnd] at h h'
      split at h
      · rename_i hgo
        rw [if_pos hgo] at h'
        cases hs : (scenario.watched.step k).tryRun Shared.perform shared with
        | error e =>
          rw [hs] at h
          cases h
        | ok t =>
          rw [hs] at h h'
          simp only at h h'
          split at h
          · rename_i hm
            rw [if_pos hm] at h'
            cases h
            cases h'
            rfl
          · rename_i hm
            rw [if_neg hm] at h'
            exact ih h h'
      · rename_i hgo
        rw [if_neg hgo] at h'
        cases h
        cases h'
        rfl

theorem status_runParticle {endTime : SimTime} {threshold threshold' : F64} {fuel' : Nat}
    {p : Particle} {ran ran' : Ran} (h : scenario.runParticle endTime threshold γ fuel p = .ok ran)
    (h' : scenario.runParticle endTime threshold' γ fuel' p = .ok ran') :
    ran.status = ran'.status := by
  rw [runParticle] at h h'
  cases ht : scenario.setup.tryRun Shared.perform
      (⟨.new p.pre p.continuationSeed, []⟩ : Shared (SharedChainedRandomProvider γ)) with
  | error e =>
    rw [ht] at h
    cases h
  | ok t =>
    rw [ht] at h h'
    exact status_runUntilThresholdOrEnd h h'

theorem not_endsMetastable {threshold : F64} {endTime : SimTime} {p : Particle} {ran : Ran}
    (h : scenario.runParticle endTime threshold γ fuel p = .ok ran) (hm : ran.status.metastable = false) :
    ¬ scenario.EndsMetastable γ endTime p := by
  rintro ⟨_, _, ran', h', hm'⟩
  rw [← status_runParticle h h', hm] at hm'
  cases hm'

/-! ## Continuations -/

theorem spawnContinuations_eq_nil {threshold : F64} {pIndex : Nat} {p : Particle} {pre : List TraceEvent}
    {nextLevel : List Particle} : spawnContinuations cfg threshold pIndex p pre nextLevel = [] ↔
      nextLevel = [] ∧ (cfg.branchFactor = 0 ∨ cfg.maxParticlesPerLevel = 0) := by
  have hgrows : ∀ (is : List Nat) (next : List Particle), next ≠ [] → is.foldl (fun nextLevel i =>
      if cfg.maxParticlesPerLevel ≤ nextLevel.length then nextLevel
      else
        let seed := p.continuationSeed ^^^ (threshold * 0x9E3779B9) ^^^ (BitVec.ofNat 64 pIndex <<< 32) ^^^
          (BitVec.ofNat 64 i * 0xD1B54A32D192ED03)
        nextLevel ++ [⟨some pre, seed⟩]) next ≠ [] := by
    intro is next hnext
    refine List.foldlRecOn (motive := fun next => next ≠ []) _ _ hnext fun next hnext i _ => ?_
    split
    · exact hnext
    · exact List.append_ne_nil_of_left_ne_nil hnext _
  rw [spawnContinuations]
  by_cases hnext : nextLevel = []
  · subst hnext
    rw [eq_self_iff_true, true_and]
    cases hb : cfg.branchFactor with
    | zero => exact ⟨fun _ => .inl rfl, fun _ => rfl⟩
    | succ b =>
      rw [List.range_succ_eq_map, List.foldl_cons, List.length_nil]
      constructor
      · intro h
        by_contra hcap
        refine hgrows _ _ ?_ h
        rw [if_neg (by omega)]
        exact List.cons_ne_nil _ _
      · rintro (hb' | hcap)
        · cases hb'
        · rw [if_pos (Nat.le_of_eq hcap)]
          refine List.foldlRecOn (motive := fun next => next = []) _ _ rfl fun next hnext i _ => ?_
          rw [if_pos (by omega), hnext]
  · exact ⟨fun h => absurd h (hgrows _ _ hnext), fun h => absurd h.1 hnext⟩

theorem pre_spawnContinuations {threshold : F64} {pIndex : Nat} {p : Particle} {pre : List TraceEvent}
    {nextLevel : List Particle} (hn : ∀ q ∈ nextLevel, q.pre ≠ none) :
    ∀ q ∈ spawnContinuations cfg threshold pIndex p pre nextLevel, q.pre ≠ none := by
  refine List.foldlRecOn (motive := fun next : List Particle => ∀ q ∈ next,
    q.pre ≠ none) _ _ hn fun next hnext i _ => ?_
  split
  · exact hnext
  · exact List.forall_mem_append.mpr ⟨hnext, List.forall_mem_singleton.mpr (Option.some_ne_none pre)⟩

/-! ## Levels -/

/-- What a level does that the search goes on after. -/
structure Level (scenario : MonitoredScenario κ) (γ : Type) [StdRng γ] (fuel : Nat) (cfg : SplittingConfig) (threshold : F64)
    (pIndex : Nat) (particles nextLevel next : List Particle) : Prop where
  ran : scenario.ranIn γ fuel cfg threshold particles = particles
  created : scenario.createdIn γ fuel cfg threshold pIndex particles nextLevel = next
  notMetastable : ∀ p ∈ particles, ¬ scenario.EndsMetastable γ cfg.endTime p
  pre : (∀ p ∈ nextLevel, p.pre ≠ none) → ∀ p ∈ next, p.pre ≠ none
  nil : next = [] ↔ nextLevel = [] ∧ scenario.Barren γ fuel cfg threshold particles

theorem barren_cons_of_none {threshold : F64} {p : Particle} {particles : List Particle} {ran : Ran}
    (hran : scenario.runParticle cfg.endTime threshold γ fuel p = .ok ran) (hc : ran.capturedPrefix = none) :
    scenario.Barren γ fuel cfg threshold (p :: particles) ↔
    scenario.Barren γ fuel cfg threshold particles := by
  have hp : ∀ ran, scenario.runParticle cfg.endTime threshold γ fuel p = .ok ran →
      ran.capturedPrefix = none := by
    rintro ran' h
    rw [hran] at h
    cases h
    exact hc
  rw [Barren, Barren, List.forall_mem_cons, and_iff_right hp]

theorem barren_cons_of_some {threshold : F64} {p : Particle} {particles : List Particle} {ran : Ran}
    {pre : List TraceEvent} (hran : scenario.runParticle cfg.endTime threshold γ fuel p = .ok ran)
    (hc : ran.capturedPrefix = some pre) :
    scenario.Barren γ fuel cfg threshold (p :: particles) ↔ cfg.branchFactor = 0 ∨
    cfg.maxParticlesPerLevel = 0 := by
  refine or_congr_right (or_iff_left fun h => ?_)
  have hnone := h p List.mem_cons_self ran hran
  rw [hc] at hnone
  cases hnone

theorem level_of_runLevel {threshold : F64} {pIndex : Nat} {particles nextLevel next : List Particle}
    (h : scenario.runLevel γ fuel cfg threshold pIndex particles nextLevel = .ok (.inr next)) :
    Level scenario γ fuel cfg threshold pIndex particles nextLevel next := by
  induction particles generalizing pIndex nextLevel with
  | nil =>
    rw [runLevel] at h
    cases h
    exact ⟨rfl, rfl, by rintro _ ⟨⟩, id, (and_iff_left (.inr (.inr (by rintro _ ⟨⟩)))).symm⟩
  | cons p particles ih =>
    rw [runLevel] at h
    cases hran : scenario.runParticle cfg.endTime threshold γ fuel p with
    | error stopped =>
      rw [hran] at h
      cases h
    | ok ran =>
      rw [hran] at h
      simp only at h
      split at h
      · cases h
      rename_i hm
      have hm : ran.status.metastable = false := Bool.eq_false_iff.mpr hm
      have hnot := not_endsMetastable hran hm
      cases hc : ran.capturedPrefix with
      | none =>
        rw [hc] at h
        obtain ⟨hran', hcreated, hmeta, hpre, hnil⟩ := ih h
        refine ⟨?_, ?_, List.forall_mem_cons.mpr ⟨hnot, hmeta⟩, hpre, ?_⟩
        · rw [ranIn, hran]
          simp only [hm, Bool.false_eq_true, if_false, hran']
        · rw [createdIn, hran]
          simp only [hm, Bool.false_eq_true, if_false, hc, hcreated]
        · rw [barren_cons_of_none hran hc]
          exact hnil
      | some pre =>
        rw [hc] at h
        obtain ⟨hran', hcreated, hmeta, hpre, hnil⟩ := ih h
        refine ⟨?_, ?_, List.forall_mem_cons.mpr ⟨hnot, hmeta⟩,
          fun hn => hpre (pre_spawnContinuations hn), ?_⟩
        · rw [ranIn, hran]
          simp only [hm, Bool.false_eq_true, if_false, hran']
        · rw [createdIn, hran]
          simp only [hm, Bool.false_eq_true, if_false, hc, hcreated]
        · rw [barren_cons_of_some hran hc, hnil, spawnContinuations_eq_nil, and_assoc]
          exact and_congr_right fun _ => and_iff_left_of_imp fun hb => hb.elim .inl fun hcap =>
            .inr (.inl hcap)

variable (scenario γ fuel cfg) in
theorem explored_cons (threshold : F64) (levels : List F64) (p : Particle) (particles : List Particle) :
    ∃ rest, scenario.explored γ fuel cfg (threshold :: levels) (p :: particles) = p :: rest := by
  rw [explored, ranIn]
  split
  · exact ⟨_, rfl⟩
  · split
    · exact ⟨_, rfl⟩
    · exact ⟨_, rfl⟩

/-- A search that finds nothing: whatever there is has been run, or is what no level is left for. -/
theorem explored_append_unexplored {levels : List F64} {particles : List Particle}
    (h : scenario.runLevels γ fuel cfg levels particles = .ok none) :
    scenario.explored γ fuel cfg levels particles ++ scenario.unexplored γ fuel cfg levels particles =
        particles ++ scenario.created γ fuel cfg levels particles ∧
      (∀ p ∈ scenario.explored γ fuel cfg levels particles, ¬ scenario.EndsMetastable γ cfg.endTime p) ∧
      ∀ p ∈ scenario.created γ fuel cfg levels particles, p.pre ≠ none := by
  induction levels generalizing particles with
  | nil => exact ⟨(List.append_nil _).symm, by rintro _ ⟨⟩, by rintro _ ⟨⟩⟩
  | cons threshold levels ih =>
    rw [runLevels] at h
    rw [explored, created, unexplored]
    split at h
    · cases h
    · cases h
    · rename_i hl
      have level := level_of_runLevel hl
      rw [hl, level.ran, level.created]
      simp only [List.append_nil]
      exact ⟨trivial, level.notMetastable, by rintro _ ⟨⟩⟩
    · rename_i next hne hl
      have level := level_of_runLevel hl
      cases next with
      | nil => exact (hne rfl).elim
      | cons q next =>
        obtain ⟨heq, hmeta, hpre⟩ := ih h
        rw [hl, level.ran, level.created]
        simp only
        rw [List.append_assoc, heq]
        exact ⟨rfl, List.forall_mem_append.mpr ⟨level.notMetastable, hmeta⟩,
          List.forall_mem_append.mpr ⟨level.pre (by rintro _ ⟨⟩), hpre⟩⟩

theorem unexplored_eq_nil_iff {levels : List F64} {particles : List Particle} (hp : particles ≠ [])
    (h : scenario.runLevels γ fuel cfg levels particles = .ok none) :
    scenario.unexplored γ fuel cfg levels particles = [] ↔
    scenario.Unreached γ fuel cfg levels particles := by
  induction levels generalizing particles with
  | nil => exact ⟨hp, False.elim⟩
  | cons threshold levels ih =>
    rw [runLevels] at h
    rw [unexplored, Unreached]
    split at h
    · cases h
    · cases h
    · rename_i hl
      rw [hl]
      exact ⟨fun _ => .inl ((level_of_runLevel hl).nil.mp rfl).2, fun _ => rfl⟩
    · rename_i next hne hl
      cases next with
      | nil => exact (hne rfl).elim
      | cons q next =>
        have hnot : ¬ scenario.Barren γ fuel cfg threshold particles := fun hb =>
          List.cons_ne_nil q next ((level_of_runLevel hl).nil.mpr ⟨rfl, hb⟩)
        rw [hl, or_iff_right hnot]
        simp only
        rw [ih (List.cons_ne_nil q next) h]
        constructor
        · exact fun hu => ⟨_, rfl, hu⟩
        · rintro ⟨_, ⟨⟩, hu⟩
          exact hu

end DesCartes.Explore.MonitoredScenario

namespace DesCartes.Explore

open MonitoredScenario

/-- Where `find_with_splitting` returns none: every continuation that it creates is run and no run
of the first particle or of a continuation is metastable, exactly if the search comes to a level
that its particles leave no continuation of, or there are no levels and the run of the first
particle is not metastable. -/
theorem findWithSplitting_explores_iff {κ : Type} (scenario : MonitoredScenario κ) (γ : Type) [StdRng γ] (fuel : Nat)
    (cfg : SplittingConfig) (seed : BitVec 64) (h : scenario.findWithSplitting γ fuel cfg seed = .ok none) :
    (scenario.created γ fuel cfg cfg.levels [⟨none, seed⟩]).Sublist (scenario.explored γ fuel cfg cfg.levels [⟨none, seed⟩]) ∧
        (∀ p ∈ ⟨none, seed⟩ :: scenario.created γ fuel cfg cfg.levels [⟨none, seed⟩],
          ¬ scenario.EndsMetastable γ cfg.endTime p) ↔
      scenario.Unreached γ fuel cfg cfg.levels [⟨none, seed⟩] ∨
        cfg.levels = [] ∧ ¬ scenario.EndsMetastable γ cfg.endTime ⟨none, seed⟩ := by
  obtain ⟨heq, hmeta, hpre⟩ := explored_append_unexplored h
  have hnil := unexplored_eq_nil_iff (List.cons_ne_nil _ _) h
  generalize hlevels : cfg.levels = levels at heq hmeta hpre hnil
  cases levels with
  | nil =>
    rw [explored, created, Unreached, List.forall_mem_singleton]
    exact ⟨fun h => .inr ⟨rfl, h.2⟩, fun h => ⟨.refl _, h.elim False.elim And.right⟩⟩
  | cons threshold levels =>
    rw [or_iff_left fun h => List.cons_ne_nil _ _ h.1, ← hnil]
    constructor
    · rintro ⟨hsub, -⟩
      obtain ⟨rest, hrest⟩ := explored_cons scenario γ fuel cfg threshold levels ⟨none, seed⟩ []
      rw [hrest] at heq hsub
      have hcreated : rest ++ _ = scenario.created γ fuel cfg (threshold :: levels) [⟨none, seed⟩] :=
        (List.cons.inj heq).2
      -- the first particle has no prefix, so that it is none of the continuations
      have hsub := (List.sublist_cons_iff.mp hsub).resolve_right fun ⟨_, hr, _⟩ =>
        hpre ⟨none, seed⟩ (hr ▸ List.mem_cons_self) rfl
      have hlen := hsub.length_le
      rw [← hcreated, List.length_append] at hlen
      exact List.eq_nil_of_length_eq_zero (by omega)
    · intro hu
      rw [hu, List.append_nil, List.singleton_append] at heq
      rw [← heq]
      refine ⟨?_, hmeta⟩
      rw [heq]
      exact List.sublist_cons_self _ _

/-! ## A level at which a search ends -/

/-- Two draws and a score of one; the status is metastable where the second draw is `bad`. -/
def twoDraws (bad : F64) : MonitoredScenario (List F64) where
  setup := .done []
  step draws := .ask (.draw ⟨"arrival", 1⟩ 1) fun draw => .done (draws ++ draw.toList)
  peekNextEventTime draws := if draws.length < 2 then some (.saturate (draws.length + 1)) else none
  time draws := .saturate draws.length
  flushUpTo draws _ := draws
  status draws := ⟨draws[1]? = some bad, 0x3FF0000000000000⟩

/-- The seed of the continuation of the first particle, at a threshold of one. -/
def secondSeed : BitVec 64 := 0x3FF0000000000000 * 0x9E3779B9

/-- One level, which the first particle reaches at its first draw; the second draw of its
continuation would be bad. -/
theorem not_explored_lastLevel :
    let scenario := twoDraws secondSeed
    let cfg : SplittingConfig := ⟨[0x3FF0000000000000], 1, 1, .saturate 60⟩
    scenario.findWithSplitting Nat 3 cfg 0 = .ok none ∧
      ∃ p, scenario.created Nat 3 cfg cfg.levels [⟨none, 0⟩] = [p] ∧
        scenario.explored Nat 3 cfg cfg.levels [⟨none, 0⟩] = [⟨none, 0⟩] ∧ p.pre ≠ none ∧
        scenario.EndsMetastable Nat cfg.endTime p := by
  refine ⟨rfl, ⟨some [drawEvent ⟨"arrival", 1⟩ 0], _⟩, rfl, rfl, Option.some_ne_none _, 0, 3, _, rfl, rfl⟩

/-- Two levels, the second of which the continuation does not reach. -/
theorem findWithSplitting_explores_unreached :
    let scenario := twoDraws 7
    let cfg : SplittingConfig := ⟨[0x3FF0000000000000, 0x4000000000000000], 1, 1, .saturate 60⟩
    ∃ p, scenario.created Nat 3 cfg cfg.levels [⟨none, 0⟩] = [p] ∧ ¬ scenario.EndsMetastable Nat cfg.endTime p := by
  intro scenario cfg
  have hfind : scenario.findWithSplitting Nat 3 cfg 0 = .ok none := rfl
  have hlevel : scenario.runLevel Nat 3 cfg 0x3FF0000000000000 0 [⟨none, 0⟩] [] = .ok (.inr [_]) := rfl
  refine ⟨_, rfl, ((findWithSplitting_explores_iff scenario Nat 3 cfg 0 hfind).mpr
    (.inl (.inr ⟨_, hlevel, .inl ?_⟩))).2 _
    (List.mem_cons_of_mem _ (List.mem_singleton.mpr rfl))⟩
  refine .inr (.inr (List.forall_mem_singleton.mpr fun ran hran => ?_))
  cases hran
  rfl

end DesCartes.Explore
