import DesCartes.Framework.Machine
import DesCartes.Impl.Components

/-!
# The simulations of a thread

`run_isolated`: as long as no simulation processes an event while the buffer holds a wake that was
deferred for another one (`Settled`), every deferred wake is scheduled into its own simulation, and
each simulation does what it does when it is the only one of the thread: the same events, and the
same clock.

A wake that is deferred while no event is processed stays in the buffer for whichever simulation is
stepped next, so the condition cannot be left out. Components of simulations with the same seed have
the same keys, and the wake reaches one of the wrong simulation (`tornDown_leaks`).
-/

namespace DesCartes.Thread

variable {κ ε τ ρ φ : Type} [EventFrontierPolicy φ]

/-- A simulation that is about to process an event finds only wakes of its own in the buffer. -/
def Settled (t : Thread κ ε τ ρ φ) : Nat × Use κ ε τ φ → Prop
  | (k, .call .step) => ∀ sim, t.sims k = some sim → (sim.scheduler.popWithPolicy sim.frontierPolicy).1 ≠ none →
      ∀ w ∈ t.deferred, w.1 = k
  | _ => True

/-! ## What a use does to the buffer -/

/-- What the calls return that schedule no deferred wakes. -/
def Undrained (r : Returned ε) : Prop := ∀ event receiver drained, r = .stepped event receiver drained → drained = []

section
variable {code : Code κ ε τ ρ} {k : Nat} {sim sim' : Simulation κ ε τ ρ φ} {d d' : List (Nat × DeferredWake ε)}
  {c : Call κ ε τ φ} {r : Returned ε}

/-- A call adds wakes to the buffer and does not look into it, or it is a step that processes an
event and leaves the buffer empty. -/
theorem call_cases (h : Simulation.call code k (sim, d) c = some ((sim', d'), r)) :
    (∃ issued : List (DeferredWake ε), Undrained r ∧
      ∀ e, Simulation.call code k (sim, e) c = some ((sim', e ++ issued.map (k, ·)), r)) ∨
    (c = .step ∧ (sim.scheduler.popWithPolicy sim.frontierPolicy).1 ≠ none ∧ d' = [] ∧
      ∃ event receiver, ∃ wakes : List (DeferredWake ε),
      r = .stepped event receiver (d ++ wakes.map (k, ·))) := by
  have hnew : ∀ {id replaced}, Undrained (.key id replaced : Returned ε) := fun _ _ _ e => nomatch e
  cases c with
  | setFrontierPolicy policy =>
    cases h
    exact .inl ⟨[], fun _ _ _ e => (nomatch e), fun e => by simp [Simulation.call]⟩
  | addComponent component =>
    obtain ⟨⟨sim₁, r₁⟩, hadd, e⟩ := Option.map_eq_some_iff.mp h
    cases e
    refine .inl ⟨[], ?_, fun e => by simp [Simulation.call, hadd]⟩
    simp only [Simulation.addComponent, Simulation.insert] at hadd
    split at hadd
    · cases hadd
      exact hnew
    · cases hadd
  | register component =>
    obtain ⟨⟨sim₁, r₁⟩, hreg, e⟩ := Option.map_eq_some_iff.mp h
    cases e
    refine .inl ⟨[], ?_, fun e => by simp [Simulation.call, hreg]⟩
    simp only [Simulation.register, Simulation.insert] at hreg
    split at hreg
    · cases hreg
      exact hnew
    · cases hreg
  | schedule time component event =>
    cases h
    exact .inl ⟨[], fun _ _ _ e => (nomatch e), fun e => by simp [Simulation.call]⟩
  | scheduleTask delay task =>
    cases h
    refine .inl ⟨[], fun _ _ _ e => (nomatch e), fun e => ?_⟩
    rw [List.map_nil, List.append_nil]
    rfl
  | deferWakeAfter wake =>
    cases h
    exact .inl ⟨[wake], fun _ _ _ e => (nomatch e), fun e => rfl⟩
  | step =>
    simp only [Simulation.call, Simulation.step, Option.some.injEq] at h
    split at h
    · rename_i s policy hpop
      cases h
      refine .inl ⟨[], fun _ _ _ e => ?_, fun e => by simp [Simulation.call, Simulation.step, hpop]⟩
      cases e
      rfl
    · rename_i event s policy hpop
      cases h
      exact .inr ⟨rfl, by simp [hpop], rfl, _, _, _, rfl⟩

end

/-- What a use of the simulation `k` does. -/
inductive Used (code : Code κ ε τ ρ) (t : Thread κ ε τ ρ φ) (k : Nat) (action : Use κ ε τ φ) :
    Thread κ ε τ ρ φ → Nat × Returned ε → Prop where
  /-- It depends on the simulation only, and adds wakes to the buffer. -/
  | quiet {x : Option (Simulation κ ε τ ρ φ)} {issued : List (DeferredWake ε)} {r : Returned ε} (hr : Undrained r)
      (hall : ∀ t' : Thread κ ε τ ρ φ, t'.sims k = t.sims k → t'.use code (k, action) =
        some (⟨Function.update t'.sims k x, t'.deferred ++ issued.map (k, ·)⟩, k, r)) :
      Used code t k action ⟨Function.update t.sims k x, t.deferred ++ issued.map (k, ·)⟩ (k, r)
  /-- It processes an event, and schedules what is in the buffer and the new wakes. -/
  | processed {sim sim' : Simulation κ ε τ ρ φ} {event : Option (EventEntry ε)} {receiver : Option Nat}
      {wakes : List (DeferredWake ε)} (hstep : action = .call .step) (hsim : t.sims k = some sim)
      (hpop : (sim.scheduler.popWithPolicy sim.frontierPolicy).1 ≠ none)
      (hall : ∀ t' : Thread κ ε τ ρ φ, t'.sims k = t.sims k → t'.deferred = t.deferred → t'.use code (k, action) =
        some (⟨Function.update t'.sims k (some sim'), []⟩, k, .stepped event receiver (t.deferred ++ wakes.map (k, ·)))) :
      Used code t k action ⟨Function.update t.sims k (some sim'), []⟩
        (k, .stepped event receiver (t.deferred ++ wakes.map (k, ·)))

section
variable {code : Code κ ε τ ρ} {k j : Nat} {t t' u : Thread κ ε τ ρ φ} {action : Use κ ε τ φ} {o : Nat × Returned ε}

/-- Where nothing is done. -/
theorem Used.idle
    (hall : ∀ t' : Thread κ ε τ ρ φ, t'.sims k = t.sims k → t'.use code (k, action) = some (t', k, .done)) :
    Used code t k action t (k, .done) := by
  have hquiet : Used code t k action ⟨Function.update t.sims k (t.sims k), t.deferred ++ [].map (k, ·)⟩
      (k, .done) := by
    refine .quiet (fun _ _ _ e => nomatch e) fun t' ht' => ?_
    rw [hall t' ht', ← ht', Function.update_eq_self, List.map_nil, List.append_nil]
  rwa [Function.update_eq_self, List.map_nil, List.append_nil] at hquiet

/-- Where the buffer is not touched. -/
theorem Used.kept {x : Option (Simulation κ ε τ ρ φ)} (hall : ∀ t' : Thread κ ε τ ρ φ, t'.sims k = t.sims k →
    t'.use code (k, action) = some ({ t' with sims := Function.update t'.sims k x }, k, .done)) :
    Used code t k action { t with sims := Function.update t.sims k x } (k, .done) := by
  have hquiet : Used code t k action ⟨Function.update t.sims k x, t.deferred ++ [].map (k, ·)⟩
      (k, .done) := by
    refine .quiet (fun _ _ _ e => nomatch e) fun t' ht' => ?_
    rw [hall t' ht', List.map_nil, List.append_nil]
  rwa [List.map_nil, List.append_nil] at hquiet

theorem used_of_use (h : t.use code (k, action) = some (u, o)) : Used code t k action u o := by
  cases action with
  | new seed policy =>
    cases h
    exact .kept fun t' _ => rfl
  | call c =>
    cases hsim : t.sims k with
    | none =>
      simp only [use, hsim] at h
      cases h
      exact .idle fun t' ht' => by simp only [use, ht', hsim]
    | some sim =>
      simp only [use, hsim] at h
      obtain ⟨⟨⟨sim', d'⟩, r⟩, hcall, e⟩ := Option.map_eq_some_iff.mp h
      cases e
      rcases call_cases hcall with ⟨issued, hr, hany⟩ | ⟨rfl, hpop, rfl, event, receiver, wakes, rfl⟩
      · obtain rfl : t.deferred ++ issued.map (k, ·) = d' := by
          have := (hany t.deferred).symm.trans hcall
          cases this
          rfl
        refine .quiet hr fun t' ht' => ?_
        simp only [use, ht', hsim, hany, Option.map_some]
      · refine .processed rfl hsim hpop fun t' ht' hd => ?_
        simp only [use, ht', hsim, hd, hcall, Option.map_some]
  | removeComponent key =>
    cases hsim : t.sims k with
    | none =>
      simp only [use, hsim] at h
      cases h
      exact .idle fun t' ht' => by simp only [use, ht', hsim]
    | some sim =>
      simp only [use, hsim] at h
      cases h
      exact .kept fun t' ht' => by simp only [use, ht', hsim]
  | drop wakes =>
    cases h
    exact .quiet (fun _ _ _ e => nomatch e) fun t' _ => rfl

/-! ## One use -/

/-- The part of the thread that the simulation `k` has to do with. -/
structure Part (k : Nat) (t t' : Thread κ ε τ ρ φ) : Prop where
  sim : t'.sims k = t.sims k
  deferred : t'.deferred = t.deferred.filter (·.1 = k)

theorem filter_own (d : List (Nat × DeferredWake ε)) (issued : List (DeferredWake ε)) :
    (d ++ issued.map (k, ·)).filter (·.1 = k) = d.filter (·.1 = k) ++ issued.map (k, ·) := by
  have hall : (issued.map (k, ·)).filter (·.1 = k) = issued.map (k, ·) := List.filter_eq_self.mpr (by simp)
  rw [List.filter_append, hall]

theorem filter_other (hj : j ≠ k) (d : List (Nat × DeferredWake ε)) (issued : List (DeferredWake ε)) :
    (d ++ issued.map (j, ·)).filter (·.1 = k) = d.filter (·.1 = k) := by
  have hnone : (issued.map (j, ·)).filter (·.1 = k) = [] := List.filter_eq_nil_iff.mpr (by simp [hj])
  rw [List.filter_append, hnone, List.append_nil]

/-- The answer is that of the simulation that was used. -/
theorem Used.sim (h : Used code t k action u o) : o.1 = k := by
  cases h <;> rfl

/-- A simulation that is used alone does the same. -/
theorem Part.own (h : Part k t t') (hs : t.Settled (k, action)) (hu : Used code t k action u o) :
    ∃ u', t'.use code (k, action) = some (u', o) ∧ Part k u u' := by
  cases hu with
  | quiet hr hall =>
    refine ⟨_, hall t' h.sim, by simp, ?_⟩
    rw [filter_own, h.deferred]
  | processed hstep hsim hpop hall =>
    -- all that is in the buffer is its own
    have hdeferred : t'.deferred = t.deferred := by
      subst hstep
      rw [h.deferred, List.filter_eq_self]
      exact fun w hw => by simpa using hs _ hsim hpop w hw
    exact ⟨_, hall t' h.sim hdeferred, by simp, rfl⟩

/-- The use of another simulation makes no difference. -/
theorem Part.other (h : Part k t t') (hj : j ≠ k) (hs : t.Settled (j, action))
    (hu : Used code t j action u o) :
    Part k u t' := by
  cases hu with
  | quiet hr hall =>
    refine ⟨by simp [Function.update_of_ne hj.symm, h.sim], ?_⟩
    rw [filter_other hj, h.deferred]
  | processed hstep hsim hpop hall =>
    subst hstep
    refine ⟨by simp [Function.update_of_ne hj.symm, h.sim], ?_⟩
    rw [h.deferred, List.filter_nil, List.filter_eq_nil_iff]
    intro w hw
    simp [hs _ hsim hpop w hw, hj]

/-- A step schedules only wakes of its own simulation. -/
theorem Used.own (hu : Used code t k action u o) (hs : t.Settled (k, action)) :
    ∀ event receiver drained, o.2 = .stepped event receiver drained → ∀ w ∈ drained, w.1 = o.1 := by
  intro event receiver drained ho w hw
  cases hu with
  | quiet hr hall =>
    rw [hr event receiver drained ho] at hw
    cases hw
  | processed hstep hsim hpop hall =>
    subst hstep
    cases ho
    rcases List.mem_append.mp hw with hw | hw
    · exact hs _ hsim hpop w hw
    · obtain ⟨wake, -, rfl⟩ := List.mem_map.mp hw
      rfl

end

/-! ## Runs -/

/-- In a run whose uses are all settled, every deferred wake is scheduled into its own simulation,
and the calls on each simulation return what they return, and leave it as they leave it, when the
others do not exist. -/
theorem run_isolated {code : Code κ ε τ ρ} {uses : List (Nat × Use κ ε τ φ)} {t : Thread κ ε τ ρ φ}
    {answers : List (Nat × Returned ε)} (h : Machine.run (use code) .empty uses = some (t, answers))
    (hs : Machine.Along Settled (use code) .empty uses) :
    (∀ k event receiver drained, (k, .stepped event receiver drained) ∈ answers → ∀ w ∈ drained, w.1 = k) ∧
    ∀ k, ∃ t', Machine.run (use code) .empty (uses.filter (·.1 = k)) = some (t', answers.filter (·.1 = k)) ∧
      t'.sims k = t.sims k := by
  constructor
  · have hown := hs.answers (P := fun _ => True)
      (Q := fun o => ∀ event receiver drained, o.2 = .stepped event receiver drained →
        ∀ w ∈ drained, w.1 = o.1)
      (fun t a u o _ ha hu => ⟨trivial, (used_of_use hu).own ha⟩) trivial h
    exact fun k event receiver drained hmem => hown _ hmem event receiver drained rfl
  · intro k
    have hpart : Part k (.empty : Thread κ ε τ ρ φ) .empty := ⟨rfl, rfl⟩
    obtain ⟨t', hrun, hpart⟩ := hs.run_filter (fun a => a.1 = k) (fun o => o.1 = k)
      (fun t a u o hu => by rw [(used_of_use hu).sim])
      (fun t t' a u o hp ha hk hu => by
        obtain ⟨j, action⟩ := a
        obtain rfl : j = k := by simpa using hk
        exact hp.own ha (used_of_use hu))
      (fun t t' a u o hp ha hk hu => hp.other (by simpa using hk) ha (used_of_use hu)) hpart h
    exact ⟨t', hrun, hpart.sim⟩

/-- The uses of a simulation with one component, for which an event is scheduled. -/
def scheduling (k : Nat) : List (Nat × Use Unit Unit Unit FifoFrontierPolicy) :=
  [(k, .new 42 .mk), (k, .call (.addComponent ())), (k, .call (.schedule .zero (Components.idAt 42 1) ()))]

/-- A wake of the first simulation that is deferred as it is set up is scheduled by its own step. -/
def alternating : List (Nat × Use Unit Unit Unit FifoFrontierPolicy) :=
  scheduling 0 ++ scheduling 1 ++
    [(0, .call (.deferWakeAfter ⟨.zero, Components.idAt 42 1, ()⟩)), (0, .call .step), (1, .call .step)]

theorem run_isolated_alternating : ∃ t answers, Machine.run (use Code.inert) .empty alternating = some (t, answers) ∧
    ∃ t', Machine.run (use Code.inert) .empty (scheduling 1 ++ [(1, .call .step)]) =
      some (t', answers.filter (·.1 = 1)) ∧ t'.sims 1 = t.sims 1 := by
  have h : Machine.run (use Code.inert) .empty alternating = some (_, _) := rfl
  refine ⟨_, _, h, (run_isolated h ?_).2 1⟩
  iterate 7
    refine ⟨trivial, fun t o e => ?_⟩
    cases e
  refine ⟨fun sim _ _ w hw => ?_, fun t o e => ?_⟩
  · rw [List.mem_singleton.mp hw]
  · cases e
    exact ⟨fun sim _ _ w hw => (by cases hw), fun _ _ _ => trivial⟩

/-- The component of a simulation that is torn down defers a wake, and another simulation is stepped twice. -/
def tornDown : List (Nat × Use Unit Unit Unit FifoFrontierPolicy) :=
  [(0, .new 42 .mk), (0, .call (.addComponent ())), (0, .drop [⟨.zero, Components.idAt 42 1, ()⟩])] ++
    scheduling 1 ++ [(1, .call .step), (1, .call .step)]

/-- The second step processes the wake, for the component of the other simulation that has the same
key; on its own, the simulation has no second event. -/
theorem tornDown_leaks : ∃ t answers, Machine.run (use Code.inert) .empty tornDown = some (t, answers) ∧
    ¬ ∃ t', Machine.run (use Code.inert) .empty (tornDown.filter (·.1 = 1)) = some (t', answers.filter (·.1 = 1)) := by
  have h : Machine.run (use Code.inert) .empty tornDown = some (_, _) := rfl
  have h₁ : Machine.run (use Code.inert) .empty (tornDown.filter (·.1 = 1)) = some (_, _) := rfl
  refine ⟨_, _, h, fun hno => ?_⟩
  obtain ⟨t', e⟩ := hno
  have hlist := (Prod.mk.inj (Option.some.inj (h₁.symm.trans e))).2
  have hlast := congrArg List.getLast? hlist
  cases hlast

end DesCartes.Thread
