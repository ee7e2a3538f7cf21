import DesCartes.Impl.Execute
import DesCartes.Proof.Simulation.ExecuteUntil

/-!
# Executors, one after the other

A run that is cut into pieces is the run: an executor with a limit leaves a later one what is left
to do, whatever the limit looked at before it broke off.

* `stepFn_of_stop`: a step that finds no event leaves nothing to the next one;
* `ends_untilStep`: the loop of `execute_until` breaks with such a step, or before it;
* `runWith_compose`: the executors.
-/

namespace DesCartes

open AsyncRuntime

variable {ν π φ : Type} [EventFrontierPolicy φ]

theorem Scheduler.popWithPolicy_of_nil {ε τ ρ : Type} {s : Scheduler ε τ ρ}
    (h : s.events.toList = []) (policy : φ) :
    s.popWithPolicy policy = (none, s, policy) := by
  have hlen : s.events.len = 0 := List.length_eq_zero_iff.mpr h
  rw [popWithPolicy, hlen]
  rfl

variable [ReadyTaskPolicy π]

/-- A step that finds no event leaves the heap empty, and the next one finds none. -/
theorem World.step_of_stop {w : World ν π φ} {script : Script ν} (h : (w.step script).1 = false) :
    (w.step script).2.scheduler.events.toList = [] ∧ ∀ script',
    (w.step script).2.step script' = (false, (w.step script).2) := by
  rcases step_cases w script with ⟨s, p, hstep, -, hnil, -⟩ | ⟨e, w₁, -, hstep, -⟩
  · rw [hstep]
    exact ⟨hnil, fun script' => by rw [step, Scheduler.popWithPolicy_of_nil hnil]⟩
  · rw [hstep] at h
    cases h

omit [EventFrontierPolicy φ] [ReadyTaskPolicy π] in
theorem World.nextEventBy_mono {w : World ν π φ} {time₁ time₂ : SimTime} (hle : time₁ ≤ time₂)
    (h : w.nextEventBy time₁ = true) : w.nextEventBy time₂ = true := by
  rw [nextEventBy] at h ⊢
  cases hpeek : w.scheduler.peek with
  | none =>
    rw [hpeek] at h
    cases h
  | some e =>
    rw [hpeek] at h
    exact decide_eq_true ((of_decide_eq_true h).trans hle)

namespace Execution

variable {code : Nat → Script ν × List (Action ν)} {s t : Execution ν π φ}

theorem stepFn_of_stop (h : (s.stepFn code).1 = false) :
    (s.stepFn code).2.stepFn code = (false, (s.stepFn code).2) ∧ ∀ time,
    (s.stepFn code).2.sim.nextEventBy time = false := by
  have hfound : (s.sim.step (code s.executed).1).1 = false := h
  obtain ⟨hnil, hagain⟩ := World.step_of_stop hfound
  have hstop : s.stepFn code = (false, ⟨(s.sim.step (code s.executed).1).2, s.executed⟩) := by
    simp only [stepFn, World.stepFn, hfound, Bool.false_eq_true, if_false]
  rw [hstop]
  refine ⟨?_, fun time => ?_⟩
  · simp only [stepFn, World.stepFn, hagain, Bool.false_eq_true, if_false]
  · rw [World.nextEventBy, Scheduler.peek, BinaryHeap.peek, hnil]
    rfl

variable (code) in
/-- The loop of `execute_until`, which breaks off with the first step that finds no event. -/
def untilBreak (time : SimTime) (s : Execution ν π φ) : Bool × Execution ν π φ :=
  if s.sim.nextEventBy time then s.stepFn code else (false, s)

/-- Behind a step that finds no event, there is no first event to look at. -/
theorem ends_untilStep (time : SimTime) :
    Loop.Ends (untilStep code time) s t ↔ Loop.Ends (untilBreak code time) s t := by
  have hgo : ∀ s : Execution ν π φ, (untilBreak code time s).1 = true →
      untilStep code time s = untilBreak code time s := fun s h => by
    rw [untilBreak] at h
    rw [untilStep, untilBreak]
    split
    · rename_i hnext
      rw [if_pos hnext] at h
      rw [← h]
    · rfl
  have hover : ∀ s : Execution ν π φ, (untilBreak code time s).1 = false →
      untilStep code time (untilBreak code time s).2 = (false, (untilBreak code time s).2) :=
      fun s h => by
    rw [untilStep]
    refine if_neg ?_
    rw [untilBreak] at h ⊢
    split
    · rename_i hnext
      rw [if_pos hnext] at h
      rw [(stepFn_of_stop h).2]
      exact Bool.false_ne_true
    · assumption
  have hends : ∀ s t : Execution ν π φ, Loop.Ends (untilBreak code time) s t →
      untilStep code time t = (false, t) := fun s t h => by
    refine h.rec_steps (P := fun s => Loop.Ends (untilBreak code time) s t →
      untilStep code time t = (false, t))
      (fun s hstop h => ?_) (fun s hgoes ih h => ih ((Loop.ends_go hgoes).mp h)) h
    rw [← (Loop.ends_stop hstop).mp h]
    exact hover s hstop
  rw [Loop.ends_cut hgo fun s t hstop => ?_]
  · constructor
    · rintro ⟨u, hu, ht⟩
      have hstop := hends s u hu
      rw [Loop.ends_stop (by rw [hstop]), hstop] at ht
      exact ht ▸ hu
    · intro h
      have hstop := hends s t h
      exact ⟨t, h, (Loop.ends_stop (by rw [hstop])).mpr (by rw [hstop])⟩
  · by_cases hnext : s.sim.nextEventBy time
    · have hstep : untilStep code time s = (true, (untilBreak code time s).2) := by
        rw [untilStep, untilBreak, if_pos hnext, if_pos hnext]
      rw [Loop.ends_go (by rw [hstep]), hstep]
    · rw [untilBreak, if_neg hnext]

/-- The loop is `World.executeUntil`, over as much of the code as it runs. -/
theorem sim_executeUntil {time : SimTime} {fuel : Nat} (h : s.executeUntil code time fuel = some t) :
    t.sim = World.executeUntil time ((List.range' s.executed fuel).map code) s.sim := by
  have hover : ∀ (s : Execution ν π φ) iterations, s.sim.nextEventBy time = false →
      World.executeUntil time iterations s.sim = s.sim :=
    fun s iterations hnext => by
      cases iterations with
      | nil => rfl
      | cons it iterations => rw [World.executeUntil, if_neg (by rw [hnext]; exact Bool.false_ne_true)]
  induction fuel generalizing s with
  | zero => cases h
  | succ n ih =>
    rw [executeUntil, Loop.run_succ, untilStep] at h
    rw [List.range'_succ, List.map_cons, World.executeUntil]
    split
    · rename_i hnext
      rw [if_pos hnext, if_pos rfl] at h
      cases hfound : (s.stepFn code).1 with
      | true =>
        have hexecuted : (s.stepFn code).2.executed = s.executed + 1 := if_pos hfound
        rw [← hexecuted]
        exact ih h
      | false =>
        have hnext := (stepFn_of_stop hfound).2 time
        refine (ih h).trans ?_
        rw [hover _ _ hnext]
        exact (hover _ _ hnext).symm
    · rename_i hnext
      rw [if_neg hnext, if_neg Bool.false_ne_true] at h
      exact congrArg Execution.sim (Option.some.inj h).symm

variable (code) in
/-- The executor ends, in the second state. -/
def Executed (endCondition : EndCondition) (s t : Execution ν π φ) : Prop :=
  ∃ fuel, runWith code fuel endCondition s = some t

theorem executed_steps {n : Nat} : Executed code (.steps n) s t ↔ Loop.times (stepFn code) n s = t :=
  ⟨fun ⟨_, h⟩ => Option.some.inj h, fun h => ⟨0, congrArg some h⟩⟩

/-- Every executor performs some of the steps of one run, and stops. -/
theorem Executed.exists_times {endCondition : EndCondition} (h : Executed code endCondition s t) :
    ∃ n, t = Loop.times (stepFn code) n s := by
  cases endCondition with
  | time time =>
    have h : Loop.Ends (untilBreak code time) s t := (ends_untilStep time).mp h
    refine h.exists_times (fun s hgo => ?_) fun s hstop => ?_
    · rw [untilBreak] at hgo ⊢
      split
      · rfl
      · rename_i hnext
        rw [if_neg hnext] at hgo
        cases hgo
    · rw [untilBreak]
      split
      · exact .inr rfl
      · exact .inl rfl
  | noEvents => exact Loop.Ends.exists_times (fun _ _ => rfl) (fun _ _ => .inr rfl) h
  | steps n => exact ⟨n, (executed_steps.mp h).symm⟩

variable (code s t) in
/-- Executors of one simulation: each performs the next steps of the same run, as many as its end
condition says. A time limit may be reached in two executors, steps may be counted in two, and to
run until there are no events is to run any executor first that ends and then go on; where one side
ends the other one does, and in the same state. -/
theorem runWith_compose :
    (∀ endCondition, Executed code endCondition s t → ∃ n, t = s.executeSteps code n) ∧
    (∀ time₁ time₂, time₁ ≤ time₂ → (Executed code (.time time₂) s t ↔
      ∃ u, Executed code (.time time₁) s u ∧ Executed code (.time time₂) u t)) ∧
    (∀ m n, Executed code (.steps (m + n)) s t ↔ ∃ u, Executed code (.steps m) s u ∧
      Executed code (.steps n) u t) ∧
    ∀ endCondition, Executed code .noEvents s t ↔ ∃ u, Executed code endCondition s u ∧
    Executed code .noEvents u t := by
  have hstop : ∀ s : Execution ν π φ, (s.stepFn code).1 = false →
      (s.stepFn code).2.stepFn code = (false, (s.stepFn code).2) :=
    fun s h => (stepFn_of_stop h).1
  have hempty : ∀ s t : Execution ν π φ, (s.stepFn code).1 = false →
      (Loop.Ends (stepFn code) s t ↔ Loop.Ends (stepFn code) (s.stepFn code).2 t) := fun s t h => by
    have hagain := hstop s h
    rw [Loop.ends_stop h, Loop.ends_stop (by rw [hagain]), hagain]
  refine ⟨fun endCondition h => h.exists_times, fun time₁ time₂ hle => ?_, fun m n => ?_,
    fun endCondition => ?_⟩
  · refine Loop.ends_cut (fun s hgo => ?_) fun s t hbreak => ?_
    · have hnext : s.sim.nextEventBy time₁ = true := by
        by_contra hnext
        rw [untilStep, if_neg hnext] at hgo
        cases hgo
      rw [untilStep, untilStep, if_pos hnext, if_pos (World.nextEventBy_mono hle hnext)]
    · by_cases hnext : s.sim.nextEventBy time₁
      · rw [untilStep, if_pos hnext] at hbreak
        cases hbreak
      · rw [untilStep, if_neg hnext]
  · simp only [executed_steps, exists_eq_left', Loop.times_add hstop]
  · cases endCondition with
    | time time =>
      have hends : ∀ u, Executed code (.time time) s u ↔ Loop.Ends (untilBreak code time) s u :=
        fun u => ends_untilStep time
      simp only [hends]
      refine Loop.ends_cut (fun s hgo => ?_) fun s t hbreak => ?_
      · rw [untilBreak] at hgo ⊢
        split
        · rfl
        · rename_i hnext
          rw [if_neg hnext] at hgo
          cases hgo
      · rw [untilBreak] at hbreak ⊢
        split
        · rename_i hnext
          rw [if_pos hnext] at hbreak
          exact hempty s t hbreak
        · rfl
    | noEvents => exact Loop.ends_cut (fun _ _ => rfl) hempty
    | steps n =>
      simp only [executed_steps, exists_eq_left']
      exact Loop.ends_times hstop n

/-- The limit 5 is behind the event at 10 that is then processed: what is left to do is the same. -/
theorem runWith_compose_cancelledAhead :
    ∃ t u : Execution Unit FifoReadyTaskPolicy FifoFrontierPolicy,
      Executed (fun _ => (.idle, [])) (.time (.saturate 20)) ⟨World.cancelledAhead, 0⟩ t ∧
        Executed (fun _ => (.idle, [])) (.time (.saturate 5)) ⟨World.cancelledAhead, 0⟩ u ∧
          Executed (fun _ => (.idle, [])) (.time (.saturate 20)) u t := by
  have hends : (runWith (fun _ => (.idle, [])) 5 (.time (.saturate 20))
      (⟨World.cancelledAhead, 0⟩ : Execution Unit FifoReadyTaskPolicy FifoFrontierPolicy)).isSome =
        true := by
    decide
  obtain ⟨t, ht⟩ := Option.isSome_iff_exists.mp hends
  obtain ⟨u, hu, hut⟩ := ((runWith_compose (fun _ => (.idle, [])) ⟨World.cancelledAhead, 0⟩ t).2.1
    (.saturate 5)
    (.saturate 20) (by decide)).mp ⟨5, ht⟩
  exact ⟨t, u, ⟨5, ht⟩, hu, hut⟩

end Execution

end DesCartes
