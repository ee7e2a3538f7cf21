import DesCartes.Proof.Simulation.Step

/-!
# Running until a time limit

The loop of `execute_until` looks at the first event of the heap, whether its task is cancelled or
not, and the step it then makes goes to the first event that is not cancelled. `Within` says that
the two agree on the limit in every iteration, and `executeUntil_within` that this is exactly when
the limit is kept; `executeUntil_past_limit` is a run that goes past it.
-/

namespace DesCartes.World

open AsyncRuntime

variable {ν π φ : Type}

variable [ReadyTaskPolicy π] [EventFrontierPolicy φ]

/-- In every iteration whose first event, cancelled or not, is within the limit, so is the first one
that is not cancelled, if there is one. -/
def Within (time : SimTime) : List (Script ν × List (Action ν)) → World ν π φ → Prop
  | [], _ => True
  | (script, sideEffect) :: iterations, w =>
    w.nextEventBy time → (∀ e, Scheduler.firstLive w.heap w.scheduler.cancelledTasks = some e → e.time ≤ time) ∧
      Within time iterations (w.stepFn script sideEffect).2

/-- What an iteration does to the clock and the records. -/
theorem stepFn_cases (w : World ν π φ) (script : Script ν) (sideEffect : List (Action ν)) :
    ((w.stepFn script sideEffect).2.now = w.now ∧ (w.stepFn script sideEffect).2.trace = w.trace ∧
      Scheduler.firstLive w.heap w.scheduler.cancelledTasks = none) ∨
    ∃ e ev q, Scheduler.firstLive w.heap w.scheduler.cancelledTasks = some e ∧
      (w.stepFn script sideEffect).2.now = e.time ∧
      (w.stepFn script sideEffect).2.trace = w.trace ++ Obs.processed ev e.time :: q ∧ ∀ ev n,
      .processed ev n ∉ q := by
  rcases step_cases w script with ⟨s, p, he, hc, -, -, hf⟩ | ⟨x, w₁, ho, he, -, hf⟩
  · refine .inl ⟨?_, ?_, hf⟩
    · rw [stepFn, he]; exact hc
    · rw [stepFn, he]; rfl
  · obtain ⟨e, hfe, het⟩ := Option.map_eq_some_iff.mp hf
    obtain ⟨hnow, q, htr, hq⟩ := ho.close_trace script
    have ha := acted_acts (w₁.processEventEntry x script).close sideEffect
    obtain ⟨q', htr', hq', -⟩ := ha.trace
    refine .inr ⟨e, runtimeEvent? x, q ++ q', hfe, ?_, ?_, fun ev n hm => ?_⟩
    · rw [stepFn, he]
      exact ha.now.trans (hnow.trans het.symm)
    · rw [stepFn, he]
      show (acts _ sideEffect).trace = _
      rw [htr', htr, het, List.append_assoc, List.cons_append]
    · exact (List.mem_append.mp hm).elim (hq ev n) (hq' ev n)

theorem trace_executeUntil (time : SimTime) (iterations : List (Script ν × List (Action ν)))
    (w : World ν π φ) :
    w.trace <+: (executeUntil time iterations w).trace := by
  induction iterations generalizing w with
  | nil => exact List.prefix_refl _
  | cons it iterations ih =>
    obtain ⟨script, sideEffect⟩ := it
    simp only [executeUntil]
    split
    · refine List.IsPrefix.trans ?_ (ih _)
      rcases stepFn_cases w script sideEffect with ⟨-, h, -⟩ | ⟨e, ev, q, -, -, h, -⟩
      · rw [h]
      · rw [h]; exact List.prefix_append _ _
    · exact List.prefix_refl _

/-- For every world, every limit that is not in its past, and any number of iterations of the loop:
no event after the limit is processed and the clock ends within it if and only if, in every
iteration, the first event that is not cancelled is within the limit whenever the first event is. -/
theorem executeUntil_within (time : SimTime) (iterations : List (Script ν × List (Action ν))) (w : World ν π φ)
    (h : w.now ≤ time) :
    ((∀ ev n, .processed ev n ∈ (executeUntil time iterations w).trace.drop w.trace.length → n ≤ time) ∧
      (executeUntil time iterations w).now ≤ time) ↔ Within time iterations w := by
  induction iterations generalizing w with
  | nil => simp [executeUntil, Within, h]
  | cons it iterations ih =>
    obtain ⟨script, sideEffect⟩ := it
    by_cases hn : w.nextEventBy time
    · simp only [executeUntil, Within, hn, if_true, forall_const]
      obtain ⟨r, hr⟩ := trace_executeUntil time iterations (w.stepFn script sideEffect).2
      rcases stepFn_cases w script sideEffect with ⟨h₁, h₂, h₃⟩ | ⟨e, ev, q, h₃, h₁, h₂, hq⟩
      · rw [h₃, ← ih _ (h₁ ▸ h), h₂]
        simp
      · rw [h₃]
        simp only [Option.some.injEq, forall_eq']
        by_cases het : e.time ≤ time
        · rw [← ih _ (h₁ ▸ het), ← hr, List.drop_left, h₂, List.append_assoc, List.drop_left]
          simp only [List.cons_append, List.mem_cons, List.mem_append, Obs.processed.injEq]
          constructor
          · intro ⟨ha, hb⟩
            exact ⟨het, fun ev n hm => ha ev n (.inr (.inr hm)), hb⟩
          · intro ⟨_, ha, hb⟩
            refine ⟨fun ev n hm => ?_, hb⟩
            rcases hm with ⟨-, rfl⟩ | hm | hm
            · exact het
            · exact absurd hm (hq ev n)
            · exact ha ev n hm
        · refine ⟨fun ⟨ha, _⟩ => absurd (ha ev e.time ?_) het, fun ⟨ha, _⟩ => absurd ha het⟩
          rw [← hr, h₂, List.append_assoc, List.drop_left]
          exact List.mem_cons_self
    · simp [executeUntil, Within, hn, h]

/-- A simulation whose heap holds the runtime's first `Poll`, the event of a cancelled task at 1, and
an event at 10. -/
def cancelledAhead : World Unit FifoReadyTaskPolicy FifoFrontierPolicy :=
  (install (.withSeed 7) {} [] 0 {} 0).acts [.scheduleTask (.saturate 1), .cancelTask (Scheduler.taskIdAt 7 1),
    .schedule (.saturate 10) (.component 5 ())]

/-- With the limit 5, the second iteration sees the cancelled event and processes the one at 10. -/
theorem executeUntil_past_limit : cancelledAhead.now ≤ .saturate 5 ∧
    .processed none (.saturate 10) ∈ (executeUntil (.saturate 5) [(.idle, []), (.idle, [])] cancelledAhead).trace ∧
    ¬ (executeUntil (.saturate 5) [(.idle, []), (.idle, [])] cancelledAhead).now ≤ .saturate 5 := by
  decide

/-- Accordingly the condition fails there. -/
theorem not_within_cancelledAhead : ¬ Within (.saturate 5) [(.idle, []), (.idle, [])] cancelledAhead :=
  fun h => absurd ((executeUntil_within (.saturate 5) _ cancelledAhead (by decide)).mpr h).2 (by decide)

end DesCartes.World
