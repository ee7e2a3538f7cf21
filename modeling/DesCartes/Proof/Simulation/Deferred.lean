import DesCartes.Proof.Simulation.Step

/-!
# Deferred wakes

A step that finds an event moves every deferred wake into the heap, those buffered before it and
those its handler adds; a step that finds none leaves the buffer as it is (`step_deferred`). Wakes
deferred outside event processing therefore wait for the next event, and when there is none the
simulation ends without them (`stranded_wake`).
-/

namespace DesCartes.World

open AsyncRuntime

variable {ν π φ : Type} [ReadyTaskPolicy π] [EventFrontierPolicy φ]

/-- A step finds an event exactly when one is in the heap that is not cancelled. It then pops an event
`e`, and leaves no deferred wake: all those of the moment when the handler of `e` returns, among them
those that were there before the step, have become events of the heap, one for each, after their delay.
Otherwise it leaves the buffer as it is. -/
theorem step_deferred (w : World ν π φ) (script : Script ν) :
    ((w.step script).1 = true ↔ Scheduler.firstLive w.heap w.scheduler.cancelledTasks ≠ none) ∧
    ((w.step script).1 = true → ∃ e s p, w.scheduler.popWithPolicy w.frontierPolicy = (some e, s, p) ∧
      let w₁ := (w.popped e s p).processEventEntry e script
      w.deferred <+: w₁.deferred ∧ (w.step script).2.now = e.time ∧ (w.step script).2.deferred = [] ∧
      (w.step script).2.heap.Perm ((w₁.deferred.mapIdx fun i wake =>
        wake.2.entry w.key (w₁.scheduler.nextEventId + i + 1) (e.time + wake.1)) ++ w₁.heap)) ∧
    ((w.step script).1 = false → (w.step script).2.deferred = w.deferred ∧ (w.step script).2.heap = []) := by
  rcases step_cases w script with ⟨s, p, he, -, hs, -, hf⟩ | ⟨e, w₁, ho, he, hpop, hf⟩
  · rw [he]
    refine ⟨?_, nofun, fun _ => ⟨rfl, hs⟩⟩
    simp [hf]
  · have hw₁ : w.popped e w₁.scheduler w₁.frontierPolicy = w₁ := by
      rw [popped, show w₁.scheduler.clock = e.time from ho.now]
      exact ho.keep.symm
    have hg := grows_processEventEntry w₁ e script
    have hd := drained_close (w₁.processEventEntry e script)
    have hkey : (w₁.processEventEntry e script).key = w.key := hg.key.trans (by rw [ho.keep])
    have hnow : (w₁.processEventEntry e script).now = e.time := hg.now.trans ho.now
    have hbuffer : w₁.deferred = w.deferred := by rw [ho.keep]
    rw [he]
    refine ⟨?_, fun _ => ⟨e, w₁.scheduler, w₁.frontierPolicy, hpop, ?_⟩, nofun⟩
    · obtain ⟨x, hx, -⟩ := Option.map_eq_some_iff.mp hf
      simp [hx]
    · rw [hw₁]
      refine ⟨hbuffer ▸ hg.deferred, hd.now.trans hnow, hd.deferred, ?_⟩
      have hheap := hd.heap
      rw [wakeEvents] at hheap
      simp only [hkey] at hheap
      rw [← hnow]
      exact hheap

/-- A simulation whose only event, the first `Poll`, has been processed, and whose owner then defers
a wake. -/
def strandedWake : World Unit FifoReadyTaskPolicy FifoFrontierPolicy :=
  (install (.withSeed 7) {} [] 0 {} 0).run [.step .idle, .act (.deferWakeAfter .zero (.runtime .poll))]

/-- The next step reports that the simulation has ended, with the wake still in the buffer. -/
theorem stranded_wake : strandedWake.deferred.length = 1 ∧ (strandedWake.step .idle).1 = false ∧
    (strandedWake.step .idle).2.deferred.length = 1 ∧ (strandedWake.step .idle).2.heap = [] := by
  decide

end DesCartes.World
