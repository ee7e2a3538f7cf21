import DesCartes.Proof.Scheduler.Contract
import DesCartes.Proof.Simulation.Timers

/-!
# Cancelled tasks

A task is cancelled by the event `Cancel`. `DesRuntimeHandle::cancel` first takes the task's spawn
request back; the abort handles of `des-tokio` do not, so that the event may be processed while the
request waits, which then still becomes a task (`overtaken_polled`). Where this does not happen
(`CancelsInstalled`), a task that was cancelled is never polled again and has no timers
(`run_cancelled`): its id is gone, and what is gone stays gone (`Ages.gone`).
-/

namespace DesCartes.World

open AsyncRuntime

variable {ν π φ : Type}

/-- Cancelled tasks are gone, and were not polled since. -/
structure Silenced (w : World ν π φ) : Prop where
  gone : ∀ t n, .processed (some (.cancel t)) n ∈ w.trace → Gone w.runtime t
  unpolled : Trace.Each (fun pre o => ∀ t n, o = .polled t → .processed (some (.cancel t)) n ∉ pre) w.trace

/-- Cancelled tasks have no timers. -/
def Unregistered (w : World ν π φ) : Prop :=
  ∀ t n, .processed (some (.cancel t)) n ∈ w.trace → ∀ D, t ∉ w.runtime.timersAt D

theorem Silenced.grows {w w' : World ν π φ} (h : Silenced w) (hg : Grows w w') : Silenced w' := by
  obtain ⟨q, hq, hproc, hpolled⟩ := hg.trace
  have hmem : ∀ {t n}, .processed (some (.cancel t)) n ∈ w'.trace →
      .processed (some (.cancel t)) n ∈ w.trace := by
    intro t n hm
    rw [hq] at hm
    exact (List.mem_append.mp hm).resolve_right (hproc _ _)
  refine ⟨fun t n hm => hg.ages.gone (h.gone t n (hmem hm)), ?_⟩
  rw [hq]
  refine h.unpolled.append ?_
  rintro pre o post rfl t n rfl hm
  rcases List.mem_append.mp hm with hm | hm
  · exact hpolled t (h.gone t n hm) (List.mem_append_right _ List.mem_cons_self)
  · exact hproc _ _ (List.mem_append_left _ hm)

/-- An event is opened. -/
theorem Silenced.opened {w w₁ : World ν π φ} {e : EventEntry (Payload ν)} (h : Silenced w)
    (ho : Opened w w₁ e) {rt : DesRuntime π} (hrt : ∀ t, Gone w.runtime t → Gone rt t)
    (hnew : ∀ t, runtimeEvent? e = some (.cancel t) → Gone rt t) : Silenced (w₁.setRuntime rt) := by
  have htr : (w₁.setRuntime rt).trace = w.trace ++ [Obs.processed (runtimeEvent? e) e.time] := by
    rw [ho.keep]; rfl
  refine ⟨fun t n hm => ?_, ?_⟩
  · rw [htr] at hm
    rcases List.mem_append.mp hm with hm | hm
    · exact hrt t (h.gone t n hm)
    · exact hnew t (Obs.processed.inj (List.mem_singleton.mp hm)).1.symm
  · rw [htr]
    refine h.unpolled.append (.of_mem fun pre o hm t n e => ?_)
    rw [List.mem_singleton.mp hm] at e
    cases e

section
variable [ReadyTaskPolicy π] [EventFrontierPolicy φ]

/-- When a move processes `Cancel`, the id was given out and no spawn request has it. -/
def CancelsInstalled (w : World ν π φ) (m : Move ν π φ) : Prop :=
  ∀ script t, m = .step script → w.nextRuntimeEvent? = some (.cancel t) → Settled w.runtime t

omit [EventFrontierPolicy φ] in
theorem Silenced.processEventEntry {w w₁ : World ν π φ} {e : EventEntry (Payload ν)}
    (h : Silenced w) (ho : Opened w w₁ e)
    (hc : ∀ t, runtimeEvent? e = some (.cancel t) → Settled w.runtime t) (script : Script ν) :
    Silenced (w₁.processEventEntry e script) := by
  have hrt : w₁.runtime = w.runtime := by rw [ho.keep]
  by_cases hcancel : ∃ t, runtimeEvent? e = some (.cancel t)
  · obtain ⟨t, he⟩ := hcancel
    obtain ⟨hlt, hreq⟩ := hc t he
    obtain ⟨i, τ, c, rfl⟩ := runtimeEvent?_eq_some.mp he
    -- The id is gone as soon as the task is removed.
    have hremoved : Silenced (w₁.setRuntime (w₁.storeKey.runtime.removeTask t)) := by
      refine h.opened ho (fun t' ht' => (thins_removeTask ..).ages.gone ?_) fun t' ht' => ?_
      · rw [← hrt] at ht'
        exact ⟨⟨ht'.lt, ht'.request⟩, ht'.task⟩
      · obtain rfl : t = t' := by simpa [runtimeEvent?] using ht'
        rw [← hrt] at hlt hreq
        exact ⟨⟨hlt, hreq⟩, Function.update_self ..⟩
    have hg := grows_cancelTask_removed w₁.storeKey t script.drop
    exact (hremoved.grows hg).grows (frame_processEvent w₁ (.cancel t) script).toGrows
  · have hopened : Silenced (w₁.setRuntime w₁.runtime) := by
      refine h.opened ho (fun t ht => hrt ▸ ht) fun t ht => absurd ⟨t, ht⟩ hcancel
    exact Silenced.grows (w := w₁) hopened (grows_processEventEntry w₁ e script)

omit [EventFrontierPolicy φ] in
theorem Unregistered.processEventEntry {w w₁ : World ν π φ} {e : EventEntry (Payload ν)}
    (h : Unregistered w) (hs : Silenced w) (ho : Opened w w₁ e) (script : Script ν) :
    Unregistered (w₁.processEventEntry e script) := by
  have hrt : w₁.runtime = w.runtime := by rw [ho.keep]
  intro t n hm D hD
  -- The cancellation is an old one, or that of the event.
  have hcases : .processed (some (.cancel t)) n ∈ w.trace ∨ runtimeEvent? e = some (.cancel t) := by
    obtain ⟨q, hq, hproc, -⟩ := (grows_processEventEntry w₁ e script).trace
    have htr : w₁.trace = w.trace ++ [Obs.processed (runtimeEvent? e) e.time] := by rw [ho.keep]
    rw [hq, htr] at hm
    rcases List.mem_append.mp hm with hm | hm
    · rcases List.mem_append.mp hm with hm | hm
      · exact .inl hm
      · exact .inr (Obs.processed.inj (List.mem_singleton.mp hm)).1.symm
    · exact absurd hm (hproc _ _)
  rcases e with ⟨i, τ, c, event | v⟩ | ⟨i, τ, id⟩
  · have hD' : t ∈ (w₁.storeKey.dispatch event script).runtime.timersAt D := by
      rw [← timersAt_congr (frame_processEvent w₁ event script).timers]
      exact hD
    have hkey : w₁.storeKey.runtime.tasks = w.runtime.tasks := by rw [← hrt]; rfl
    have hat : w₁.storeKey.runtime.timersAt = w.runtime.timersAt := timersAt_congr (by rw [← hrt]; rfl)
    rcases (mem_timersAt_dispatch w₁.storeKey event script).mp hD' with ⟨hD, hun⟩ | ⟨rfl, htask⟩
    · rw [hat] at hD
      rcases hcases with hm | he
      · exact h t n hm D hD
      · obtain rfl : event = .cancel t := by simpa [runtimeEvent?] using he
        exact hun rfl
    · rcases hcases with hm | he
      · rw [hkey] at htask
        exact htask (hs.gone t n hm).task
      · simp [runtimeEvent?] at he
  · refine h t n (hcases.resolve_right (by simp [runtimeEvent?])) D ?_
    rw [← hrt, ← timersAt_congr (acted_acts w₁ script.handler).timers]
    exact hD
  · refine h t n (hcases.resolve_right (by simp [runtimeEvent?])) D ?_
    rw [← hrt, ← timersAt_congr (acted_executeTask w₁ id script).timers]
    exact hD

theorem silenced_move {w : World ν π φ} {m : Move ν π φ} (h : Silenced w) (hu : Unregistered w)
    (hc : CancelsInstalled w m) : Silenced (w.move m) ∧ Unregistered (w.move m) := by
  rcases move_cases m with hm | ⟨script, rfl⟩
  · have hf := frame_move w hm
    refine ⟨h.grows hf.toGrows, fun t n hp D => ?_⟩
    obtain ⟨q, hq, hproc, -⟩ := hf.trace
    rw [hq] at hp
    rw [timersAt_congr hf.timers]
    exact hu t n ((List.mem_append.mp hp).resolve_right (hproc _ _)) D
  · show Silenced (w.step script).2 ∧ Unregistered (w.step script).2
    rcases step_cases w script with ⟨s, p, he, -⟩ | ⟨e, w₁, ho, he, hnext, -⟩
    · rw [he]
      exact ⟨⟨h.gone, h.unpolled⟩, hu⟩
    · have hc' : ∀ t, runtimeEvent? e = some (.cancel t) → Settled w.runtime t :=
        fun t ht => hc script t rfl (by rw [nextRuntimeEvent?, nextEvent?, hnext]; exact ht)
      have h₁ := h.processEventEntry ho hc' script
      have h₂ := hu.processEventEntry h ho script
      rw [he]
      refine ⟨⟨?_, ?_⟩, ?_⟩
      · rw [trace_close, runtime_close]; exact h₁.gone
      · rw [trace_close]; exact h₁.unpolled
      · rw [Unregistered, trace_close, runtime_close]; exact h₂

/-- In every run in which `Cancel` is only processed for ids that were given out and are not those of
spawn requests: a task is not polled after its `Cancel` was processed, and it has no timers. -/
theorem run_cancelled (s : Scheduler (Payload ν) Unit Unit) (frontierPolicy : φ)
    (deferred : List (SimTime × Message ν)) (key : Uuid) (policy : π) (spawned : Nat) (moves : List (Move ν π φ))
    (hc : Trace.Along CancelsInstalled move (install s frontierPolicy deferred key policy spawned) moves) :
    let w := (install s frontierPolicy deferred key policy spawned).run moves
    (∀ pre t post, w.trace = pre ++ .polled t :: post → ∀ n, .processed (some (.cancel t)) n ∉ pre) ∧
    ∀ t n, .processed (some (.cancel t)) n ∈ w.trace → ∀ D, t ∉ w.runtime.timersAt D := by
  intro w
  have htr : (install s frontierPolicy deferred key policy spawned).trace = [] := trace_schedule ..
  have h : Silenced w ∧ Unregistered w := by
    refine hc.invariant (P := fun w => Silenced w ∧ Unregistered w) (fun w m h hm => silenced_move h.1 h.2 hm)
      ⟨⟨fun t n hm => ?_, ?_⟩, fun t n hm => ?_⟩
    · rw [htr] at hm
      cases hm
    · rw [htr]
      exact .nil
    · rw [htr] at hm
      cases hm
  exact ⟨fun pre t post e n => h.1.unpolled pre _ post e t n rfl, h.2⟩

end

/-- A task aborts itself when it is polled. -/
def aborted : List (Move Unit FifoReadyTaskPolicy FifoFrontierPolicy) :=
  [.step { Script.idle with polls := fun _ => ⟨[.deferWakeAfter .zero (.runtime (.cancel 0))], false, []⟩ }, .step .idle]

theorem run_cancelled_aborted : let w := (install (.withSeed 7) {} [] 0 {} 1).run aborted
    .processed (some (.cancel 0)) .zero ∈ w.trace ∧ ∀ D, 0 ∉ w.runtime.timersAt D := by
  have hc : Trace.Along CancelsInstalled move (install (.withSeed 7) {} [] 0 {} 1) aborted := by
    refine ⟨fun script t _ h => ?_, fun script t _ h => ?_, trivial⟩
    · have :
          (install (.withSeed 7) {} [] 0 {} 1 : World Unit FifoReadyTaskPolicy FifoFrontierPolicy).nextRuntimeEvent? =
          some .poll := by decide
      rw [this] at h
      cases h
    · have : ((install (.withSeed 7) {} [] 0 {} 1).run (aborted.take 1)).nextRuntimeEvent? = some
        (.cancel 0) := by decide
      obtain rfl : 0 = t := by simpa using this.symm.trans h
      exact ⟨by decide, by decide⟩
  exact ⟨by decide, (run_cancelled _ _ _ _ _ _ _ hc).2 0 .zero (by decide)⟩

/-- A component spawns a task and aborts it, and `Cancel` is processed before `Poll`. -/
def overtaken : List (Move Unit FifoReadyTaskPolicy Nat) :=
  [.act (.schedule .zero (.component 1 ())),
    .step { Script.idle with handler := [.spawn, .deferWakeAfter .zero (.runtime (.cancel 0))] },
    .step .idle, .step .idle]

/-- The task is polled after its `Cancel`. -/
theorem overtaken_polled : ∃ pre post,
    ((install (.withSeed 7) 9 [] 0 {} 0).run overtaken).trace = pre ++ .polled 0 :: post ∧
      .processed (some (.cancel 0)) .zero ∈ pre :=
  ⟨[.processed none .zero, .processed (some (.cancel 0)) .zero, .processed (some .poll) .zero], [],
    by decide, by decide⟩

end DesCartes.World
