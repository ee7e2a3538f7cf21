import DesCartes.Proof.Simulation.ReadyQueue
import DesCartes.Proof.Simulation.Timers

/-!
# No task oversleeps

The step that wakes a task polls it as well: a tick wakes the tasks that are due before it polls
those that are ready, and a `Wake` is the beginning of a poll cycle. With `run_timers`, a timer that
is not cancelled has its task polled at exactly its time.

* `mem_readyQueue_fireTimers`: the tasks that are woken are ready;
* `Prompt.dispatch`: whatever the event, a task that was woken is polled before the next event;
* `run_polled_on_time`: every run.
-/

namespace DesCartes.World

open AsyncRuntime

variable {ν π φ : Type}

/-- The task is polled before the next event is processed. -/
def PolledNext (t : AsyncRuntime.TaskId) (post : List Obs) : Prop :=
  ∃ p q, post = p ++ .polled t :: q ∧ ∀ ev n, .processed ev n ∉ p

theorem PolledNext.append {t : AsyncRuntime.TaskId} {post : List Obs} (h : PolledNext t post)
    (q : List Obs) :
    PolledNext t (post ++ q) := by
  obtain ⟨p, r, rfl, hp⟩ := h
  exact ⟨p, r ++ q, by rw [List.append_assoc, List.cons_append], hp⟩

/-- Behind records that are not of events, a poll is the next one. -/
theorem polledNext_of_mem {t : AsyncRuntime.TaskId} {p q : List Obs} (hp : ∀ ev n, .processed ev n ∉ p)
    (hq : ∀ o ∈ q, o.Quiet) (hmem : .polled t ∈ q) : PolledNext t (p ++ q) := by
  obtain ⟨q₁, q₂, rfl⟩ := List.append_of_mem hmem
  refine ⟨p ++ q₁, q₂, (List.append_assoc ..).symm, fun ev n hm => ?_⟩
  exact (List.mem_append.mp hm).elim (hp ev n) fun hm => hq _ (List.mem_append_left _ hm)

/-- The tasks that have timers were tasks once, and one that was woken, and still is a task, is polled
before the next event. -/
structure Prompt (w : World ν π φ) : Prop where
  timers : ∀ t D, t ∈ w.runtime.timersAt D → Settled w.runtime t
  woken : ∀ pre t D n post, w.trace = pre ++ .woken t D n :: post →
    Settled w.runtime t ∧ (w.runtime.tasks t ≠ none → PolledNext t post)

/-- What is recorded of a step is looked at on its own. -/
theorem Prompt.extend {w w' : World ν π φ} (h : Prompt w) {q : List Obs} (hq : w'.trace = w.trace ++ q)
    (ha : Ages w.runtime w'.runtime) (htimers : ∀ t D, t ∈ w'.runtime.timersAt D → Settled w'.runtime t)
    (hwoken : ∀ pre t D n post, q = pre ++ .woken t D n :: post →
      Settled w'.runtime t ∧ (w'.runtime.tasks t ≠ none → PolledNext t post)) : Prompt w' := by
  refine ⟨htimers, fun pre t D n post htr => ?_⟩
  rw [hq] at htr
  rcases List.append_eq_append_iff.mp htr with ⟨r, rfl, hr⟩ | ⟨r, hr, hpost⟩
  · exact hwoken r t D n post hr
  · cases r with
    | nil => exact hwoken [] t D n post hpost.symm
    | cons o r =>
      obtain ⟨rfl, rfl⟩ := List.cons.inj hpost
      obtain ⟨hsettled, hpolled⟩ := h.woken pre t D n r hr
      exact ⟨ha.settled t hsettled, fun ht => (hpolled (ha.tasks t hsettled ht)).append q⟩

/-- Where no task is woken, only the timers are looked at. -/
theorem Prompt.unwoken {w w' : World ν π φ} (h : Prompt w) {q : List Obs} (hq : w'.trace = w.trace ++ q)
    (ha : Ages w.runtime w'.runtime) (htimers : ∀ t D, t ∈ w'.runtime.timersAt D → Settled w'.runtime t)
    (hwoken : ∀ t D n, .woken t D n ∉ q) : Prompt w' :=
  h.extend hq ha htimers fun pre t D n post he =>
    absurd (by rw [he]; exact List.mem_append_right _ List.mem_cons_self) (hwoken t D n)

/-- A change that wakes no task, and registers no timer. -/
theorem Prompt.frame {w w' : World ν π φ} (h : Prompt w) (hf : Frame w w') : Prompt w' := by
  obtain ⟨q, hq, hquiet⟩ := hf.quiet
  refine h.unwoken hq hf.ages (fun t D ht => ?_) fun t D n hm => ?_
  · rw [timersAt_congr hf.timers] at ht
    exact hf.ages.settled t (h.timers t D ht)
  · have hfalse : Obs.Quiet (.woken t D n) := hquiet _ hm
    exact hfalse

/-! ## Due timers -/

theorem fireTimers_rule {P : World ν π φ → Prop}
    (htimers : ∀ w timers, P w → P (w.setRuntime { w.runtime with timers }))
    (hfire : ∀ D w t, P w → P (fire D w t)) (n : Nat) {w : World ν π φ} (h : P w) :
    P (fireTimers n w) := by
  induction n generalizing w with
  | zero => exact h
  | succ n ih =>
    rw [fireTimers]
    split
    · exact h
    · split
      · exact h
      · exact ih (List.foldlRecOn _ _ (htimers w _ h) fun w h t _ => hfire _ w t h)

theorem mem_readyQueue_wakeTask {rt : DesRuntime π} (h : Queued rt rt.readyQueue)
    (t : AsyncRuntime.TaskId) :
    (∀ t' ∈ rt.readyQueue, t' ∈ (rt.wakeTask t).readyQueue) ∧
    (rt.tasks t ≠ none → t ∈ (rt.wakeTask t).readyQueue) := by
  rw [DesRuntime.wakeTask]
  cases ht : rt.tasks t with
  | none => exact ⟨fun _ h => h, fun hne => absurd rfl hne⟩
  | some task =>
    simp only
    split
    · rename_i hqueued
      exact ⟨fun _ h => h, fun _ => (h.queued t task ht).mp hqueued⟩
    · exact ⟨fun t' h => List.mem_append_left _ h, fun _ => List.mem_append_right _ List.mem_cons_self⟩

/-- The tasks that are woken, and are still there, are ready. -/
theorem mem_readyQueue_fireTimers {w : World ν π φ} (h : Queued w.runtime w.runtime.readyQueue)
    {t : AsyncRuntime.TaskId} {D : SimTime} (ht : t ∈ w.runtime.timersAt D) (hD : D ≤ w.now)
    (htask : w.runtime.tasks t ≠ none) :
    t ∈ (fireTimers w.runtime.timers.len w).runtime.readyQueue := by
  obtain ⟨q, hq, hmem⟩ := trace_fireTimers w
  have hwoken : .woken t D w.now ∈ (fireTimers w.runtime.timers.len w).trace.drop w.trace.length := by
    rw [hq, List.drop_left]
    exact (hmem _).mpr ⟨t, D, ht, hD, rfl⟩
  have hrule := fireTimers_rule (P := fun v => Queued v.runtime v.runtime.readyQueue ∧
    w.trace.length ≤ v.trace.length ∧
      ∀ (t : AsyncRuntime.TaskId) (D n : SimTime), .woken t D n ∈ v.trace.drop w.trace.length →
      v.runtime.tasks t ≠ none →
        t ∈ v.runtime.readyQueue)
    (fun v timers hv => ⟨hv.1.congr rfl rfl rfl rfl, hv.2.1, hv.2.2⟩)
      (fun D v t hv => ?_) w.runtime.timers.len (w := w)
    ⟨h, le_rfl, fun t D n hm => by rw [List.drop_length] at hm; cases hm⟩
  · exact hrule.2.2 t D w.now hwoken fun hnone => htask (fireTimers_eq_none.mp hnone)
  · obtain ⟨hqueued, hlen, hready⟩ := hv
    obtain ⟨hold, hnew⟩ := mem_readyQueue_wakeTask hqueued t
    have hrt : (fire D v t).runtime = v.runtime.wakeTask t := rfl
    have htr : (fire D v t).trace = v.trace ++ [.woken t D v.now] := rfl
    rw [hrt, htr]
    refine ⟨hqueued.wakeTask t, ?_, fun t' D' n hm htask' => ?_⟩
    · rw [List.length_append]
      exact hlen.trans (Nat.le_add_right _ _)
    · have hv' : v.runtime.tasks t' ≠ none := fun hnone => htask' (wakeTask_eq_none.mpr hnone)
      rw [List.drop_append_of_le_length hlen] at hm
      rcases List.mem_append.mp hm with hm | hm
      · exact hold t' (hready t' D' n hm hv')
      · obtain ⟨heq, -, -⟩ := Obs.woken.inj (List.mem_singleton.mp hm)
        rw [heq] at hv' ⊢
        exact hnew hv'

section
variable [ReadyTaskPolicy π]

/-- A poll cycle polls what was ready when it began. -/
theorem mem_trace_pollReadyTasks {w : World ν π φ} (polls : Nat → PollScript ν)
    (hk : w.runtime.runtimeKey ≠ none) (h : Queued w.runtime w.runtime.readyQueue)
    {t : AsyncRuntime.TaskId} (ht : t ∈ w.runtime.readyQueue) (htask : w.runtime.tasks t ≠ none) :
    ∃ q, (w.pollReadyTasks polls).trace = w.trace ++ q ∧ (∀ o ∈ q, o.Quiet) ∧ .polled t ∈ q := by
  obtain ⟨q, hq, hquiet⟩ := (frame_pollReadyTasks w polls).quiet
  refine ⟨q, hq, hquiet, ?_⟩
  obtain ⟨-, -, ps, hps, -, hmem⟩ := pollReadyTasks_spec polls hk h
  have hpolled : q.filterMap Obs.polled? = ps := by
    have := polledTasks_drop ⟨q, hq.symm⟩ hps
    rwa [hq, List.drop_left] at this
  rw [← mem_filterMap_polled?, hpolled, hmem, drainSpawnQueues_eq]
  refine ⟨List.mem_append_left _ ht, ?_⟩
  simp only
  split
  · simp
  · exact htask

/-- A tick wakes and polls. -/
theorem Prompt.handleTimerTick {w : World ν π φ} (h : Prompt w) (hk : w.runtime.runtimeKey ≠ none)
    (hqueued : Queued w.runtime w.runtime.readyQueue) (polls : Nat → PollScript ν) :
    Prompt (w.handleTimerTick polls) := by
  have hg := grows_handleTimerTick w polls
  rw [World.handleTimerTick] at hg ⊢
  simp only at hg ⊢
  -- the cached deadline does not matter
  obtain ⟨w₀, hw₀⟩ : ∃ w₀, w₀ = w.setRuntime { w.runtime with nextTimerDeadline := none } := ⟨_, rfl⟩
  have hq₀ : Queued w₀.runtime w₀.runtime.readyQueue := hw₀ ▸ hqueued.congr rfl rfl rfl rfl
  have hk₀ : w₀.runtime.runtimeKey ≠ none := hw₀ ▸ hk
  have htrace₀ : w₀.trace = w.trace := by rw [hw₀]; rfl
  have htimers₀ : w₀.runtime.timersAt = w.runtime.timersAt := by rw [hw₀]; rfl
  have htasks₀ : w₀.runtime.tasks = w.runtime.tasks := by rw [hw₀]; rfl
  have hnow₀ : w₀.now = w.now := by rw [hw₀]; rfl
  rw [← hw₀] at hg ⊢
  obtain ⟨q₁, hq₁, hwoken⟩ := trace_fireTimers w₀
  have hcycled := cycled_fireTimers w₀.runtime.timers.len hq₀
  obtain ⟨w₁, hw₁⟩ : ∃ w₁, w₁ = (w₀.fireTimers w₀.runtime.timers.len).scheduleNextTimerTick := ⟨_, rfl⟩
  have hready : ∀ t D, t ∈ w.runtime.timersAt D → D ≤ w.now → w.runtime.tasks t ≠ none →
      t ∈ w₁.runtime.readyQueue :=
    fun t D ht hD htask => by
      rw [hw₁, runtime_scheduleNextTimerTick]
      exact mem_readyQueue_fireTimers hq₀ (htimers₀ ▸ ht) (hnow₀ ▸ hD) (htasks₀ ▸ htask)
  have hq₁' : Queued w₁.runtime w₁.runtime.readyQueue := by
    rw [hw₁, runtime_scheduleNextTimerTick]
    exact hcycled.1.congr rfl rfl rfl rfl
  have hk₁ : w₁.runtime.runtimeKey ≠ none := by
    rw [hw₁, runtime_scheduleNextTimerTick, fireTimers_keep]
    exact hk₀
  have htasks₁ : ∀ t, w.runtime.tasks t ≠ none → w₁.runtime.tasks t ≠ none := fun t htask => by
    rw [hw₁, runtime_scheduleNextTimerTick]
    exact fun hnone => htask (htasks₀ ▸ fireTimers_eq_none.mp hnone)
  have htrace₁ : w₁.trace = w.trace ++ q₁ := by rw [hw₁, trace_scheduleNextTimerTick, hq₁, htrace₀]
  have htimers₁ : ∀ t D, t ∈ w₁.runtime.timersAt D → t ∈ w.runtime.timersAt D := fun t D ht => by
    rw [hw₁, runtime_scheduleNextTimerTick] at ht
    exact htimers₀ ▸ (mem_timersAt_fireTimers.mp ht).1
  rw [← hw₁] at hg ⊢
  have hf := frame_pollReadyTasks w₁ polls
  obtain ⟨q₂, hq₂, hquiet⟩ := hf.quiet
  have hnone : ∀ ev n, .processed ev n ∉ q₁ := fun ev n hm => by
    obtain ⟨t, D, -, -, he⟩ := (hwoken _).mp hm
    cases he
  refine h.extend (by rw [hq₂, htrace₁, List.append_assoc]) hg.ages
    (fun t D ht => ?_) fun pre t D n post he => ?_
  · rw [timersAt_congr hf.timers] at ht
    exact hg.ages.settled t (h.timers t D (htimers₁ t D ht))
  · -- the record is one of those that the timers leave, and the poll comes behind them
    rcases List.append_eq_append_iff.mp he with ⟨r, -, hr⟩ | ⟨r, hr, hpost⟩
    · have hfalse : Obs.Quiet (.woken t D n) :=
        hquiet _ (by rw [hr]; exact List.mem_append_right _ List.mem_cons_self)
      exact hfalse.elim
    cases r with
    | nil =>
      rw [List.nil_append] at hpost
      have hfalse : Obs.Quiet (.woken t D n) := hquiet _ (by rw [← hpost]; exact List.mem_cons_self)
      exact hfalse.elim
    | cons o r =>
      obtain ⟨rfl, rfl⟩ := List.cons.inj hpost
      have hmem : .woken t D n ∈ q₁ := by
        rw [hr]
        exact List.mem_append_right _ List.mem_cons_self
      obtain ⟨t', D', ht, hD, heq⟩ := (hwoken _).mp hmem
      obtain ⟨rfl, rfl, rfl⟩ := Obs.woken.inj heq
      rw [htimers₀] at ht
      rw [hnow₀] at hD
      have hsettled := h.timers t D ht
      refine ⟨hg.ages.settled t hsettled, fun htask => ?_⟩
      have htask := hg.ages.tasks t hsettled htask
      obtain ⟨q₃, hq₃, -, hpolled⟩ := mem_trace_pollReadyTasks polls hk₁ hq₁' (hready t D ht hD htask)
        (htasks₁ t htask)
      obtain rfl : q₃ = q₂ := List.append_cancel_left (hq₃.symm.trans hq₂)
      refine polledNext_of_mem (fun ev n hm => hnone ev n ?_) hquiet hpolled
      rw [hr]
      exact List.mem_append_right _ (List.mem_cons_of_mem _ hm)

/-- Whatever the event, a task that it wakes is polled by the same handler. -/
theorem Prompt.dispatch {w : World ν π φ} (h : Prompt w) (hk : w.runtime.runtimeKey ≠ none)
    (hqueued : Queued w.runtime w.runtime.readyQueue) (event : RuntimeEvent) (script : Script ν) :
    Prompt (w.dispatch event script) := by
  have ha := (grows_dispatch w event script).ages
  have htimers : ∀ t D, t ∈ (w.dispatch event script).runtime.timersAt D →
      Settled (w.dispatch event script).runtime t := by
    intro t D ht
    refine ha.settled t ?_
    rcases (mem_timersAt_dispatch w event script).mp ht with ⟨ht, -⟩ | ⟨-, htask⟩
    · exact h.timers t D ht
    · exact ⟨hqueued.tasks_lt t htask, fun hm => htask (hqueued.fresh t hm).2.1⟩
  cases event with
  | poll => exact h.frame (frame_pollReadyTasks w script.polls)
  | wake t => exact h.frame ((frame_wakeTask w t).trans (frame_pollReadyTasks _ script.polls))
  | cancel t =>
    obtain ⟨⟨q, hq, hquiet⟩, -⟩ := cancelTask_spec w t script.drop
    exact h.unwoken hq ha htimers fun t D n hm => hquiet _ hm
  | registerTimer t D =>
    obtain ⟨q, hq, hwoken⟩ : ∃ q, (w.registerTimer t D).trace = w.trace ++ q ∧ ∀ t D n,
      .woken t D n ∉ q := by
      unfold registerTimer
      split
      · exact ⟨[], (List.append_nil _).symm, by simp⟩
      · exact ⟨[.registered t D w.now], trace_scheduleNextTimerTick _, by simp⟩
    exact h.unwoken hq ha htimers hwoken
  | cancelTimer t D =>
    exact h.unwoken ((trace_cancelTimer w t D).trans (List.append_nil _).symm) ha htimers (by simp)
  | timerTick => exact h.handleTimerTick hk hqueued script.polls

theorem Prompt.processEventEntry {w : World ν π φ} (h : Prompt w)
    (hqueued : Queued w.runtime w.runtime.readyQueue) (e : EventEntry (Payload ν))
    (script : Script ν) : Prompt (w.processEventEntry e script) := by
  rcases e with ⟨i, τ, c, event | v⟩ | ⟨i, τ, id⟩
  · have hkey : Prompt w.storeKey := by
      have ha := (grows_storeKey w).ages
      exact h.unwoken (List.append_nil _).symm ha (fun t D ht => ha.settled t (h.timers t D ht)) (by simp)
    have hd := hkey.dispatch w.runtimeKey_storeKey (hqueued.congr rfl rfl rfl rfl) event script
    exact hd.frame (frame_processEvent w event script)
  · exact h.frame (acted_acts w script.handler).toFrame
  · exact h.frame (acted_executeTask w id script).toFrame

end

/-! ## Runs -/

/-- What was woken before the event was polled before it. -/
theorem Prompt.opened {w w₁ : World ν π φ} {e : EventEntry (Payload ν)} (h : Prompt w)
    (ho : Opened w w₁ e) : Prompt w₁ := by
  have hrt : w₁.runtime = w.runtime := ho.runtime
  have htr : w₁.trace = w.trace ++ [.processed (runtimeEvent? e) e.time] := by rw [ho.keep]
  refine h.unwoken htr (hrt ▸ .refl _) (fun t D ht => ?_) (by simp)
  rw [hrt] at ht ⊢
  exact h.timers t D ht

section
variable [ReadyTaskPolicy π] [EventFrontierPolicy φ]

theorem Prompt.move {w : World ν π φ} (m : Move ν π φ)
    (hqueued : Queued w.runtime w.runtime.readyQueue) (h : Prompt w) :
    Prompt (w.move m) := by
  rcases move_cases m with hm | ⟨script, rfl⟩
  · exact h.frame (frame_move w hm)
  · show Prompt (w.step script).2
    rcases step_cases w script with ⟨s, p, he, -⟩ | ⟨e, w₁, ho, he, -⟩
    · rw [he]
      exact ⟨h.timers, h.woken⟩
    · rw [he]
      have h₁ := (h.opened ho).processEventEntry (ho.runtime ▸ hqueued) e script
      refine ⟨?_, ?_⟩
      · rw [runtime_close]; exact h₁.timers
      · rw [runtime_close, trace_close]; exact h₁.woken

/-- In every run of a simulation that has no event in the past when the runtime is installed: a task
that a timer woke, and still is a task, was polled before the next event. So a task that registered
at `r` for `D`, and did not cancel that, has been woken and polled when the clock was at `max D r`,
once the clock is past that time. -/
theorem run_polled_on_time (s : Scheduler (Payload ν) Unit Unit)
    (hs : ∀ e ∈ s.events.toList, s.clock ≤ e.time) (frontierPolicy : φ)
    (deferred : List (SimTime × Message ν)) (key : Uuid) (policy : π) (spawned : Nat)
    (moves : List (Move ν π φ)) :
    let w := (install s frontierPolicy deferred key policy spawned).run moves
    (∀ pre t D n post, w.trace = pre ++ .woken t D n :: post → w.runtime.tasks t ≠ none →
      PolledNext t post) ∧
    ∀ pre t D r post, w.trace = pre ++ .registered t D r :: post → (∀ o ∈ post, ¬ o.Cancels t D) →
    max D r < w.now →
      w.runtime.tasks t ≠ none → ∃ p q, post = p ++ .woken t D (max D r) :: q ∧ PolledNext t q := by
  intro w
  have hw : Queued w.runtime w.runtime.readyQueue ∧ Prompt w := by
    refine run_rule (P := fun w => Queued w.runtime w.runtime.readyQueue ∧ Prompt w)
      (fun w m h => ⟨queued_move m h.1, h.2.move m h.1⟩) ⟨queued_install .., ⟨fun t D ht => ?_, ?_⟩⟩ moves
    · rw [DesRuntime.mem_timersAt, runtime_install] at ht
      obtain ⟨tasks, hm, -⟩ := ht
      cases hm
    · have htr : (install s frontierPolicy deferred key policy spawned).trace = [] := trace_schedule ..
      rw [htr]
      exact fun pre t D n post he => absurd he (by simp)
  have hpolled : ∀ pre t D n post, w.trace = pre ++ .woken t D n :: post → w.runtime.tasks t ≠ none →
      PolledNext t post :=
    fun pre t D n post he htask => (hw.2.woken pre t D n post he).2 htask
  refine ⟨hpolled, fun pre t D r post he hc hlt htask => ?_⟩
  obtain ⟨-, -, -, -, -, hwoken, -⟩ := run_timers s hs frontierPolicy deferred key policy spawned moves
  obtain ⟨p, q, rfl⟩ := List.append_of_mem (hwoken pre t D r post he hc hlt)
  exact ⟨p, q, rfl, hpolled (pre ++ .registered t D r :: p) t D (max D r) q (by rw [he]; simp) htask⟩

end

/-- The sleeper is polled at 5 ns, and another event comes at 9 ns. -/
def sleepPastFive : List (Move Unit FifoReadyTaskPolicy FifoFrontierPolicy) :=
  sleepUntilFive ++ [.act (.scheduleTask (.saturate 9)),
    .step { Script.idle with polls := fun _ => ⟨[], false, []⟩ }, .step .idle]

theorem run_polled_on_time_sleepPastFive :
    let w := (install (.withSeed 7) {} [] 0 {} 1).run sleepPastFive
    ∃ p q, w.trace = p ++ .woken 0 (.saturate 5) (.saturate 5) :: q ∧ PolledNext 0 q := by
  intro w
  obtain ⟨-, h⟩ := run_polled_on_time (.withSeed 7) nofun {} [] 0 {} 1 sleepPastFive
  have hdrop : w.trace.drop 5 = [.processed (some .timerTick) (.saturate 5),
    .woken 0 (.saturate 5) (.saturate 5), .polled 0,
    .processed none (.saturate 9)] := by decide
  obtain ⟨p, q, he, hp⟩ := h (w.trace.take 4) 0 (.saturate 5) (.saturate 0) (w.trace.drop 5) (by decide)
    (by rw [hdrop]; simp [Obs.Cancels]) (by decide) (by decide)
  refine ⟨w.trace.take 5 ++ p, q, ?_, hp⟩
  rw [List.append_assoc]
  exact (List.take_append_drop 5 w.trace).symm.trans (congrArg (w.trace.take 5 ++ ·) he)

end DesCartes.World
