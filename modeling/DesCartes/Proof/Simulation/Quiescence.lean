import DesCartes.Proof.Simulation.PollOnTime
import DesCartes.Proof.Simulation.Spawn

/-!
# A simulation ends when every task waits

Where a step finds no event, none of the runtime is in the heap. A task that is ready, a spawn
request or a timer has one there, so there is none of them, and the tasks that are left are those
that were polled, and that nothing has woken since.

* `Waiting.dispatch`: whatever the event, a task that is not marked as queued was not woken since it
  was polled;
* `polledAfterWakes`: it was polled after each call of `wake_task` for it, too;
* `ReadyServed.move`: tasks are only ready while an event that polls them is pending;
* `run_quiescent`: the end of any run.
-/

namespace DesCartes

open AsyncRuntime

/-- Records of what wakes the task. -/
def Obs.Wakes (t : AsyncRuntime.TaskId) : Obs → Prop
  | .processed (some (.wake t')) _ => t' = t
  | .woken t' _ _ => t' = t
  | _ => False

theorem Obs.Quiet.not_wakes {o : Obs} (h : o.Quiet) (t : AsyncRuntime.TaskId) : ¬o.Wakes t := by
  cases o <;> first | exact h.elim | exact id

namespace World

variable {ν π φ : Type}

/-- The task was polled, and nothing has woken it since. -/
def Waits (tr : List Obs) (t : AsyncRuntime.TaskId) : Prop := Trace.Open (.polled t) (Obs.Wakes t) tr

theorem Waits.append {tr q : List Obs} {t : AsyncRuntime.TaskId} (h : Waits tr t)
    (hq : ∀ o ∈ q, ¬o.Wakes t) :
    Waits (tr ++ q) t :=
  Trace.open_append.mpr (.inl ⟨h, hq⟩)

theorem waits_of_mem {tr q : List Obs} {t : AsyncRuntime.TaskId} (hq : ∀ o ∈ q, o.Quiet)
    (ht : .polled t ∈ q) :
    Waits (tr ++ q) t := by
  obtain ⟨pre, post, rfl⟩ := List.append_of_mem ht
  refine Trace.open_append.mpr (.inr ⟨pre, post, rfl, fun o ho => (hq o ?_).not_wakes t⟩)
  exact List.mem_append_right _ (List.mem_cons_of_mem _ ho)

/-- A task that is not marked as queued waits, and was polled after the first `n` records. -/
structure Waiting (n : Nat) (t : AsyncRuntime.TaskId) (w : World ν π φ) : Prop where
  length : n ≤ w.trace.length
  waits : ∀ task, w.runtime.tasks t = some task → task.queued = false → Waits (w.trace.drop n) t

section
variable {n : Nat} {t : AsyncRuntime.TaskId}

/-- What is recorded of a step is looked at on its own. -/
theorem Waiting.extend {w w' : World ν π φ} (h : Waiting n t w) {q : List Obs}
    (hq : w'.trace = w.trace ++ q)
    (hkeep : ∀ task, w'.runtime.tasks t = some task → task.queued = false →
      (w.runtime.tasks t = some task ∧ ∀ o ∈ q, ¬o.Wakes t) ∨ ∀ tr, Waits (tr ++ q) t) :
    Waiting n t w' := by
  refine ⟨?_, fun task ht hqueued => ?_⟩
  · rw [hq, List.length_append]
    exact h.length.trans (Nat.le_add_right _ _)
  · rw [hq, List.drop_append_of_le_length h.length]
    rcases hkeep task ht hqueued with ⟨hold, hwakes⟩ | hwaits
    · exact (h.waits task hold hqueued).append hwakes
    · exact hwaits _

/-- The task is not woken, and it is not changed, except that it may be removed. -/
theorem Waiting.quiet {w w' : World ν π φ} (h : Waiting n t w) {q : List Obs}
    (hq : w'.trace = w.trace ++ q) (hwakes : ∀ o ∈ q, ¬o.Wakes t)
    (htasks : ∀ task, w'.runtime.tasks t = some task → w.runtime.tasks t = some task) :
    Waiting n t w' :=
  h.extend hq fun task ht _ => .inl ⟨htasks task ht, hwakes⟩

theorem Waiting.acted {w w' : World ν π φ} (h : Waiting n t w) (ha : Acted w w') : Waiting n t w' := by
  obtain ⟨q, hq, hquiet⟩ := ha.quiet
  exact h.quiet hq (fun o ho => (hquiet o ho).not_wakes t) fun task ht => ha.tasks ▸ ht

theorem Waiting.removeTask {w : World ν π φ} (h : Waiting n t w) (t' : AsyncRuntime.TaskId) :
    Waiting n t (w.setRuntime (w.runtime.removeTask t')) := by
  refine h.quiet (List.append_nil _).symm (List.forall_mem_nil _) fun task ht => ?_
  have ht : Function.update w.runtime.tasks t' none t = some task := ht
  by_cases he : t = t'
  · rw [he, Function.update_self] at ht
    cases ht
  · rwa [Function.update_of_ne he] at ht

theorem queued_wakeTask {rt : DesRuntime π} {t : AsyncRuntime.TaskId} {task : Task}
    (h : (rt.wakeTask t).tasks t = some task) :
    task.queued = true := by
  unfold DesRuntime.wakeTask at h
  split at h
  · rename_i hnone
    rw [hnone] at h
    cases h
  · split at h
    · rename_i old hold hqueued
      rw [hold] at h
      cases h
      exact hqueued
    · simp only [Function.update_self, Option.some.injEq] at h
      rw [← h]

theorem tasks_wakeTask {rt : DesRuntime π} {t t' : AsyncRuntime.TaskId} (h : t' ≠ t) :
    (rt.wakeTask t).tasks t' = rt.tasks t' := by
  unfold DesRuntime.wakeTask
  split
  · rfl
  · split
    · rfl
    · exact Function.update_of_ne h _ _

/-- A task is woken, and this may be recorded. -/
theorem Waiting.wakeTask {w w' : World ν π φ} (h : Waiting n t w) (t' : AsyncRuntime.TaskId)
    {q : List Obs} (hq : w'.trace = w.trace ++ q) (hwakes : ∀ o ∈ q, o.Wakes t → t = t')
    (htasks : w'.runtime.tasks = (w.runtime.wakeTask t').tasks) : Waiting n t w' := by
  refine h.extend hq fun task ht hqueued => .inl ?_
  rw [htasks] at ht
  have hne : t ≠ t' := fun he => by
    rw [he] at ht
    rw [queued_wakeTask ht] at hqueued
    cases hqueued
  rw [tasks_wakeTask hne] at ht
  exact ⟨ht, fun o ho hw => hne (hwakes o ho hw)⟩

theorem Waiting.scheduleNextTimerTick {w : World ν π φ} (h : Waiting n t w) :
    Waiting n t w.scheduleNextTimerTick := by
  refine h.quiet (q := []) (by rw [trace_scheduleNextTimerTick, List.append_nil])
    (List.forall_mem_nil _) fun task ht => ?_
  rw [runtime_scheduleNextTimerTick] at ht
  exact ht

/-! ## Polling -/

/-- The task that is polled waits, or it is done. -/
theorem Waiting.pollOne {w : World ν π φ} (h : Waiting n t w) (hk : w.runtime.runtimeKey ≠ none)
    {t' : AsyncRuntime.TaskId} {task : Task} (ht' : w.runtime.tasks t' = some task)
    (script : PollScript ν) : Waiting n t (w.pollOne t' task script) := by
  obtain ⟨q, hq, hquiet⟩ := (frame_pollOne w ht' script).quiet
  obtain ⟨hpolled, hothers, -, -⟩ := pollOne_spec hk t' task script
  refine h.extend hq fun task' ht hqueued => ?_
  by_cases he : t = t'
  · refine .inr fun tr => ?_
    have hmem : .polled t' ∈ q := by
      have hps : q.filterMap Obs.polled? = [t'] := by
        have := polledTasks_drop ⟨q, hq.symm⟩ hpolled
        rwa [hq, List.drop_left] at this
      rw [← mem_filterMap_polled?, hps]
      exact List.mem_singleton_self t'
    rw [he]
    exact waits_of_mem hquiet hmem
  · rw [hothers t he] at ht
    exact .inl ⟨ht, fun o ho => (hquiet o ho).not_wakes t⟩

section
variable [ReadyTaskPolicy π]

theorem Waiting.pollLoop {m : Nat} {polls : Nat → PollScript ν} {pollSet : List AsyncRuntime.TaskId}
    {w : World ν π φ} (h : Waiting n t w) (hk : w.runtime.runtimeKey ≠ none) :
    Waiting n t (pollLoop m polls pollSet w) := by
  induction m generalizing polls pollSet w with
  | zero => exact h
  | succ m ih =>
    have hc : Waiting n t (w.chooseTask pollSet).2 := h.quiet (List.append_nil _).symm
      (List.forall_mem_nil _) fun _ ht => ht
    have hkc : (w.chooseTask pollSet).2.runtime.runtimeKey ≠ none := hk
    simp only [World.pollLoop]
    split
    · exact hc
    · split
      · exact ih hc hkc
      · rename_i t' _ task ht'
        refine ih (hc.pollOne hkc ht' (polls 0)) ?_
        rw [(frame_pollOne _ ht' (polls 0)).runtimeKey]
        exact hkc

/-- The tasks that are installed are marked as queued. -/
theorem Waiting.pollReadyTasks {w : World ν π φ} (h : Waiting n t w)
    (hk : w.runtime.runtimeKey ≠ none) (polls : Nat → PollScript ν) :
    Waiting n t (w.pollReadyTasks polls) := by
  refine pollLoop (h.extend (List.append_nil _).symm fun task ht hqueued =>
    .inl ⟨?_, (List.forall_mem_nil _)⟩) ?_
  · have ht : w.runtime.drainSpawnQueues.tasks t = some task := ht
    rw [drainSpawnQueues_eq] at ht
    simp only at ht
    split at ht
    · cases ht
      cases hqueued
    · exact ht
  · show w.runtime.drainSpawnQueues.runtimeKey ≠ none
    rw [drainSpawnQueues_eq]
    exact hk

/-! ## Events -/

omit [ReadyTaskPolicy π] in
theorem Waiting.fireTimers {w : World ν π φ} (h : Waiting n t w) (m : Nat) :
    Waiting n t (fireTimers m w) := by
  refine fireTimers_rule (fun w timers h => ?_) (fun D w t' h => ?_) m h
  · exact h.quiet (List.append_nil _).symm (List.forall_mem_nil _) fun _ ht => ht
  · have htrace : (fire D w t').trace = w.trace ++ [.woken t' D w.now] := rfl
    exact h.wakeTask t' htrace (fun o ho hw => by cases List.mem_singleton.mp ho; exact hw.symm) rfl

omit [ReadyTaskPolicy π] in
theorem Waiting.cancelTask {w : World ν π φ} (h : Waiting n t w) (t' : AsyncRuntime.TaskId)
    (drop : List (Action ν)) :
    Waiting n t (w.cancelTask t' drop) := by
  have hacts := (h.removeTask t').acted (acted_acts _ (if (w.runtime.tasks t').isSome then drop else []))
  exact Waiting.scheduleNextTimerTick (hacts.quiet (List.append_nil _).symm
    (List.forall_mem_nil _) fun _ ht => ht)

omit [ReadyTaskPolicy π] in
theorem Waiting.registerTimer {w : World ν π φ} (h : Waiting n t w) (t' : AsyncRuntime.TaskId)
    (D : SimTime) : Waiting n t (w.registerTimer t' D) := by
  unfold World.registerTimer
  split
  · exact h
  · refine Waiting.scheduleNextTimerTick (h.quiet (q := [.registered t' D w.now]) rfl
      (fun o ho hw => ?_) fun _ ht => ht)
    cases List.mem_singleton.mp ho
    exact hw

omit [ReadyTaskPolicy π] in
theorem Waiting.cancelTimer {w : World ν π φ} (h : Waiting n t w) (t' : AsyncRuntime.TaskId)
    (D : SimTime) : Waiting n t (w.cancelTimer t' D) := by
  have hset : ∀ timers, Waiting n t (w.setRuntime { w.runtime with timers }) := fun timers =>
    h.quiet (List.append_nil _).symm (List.forall_mem_nil _) fun _ ht => ht
  unfold World.cancelTimer
  split
  · exact h
  · split
    · exact hset _
    · exact (hset _).scheduleNextTimerTick

/-- An event, of which it was recorded that it is processed. -/
theorem Waiting.dispatch {w w₁ : World ν π φ} (h : Waiting n t w) {event : RuntimeEvent} {now : SimTime}
    (htrace : w₁.trace = w.trace ++ [.processed (some event) now])
    (htasks : w₁.runtime.tasks = w.runtime.tasks) (hk : w₁.runtime.runtimeKey ≠ none)
    (script : Script ν) : Waiting n t (w₁.dispatch event script) := by
  have hopened : ¬Obs.Wakes t (.processed (some event) now) → Waiting n t w₁ := fun hwakes =>
    h.quiet htrace (fun o ho hw => hwakes (by cases List.mem_singleton.mp ho; exact hw))
      fun task ht => htasks ▸ ht
  cases event with
  | poll => exact (hopened id).pollReadyTasks hk script.polls
  | wake t' =>
    have hwoken : Waiting n t (w₁.setRuntime (w₁.runtime.wakeTask t')) := by
      refine h.wakeTask t' htrace (fun o ho hw => ?_) ?_
      · cases List.mem_singleton.mp ho
        exact hw.symm
      · show (w₁.runtime.wakeTask t').tasks = _
        simp only [DesRuntime.wakeTask, htasks]
        split
        · exact htasks
        · split
          · exact htasks
          · rfl
    refine hwoken.pollReadyTasks ?_ script.polls
    rw [(frame_wakeTask w₁ t').runtimeKey]
    exact hk
  | cancel t' => exact (hopened id).cancelTask t' script.drop
  | registerTimer t' D => exact (hopened id).registerTimer t' D
  | cancelTimer t' D => exact (hopened id).cancelTimer t' D
  | timerTick =>
    have hset : Waiting n t (w₁.setRuntime { w₁.runtime with nextTimerDeadline := none }) :=
      (hopened id).quiet (List.append_nil _).symm (List.forall_mem_nil _) fun _ ht => ht
    refine (hset.fireTimers _).scheduleNextTimerTick.pollReadyTasks ?_ script.polls
    rw [runtime_scheduleNextTimerTick, fireTimers_keep]
    exact hk

theorem Waiting.processEventEntry {w w₁ : World ν π φ} {e : EventEntry (Payload ν)}
    (h : Waiting n t w) (ho : Opened w w₁ e) (script : Script ν) :
    Waiting n t (w₁.processEventEntry e script) := by
  have htrace : w₁.trace = w.trace ++ [.processed (runtimeEvent? e) e.time] := by rw [ho.keep]
  have hopened : runtimeEvent? e = none → Waiting n t w₁ := fun hnone => by
    rw [hnone] at htrace
    refine h.quiet htrace (fun o hmem hw => ?_) fun task ht => ho.runtime ▸ ht
    cases List.mem_singleton.mp hmem
    exact hw
  rcases e with ⟨i, τ, c, event | v⟩ | ⟨i, τ, id⟩
  · have hstored : w₁.storeKey.runtime.tasks = w.runtime.tasks := by
      show w₁.runtime.tasks = _
      rw [ho.runtime]
    have hrecorded : w₁.storeKey.trace = w.trace ++ [.processed (some event) τ] := htrace
    have hdispatched := h.dispatch hrecorded hstored w₁.runtimeKey_storeKey script
    obtain ⟨q, hq, hquiet⟩ := (frame_processEvent w₁ event script).quiet
    refine hdispatched.quiet hq (fun o hmem => (hquiet o hmem).not_wakes t) fun task ht => ?_
    have ht : (w₁.processEvent event script).runtime.tasks t = some task := ht
    rwa [runtime_processEvent] at ht
  · exact (hopened rfl).acted (acted_acts w₁ script.handler)
  · exact (hopened rfl).acted (acted_executeTask w₁ id script)

end

/-! ## Runs -/

section
variable [ReadyTaskPolicy π] [EventFrontierPolicy φ]

theorem Waiting.move {w : World ν π φ} (m : Move ν π φ) (h : Waiting n t w) :
    Waiting n t (w.move m) := by
  cases m with
  | act action => exact h.acted (acted_act w action)
  | spawnDirect =>
    refine h.extend (List.append_nil _).symm fun task ht hqueued => .inl ⟨?_, (List.forall_mem_nil _)⟩
    have ht : Function.update w.runtime.tasks w.runtime.nextTaskId (some ⟨true⟩) t = some task := ht
    by_cases he : t = w.runtime.nextTaskId
    · rw [he, Function.update_self] at ht
      cases ht
      cases hqueued
    · rwa [Function.update_of_ne he] at ht
  | wakeDirect t' => exact h.wakeTask t' (List.append_nil _).symm (List.forall_mem_nil _) rfl
  | setReadyTaskPolicy policy =>
    exact h.quiet (List.append_nil _).symm (List.forall_mem_nil _) fun _ ht => ht
  | setFrontierPolicy policy =>
    exact h.quiet (List.append_nil _).symm (List.forall_mem_nil _) fun _ ht => ht
  | step script =>
    show Waiting n t (w.step script).2
    rcases step_cases w script with ⟨s, p, he, -⟩ | ⟨e, w₁, ho, he, -⟩
    · rw [he]
      exact h.quiet (List.append_nil _).symm (List.forall_mem_nil _) fun _ ht => ht
    · rw [he]
      have hdone := h.processEventEntry ho script
      refine hdone.quiet (q := []) ?_ (List.forall_mem_nil _) fun task ht => ?_
      · rw [trace_close, List.append_nil]
      · rwa [runtime_close] at ht

theorem Waiting.run {w : World ν π φ} (moves : List (Move ν π φ)) (h : Waiting n t w) :
    Waiting n t (w.run moves) :=
  run_rule (fun _ m h => h.move m) h moves

/-- Each `wake_task` of the task, by the owner of the simulation, was followed by a poll of it. -/
def PolledAfterWakes (w : World ν π φ) (moves : List (Move ν π φ)) (t : AsyncRuntime.TaskId) : Prop :=
  ∀ pre post, moves = pre ++ .wakeDirect t :: post →
    .polled t ∈ (w.run moves).trace.drop (w.run pre).trace.length

/-- A task that `wake_task` was called for is marked as queued, and so it waits from there on. -/
theorem polledAfterWakes {w : World ν π φ} {moves : List (Move ν π φ)} {task : Task}
    (ht : (w.run moves).runtime.tasks t = some task) (hqueued : task.queued = false) :
    PolledAfterWakes w moves t := by
  rintro pre post rfl
  have hwoken : Waiting (w.run pre).trace.length t ((w.run pre).move (.wakeDirect t)) := by
    refine ⟨le_rfl, fun task' ht' hqueued' => ?_⟩
    rw [queued_wakeTask ht'] at hqueued'
    cases hqueued'
  have hrun : w.run (pre ++ .wakeDirect t :: post) =
      ((w.run pre).move (.wakeDirect t)).run post := List.foldl_append ..
  rw [hrun] at ht ⊢
  obtain ⟨before, after, htrace, -⟩ := (hwoken.run post).waits task ht hqueued
  rw [htrace]
  exact List.mem_append_right _ List.mem_cons_self

omit [ReadyTaskPolicy π] [EventFrontierPolicy φ] in
/-- Tasks are only ready while an event that polls them is pending. -/
def ReadyServed (w : World ν π φ) : Prop := w.runtime.readyQueue ≠ [] → w.DrainPending

omit [ReadyTaskPolicy π] [EventFrontierPolicy φ] in
/-- Outside event processing, the owner of the simulation spawns and wakes tasks only while an event
that polls is pending. -/
def Heeded (w : World ν π φ) (m : Move ν π φ) : Prop :=
  (m = .act .spawn ∨ m = .act .spawnLocal ∨ m = .spawnDirect ∨ ∃ t, m = .wakeDirect t) → w.DrainPending

omit [EventFrontierPolicy φ] in
theorem ReadyServed.processEventEntry {w w₁ : World ν π φ} {e : EventEntry (Payload ν)}
    (h : ReadyServed w) (hqueued : Queued w.runtime w.runtime.readyQueue) (ho : Opened w w₁ e)
    (script : Script ν) :
    ReadyServed (w₁.processEventEntry e script) := by
  have hq : Queued w₁.runtime w₁.runtime.readyQueue := by rw [ho.runtime]; exact hqueued
  have hothers : runtimeEvent? e = none → ∀ w', Acted w₁ w' → ReadyServed w' := fun hnone w' ha hne => by
    rw [ha.readyQueue, ho.runtime] at hne
    rcases h hne with ⟨x, hx, event, hevent, hd⟩ | ⟨wake, hw, hd⟩
    · have hxe : x ≠ e := fun he => by
        rw [he, hnone] at hevent
        cases hevent
      have hx := (ho.held x hx (by rw [hevent]; exact Option.some_ne_none _)).resolve_left hxe
      exact .inl ⟨x, ha.held x hx, event, hevent, hd⟩
    · have hw₁ : wake ∈ w₁.deferred := by rw [ho.keep]; exact hw
      exact .inr ⟨wake, ha.deferred.subset hw₁, hd⟩
  rcases e with ⟨i, τ, c, event | v⟩ | ⟨i, τ, id⟩
  · intro hne
    obtain ⟨x, hx, hpoll⟩ := (cycled_processEvent event script hq).2 hne
    exact .inl ⟨x, hx, .poll, hpoll, trivial⟩
  · exact hothers rfl _ (acted_acts w₁ script.handler)
  · exact hothers rfl _ (acted_executeTask w₁ id script)

theorem ReadyServed.move {w : World ν π φ} {m : Move ν π φ} (h : ReadyServed w)
    (hqueued : Queued w.runtime w.runtime.readyQueue) (hheeded : Heeded w m) :
    ReadyServed (w.move m) := by
  cases m with
  | act action =>
    intro hne
    have ha := acted_act w action
    rw [show (w.move (.act action)).runtime.readyQueue = w.runtime.readyQueue from ha.readyQueue] at hne
    exact (h hne).grows ha.toGrows
  | spawnDirect => exact fun _ => hheeded (.inr (.inr (.inl rfl)))
  | wakeDirect t => exact fun _ => hheeded (.inr (.inr (.inr ⟨t, rfl⟩)))
  | setReadyTaskPolicy policy => exact h
  | setFrontierPolicy policy => exact h
  | step script =>
    show ReadyServed (w.step script).2
    rcases step_cases w script with ⟨s, p, he, -, -, hr, -⟩ | ⟨e, w₁, ho, he, -⟩
    · rw [he]
      intro hne
      rcases h hne with ⟨x, hx, event, hevent, -⟩ | hd
      · rw [hr x hx] at hevent
        cases hevent
      · exact .inr hd
    · rw [he]
      intro hne
      rw [runtime_close] at hne
      have hd := drained_close (w₁.processEventEntry e script)
      -- the deferred wakes are in the heap now
      rcases h.processEventEntry hqueued ho script hne with ⟨x, hx, hevent⟩
        | ⟨wake, hw, event, hevent, hdrains⟩
      · exact .inl ⟨x, hd.held x hx, hevent⟩
      · obtain ⟨i, -, hi⟩ := hd.moved wake hw
        exact .inl ⟨_, hi, event, by rw [Message.runtimeEvent?_entry]; exact hevent, hdrains⟩

omit [ReadyTaskPolicy π] [EventFrontierPolicy φ] in
theorem drainPending_install (s : Scheduler (Payload ν) Unit Unit) (frontierPolicy : φ)
    (deferred : List (SimTime × Message ν)) (key : Uuid) (policy : π) (spawned : Nat) :
    (install s frontierPolicy deferred key policy spawned).DrainPending :=
  .inl ⟨_, (mem_heap_schedule ..).mpr (.inl rfl), .poll, rfl, trivial⟩

omit [ReadyTaskPolicy π] [EventFrontierPolicy φ] in
/-- The tasks that are there already are marked as queued. -/
theorem waiting_install (s : Scheduler (Payload ν) Unit Unit) (frontierPolicy : φ)
    (deferred : List (SimTime × Message ν)) (key : Uuid) (policy : π) (spawned : Nat) :
    Waiting 0 t (install s frontierPolicy deferred key policy spawned) := by
  have hqueued : ∀ n t task, (DesRuntime.spawn^[n] (.new policy)).tasks t = some task →
      task.queued = true := by
    intro n
    induction n with
    | zero => exact fun t task ht => by cases ht
    | succ n ih =>
      intro t task ht
      rw [Function.iterate_succ_apply'] at ht
      have ht : Function.update (DesRuntime.spawn^[n] (.new policy)).tasks
        (DesRuntime.spawn^[n] (.new policy)).nextTaskId
        (some ⟨true⟩) t = some task := ht
      by_cases he : t = (DesRuntime.spawn^[n] (.new policy)).nextTaskId
      · rw [he, Function.update_self] at ht
        rw [← Option.some.inj ht]
      · rw [Function.update_of_ne he] at ht
        exact ih t task ht
  refine ⟨Nat.zero_le _, fun task ht hmarked => ?_⟩
  rw [install, runtime_schedule] at ht
  rw [hqueued spawned t task ht] at hmarked
  cases hmarked

/-- In every run in which the owner of the simulation spawns and wakes tasks, outside event
processing, only while an event that polls is pending: where a step finds no event, and none that
polls is left behind in the buffer, no task is ready, no spawn request and no timer is left, and
every task that is left was polled, and has not been woken since, neither by an event or a timer nor
by `wake_task`. -/
theorem run_quiescent (s : Scheduler (Payload ν) Unit Unit)
    (hs : ∀ e ∈ s.events.toList, s.clock ≤ e.time) (frontierPolicy : φ)
    (deferred : List (SimTime × Message ν)) (key : Uuid) (policy : π) (spawned : Nat)
    (moves : List (Move ν π φ))
    (hheeded : Trace.Along Heeded move (install s frontierPolicy deferred key policy spawned) moves)
    (script : Script ν) :
    let w := (install s frontierPolicy deferred key policy spawned).run moves
    (w.step script).1 = false → (∀ wake ∈ w.deferred, ∀ event,
      wake.2.runtime? = some event → ¬event.Drains) →
      w.runtime.readyQueue = [] ∧ w.requests = [] ∧ w.runtime.timers.entries = [] ∧
        ∀ t, w.runtime.tasks t ≠ none → Waits w.trace t ∧
          PolledAfterWakes (install s frontierPolicy deferred key policy spawned) moves t := by
  intro w hend hbuffer
  have h : w.inContext = false ∧ Queued w.runtime w.runtime.readyQueue ∧ (∀ t, Waiting 0 t w) ∧
      ReadyServed w ∧ Served w := by
    have hpending := drainPending_install s frontierPolicy deferred key policy spawned
    refine hheeded.invariant (P := fun w => w.inContext = false ∧
      Queued w.runtime w.runtime.readyQueue ∧ (∀ t, Waiting 0 t w) ∧ ReadyServed w ∧
      Served w) (fun w m h hm => ?_)
      ⟨inContext_schedule .., queued_install ..,
        fun _ => waiting_install s frontierPolicy deferred key policy spawned, fun _ => hpending,
        fun _ => hpending⟩
    obtain ⟨hcontext, hqueued, hwaiting, hwoken, hserved⟩ := h
    have hspawns : SpawnsServed w m := fun hspawn => hm (hspawn.elim .inl fun h => .inr (.inl h))
    exact ⟨inContext_move m hcontext, queued_move m hqueued, fun t => (hwaiting t).move m, hwoken.move hqueued hm,
      (served_move m hcontext hserved).mp hspawns⟩
  obtain ⟨-, hqueued, hwaiting, hwoken, hserved⟩ := h
  have hnone : ¬w.DrainPending := by
    rcases step_cases w script with ⟨s, p, -, -, -, hr, -⟩ | ⟨e, w₁, -, he, -⟩
    · rintro (⟨x, hx, event, hevent, -⟩ | ⟨wake, hw, event, hevent, hdrains⟩)
      · rw [hr x hx] at hevent
        cases hevent
      · exact hbuffer wake hw event hevent hdrains
    · rw [he] at hend
      cases hend
  have hready : w.runtime.readyQueue = [] := by_contra fun hne => hnone (hwoken hne)
  obtain ⟨-, -, -, -, -, -, htimers⟩ := run_timers s hs frontierPolicy deferred key policy spawned moves
  refine ⟨hready, by_contra fun hne => hnone (hserved hne), htimers script hend, fun t ht => ?_⟩
  obtain ⟨task, htask⟩ := Option.ne_none_iff_exists'.mp ht
  have hmarked : task.queued = false := by
    by_contra hmarked
    have hmem := (hqueued.queued t task htask).mp (Bool.not_eq_false _ ▸ hmarked)
    rw [hready] at hmem
    cases hmem
  exact ⟨(hwaiting t).waits task htask hmarked, polledAfterWakes htask hmarked⟩

end

end

/-- A second task is spawned before the first event, and the first one woken; both are polled, and
wait for ever. -/
def parked : List (Move Unit FifoReadyTaskPolicy FifoFrontierPolicy) :=
  [.act .spawn, .wakeDirect 0, .step { Script.idle with polls := fun _ => ⟨[], false, []⟩ }]

theorem run_quiescent_parked :
    ((((install (.withSeed 7) {} [] 0 {} 1).run parked).step .idle).1 = false) ∧
    Waits ((install (.withSeed 7) {} [] 0 {} 1).run parked).trace 1 ∧
    PolledAfterWakes (install (.withSeed 7) {} [] 0 {} 1) parked 0 := by
  have hend : (((install (.withSeed 7) {} [] 0 {} 1).run parked).step .idle).1 = false := by decide
  have hbuffer : ((install (.withSeed 7) {} [] 0 {} 1).run parked).deferred = [] := by decide
  have hfirst : ((install (.withSeed 7) {} [] 0 {} 1).run parked).runtime.tasks 0 ≠ none := by decide
  have hsecond : ((install (.withSeed 7) {} [] 0 {} 1).run parked).runtime.tasks 1 ≠ none := by decide
  have hheeded : Trace.Along Heeded move (install (.withSeed 7) {} [] 0 {} 1) parked := by
    have hinstalled : (install (.withSeed 7) {} [] 0 {} 1 : World Unit FifoReadyTaskPolicy
      FifoFrontierPolicy).DrainPending := drainPending_install ..
    refine ⟨fun _ => hinstalled, fun _ => hinstalled, fun h => ?_, trivial⟩
    simp at h
  have h := run_quiescent (.withSeed 7) nofun FifoFrontierPolicy.mk [] 0 FifoReadyTaskPolicy.mk 1 parked
    hheeded .idle hend fun wake hwake => by
      rw [hbuffer] at hwake
      cases hwake
  exact ⟨hend, (h.2.2.2 1 hsecond).1, (h.2.2.2 0 hfirst).2⟩

end World

end DesCartes
