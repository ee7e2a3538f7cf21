import DesCartes.Framework.Trace
import DesCartes.Proof.Scheduler.Fifo
import DesCartes.Proof.Simulation.ReadyQueue

/-!
# Spawn requests

The handles of the runtime put a request into a spawn queue, which the next poll cycle drains.
Inside event processing they also defer a `Poll` (`Announced`); outside they rely on the first `Poll`,
that of `install`.

`Served w` says that requests only wait while an event that drains the queues is pending. A spawn
outside event processing keeps it exactly when one is (`served_move`), as the first `Poll` is until it
has been processed: where nothing is spawned outside event processing after that (`SpawnsEarly`),
`Served` holds in every run (`run_spawned`). The event is then due at once, and already has its number
(`Drainer`). So the clock stands still until the tasks have been polled, and a policy that picks the
event with the least number polls them after as many steps as there are events in the heap.
-/

namespace DesCartes

open AsyncRuntime

/-- Events whose processing drains the spawn queues. -/
def AsyncRuntime.RuntimeEvent.Drains : RuntimeEvent → Prop
  | .poll | .wake _ | .timerTick => True
  | _ => False

/-- The call does not cancel the request for the task `t`. -/
def Action.Spares {ν : Type} (action : Action ν) (t : AsyncRuntime.TaskId) : Prop :=
  action ≠ .cancel t ∧ action ≠ .cancelLocal t

/-- The code of other components, of one-shot tasks and of a future that is dropped does not either. -/
def Script.Spares {ν : Type} (script : Script ν) (t : AsyncRuntime.TaskId) : Prop :=
  ∀ action ∈ script.handler ++ script.drop, action.Spares t

namespace World

variable {ν π φ : Type}

/-- The ids of the spawn requests. -/
def requests (w : World ν π φ) : List AsyncRuntime.TaskId := w.runtime.spawnQueue ++ w.runtime.spawnQueueLocal

/-- An event that drains the spawn queues is in the heap or among the deferred wakes. -/
def DrainPending (w : World ν π φ) : Prop :=
  (∃ e ∈ w.heap, ∃ event, runtimeEvent? e = some event ∧ event.Drains) ∨
    ∃ wake ∈ w.deferred, ∃ event, wake.2.runtime? = some event ∧ event.Drains

/-- Spawn requests only wait while an event that drains them is pending. -/
def Served (w : World ν π φ) : Prop := w.requests ≠ [] → w.DrainPending

theorem DrainPending.grows {w w' : World ν π φ} (h : w.DrainPending) (hg : Grows w w') : w'.DrainPending := by
  rcases h with ⟨e, he, h⟩ | ⟨wake, hw, h⟩
  · exact .inl ⟨e, hg.held e he, h⟩
  · exact .inr ⟨wake, hg.deferred.subset hw, h⟩

/-- No request is added. -/
theorem Served.grows {w w' : World ν π φ} (h : Served w) (hg : Grows w w') (hr : w'.requests ⊆ w.requests) :
    Served w' := by
  intro hne
  obtain ⟨t, ht⟩ := List.exists_mem_of_ne_nil _ hne
  exact (h (List.ne_nil_of_mem (hr ht))).grows hg

/-! ## Calls -/

theorem requests_act (w : World ν π φ) {action : Action ν} (h₁ : action ≠ .spawn)
    (h₂ : action ≠ .spawnLocal) :
    (w.act action).requests ⊆ w.requests := by
  rcases runtime_act w action with e | ⟨e, -⟩ | ⟨e, -⟩ | ⟨t, -, e⟩ | ⟨t, -, e⟩
  · rw [requests, e]
    exact List.Subset.refl _
  · exact absurd e h₁
  · exact absurd e h₂
  · rw [requests, e]
    exact (List.filter_sublist.append_right _).subset
  · rw [requests, e]
    exact (List.filter_sublist.append_left _).subset

/-- A request stays, unless it is cancelled. -/
theorem request_act {w : World ν π φ} {t : AsyncRuntime.TaskId} (h : t ∈ w.requests) {action : Action ν}
    (ha : action.Spares t) : t ∈ (w.act action).requests := by
  rcases runtime_act w action with e | ⟨-, e⟩ | ⟨-, e⟩ | ⟨t', rfl, e⟩ | ⟨t', rfl, e⟩ <;> rw [requests, e]
  · exact h
  · exact List.mem_append.mpr ((List.mem_append.mp h).imp (List.mem_append_left _) id)
  · exact List.mem_append.mpr ((List.mem_append.mp h).imp id (List.mem_append_left _))
  · have hne : t ≠ t' := fun e => ha.1 (e ▸ rfl)
    refine List.mem_append.mpr ((List.mem_append.mp h).imp (fun h => ?_) id)
    exact List.mem_filter.mpr ⟨h, decide_eq_true hne⟩
  · have hne : t ≠ t' := fun e => ha.2 (e ▸ rfl)
    refine List.mem_append.mpr ((List.mem_append.mp h).imp id fun h => ?_)
    exact List.mem_filter.mpr ⟨h, decide_eq_true hne⟩

theorem request_acts {w : World ν π φ} {t : AsyncRuntime.TaskId} (h : t ∈ w.requests)
    {actions : List (Action ν)} (ha : ∀ action ∈ actions, action.Spares t) :
    t ∈ (w.acts actions).requests :=
  List.foldlRecOn (motive := fun w : World ν π φ => t ∈ w.requests) actions act h
    fun _ h a hm => request_act h (ha a hm)

/-- While an event is processed: no request is added to those of `q`, unless a `Poll` is deferred. -/
structure Announced (q : List AsyncRuntime.TaskId) (w : World ν π φ) : Prop where
  inContext : w.inContext = true
  requests : w.requests ⊆ q ∨ (SimTime.zero, Message.runtime .poll) ∈ w.deferred

section
variable {q : List AsyncRuntime.TaskId}

theorem Announced.fewer {w w' : World ν π φ} (h : Announced q w) (hg : Grows w w')
    (hr : w'.requests ⊆ w.requests) : Announced q w' :=
  ⟨hg.inContext.trans h.inContext, h.requests.imp (List.Subset.trans hr) fun hm => hg.deferred.subset hm⟩

theorem Announced.grows {w w' : World ν π φ} (h : Announced q w) (hg : Grows w w')
    (hr : w'.requests = w.requests) : Announced q w' :=
  h.fewer hg (hr ▸ List.Subset.refl _)

/-- A spawn inside event processing defers a `Poll`. -/
theorem Announced.act (w : World ν π φ) (action : Action ν) (h : Announced q w) :
    Announced q (w.act action) := by
  have hin := (acted_act w action).inContext.trans h.inContext
  by_cases h₁ : action = .spawn
  · subst h₁
    refine ⟨hin, .inr ?_⟩
    simp [World.act, World.spawn, setRuntime, h.inContext, deferWake, deferWakeAfter]
  by_cases h₂ : action = .spawnLocal
  · subst h₂
    refine ⟨hin, .inr ?_⟩
    simp [World.act, World.spawnLocal, setRuntime, h.inContext, deferWake, deferWakeAfter]
  exact h.fewer (acted_act w action).toGrows (requests_act w h₁ h₂)

theorem Announced.acts {w : World ν π φ} (h : Announced q w) (actions : List (Action ν)) :
    Announced q (w.acts actions) :=
  acts_rule Announced.act h actions

end

/-! ## Handlers -/

@[simp] theorem requests_scheduleNextTimerTick (w : World ν π φ) :
    w.scheduleNextTimerTick.requests = w.requests := by
  rw [requests, runtime_scheduleNextTimerTick, requests]

theorem requests_registerTimer (w : World ν π φ) (t : AsyncRuntime.TaskId) (D : SimTime) :
    (w.registerTimer t D).requests = w.requests := by
  unfold registerTimer
  split
  · rfl
  · rw [requests_scheduleNextTimerTick]
    rfl

theorem requests_cancelTimer (w : World ν π φ) (t : AsyncRuntime.TaskId) (D : SimTime) :
    (w.cancelTimer t D).requests = w.requests := by
  unfold cancelTimer
  split
  · rfl
  · split
    · rfl
    · rw [requests_scheduleNextTimerTick]
      rfl

theorem requests_processEvent [ReadyTaskPolicy π] (w : World ν π φ) (event : RuntimeEvent) (script : Script ν) :
    (w.processEvent event script).requests = (w.storeKey.dispatch event script).requests := by
  rw [requests, runtime_processEvent, requests]

/-- Cancelling a task runs the code that drops its future, and nothing else that spawns. -/
theorem requests_cancelTask (w : World ν π φ) (t : AsyncRuntime.TaskId) (drop : List (Action ν)) :
    (w.cancelTask t drop).requests = ((w.setRuntime (w.runtime.removeTask t)).acts
      (if (w.runtime.tasks t).isSome then drop else [])).requests :=
  requests_scheduleNextTimerTick _

section
variable [ReadyTaskPolicy π] {q : List AsyncRuntime.TaskId}

omit [ReadyTaskPolicy π] in
theorem Announced.cancelTask {w : World ν π φ} (h : Announced q w) (t : AsyncRuntime.TaskId)
    (drop : List (Action ν)) :
    Announced q (w.cancelTask t drop) := by
  have hremoved : Announced q (w.setRuntime (w.runtime.removeTask t)) := ⟨h.inContext, h.requests⟩
  have hacts := hremoved.acts (if (w.runtime.tasks t).isSome then drop else [])
  refine ⟨(grows_cancelTask w t drop).inContext.trans h.inContext, ?_⟩
  rw [requests_cancelTask]
  refine hacts.requests.imp id fun hm => ?_
  have hg := (grows_timers ((w.setRuntime (w.runtime.removeTask t)).acts
    (if (w.runtime.tasks t).isSome then drop else [])) (DesRuntime.removeTimers _ t) rfl rfl rfl rfl).trans
    (grows_scheduleNextTimerTick _)
  exact hg.deferred.subset hm

omit [ReadyTaskPolicy π] in
theorem cycleInvariant_announced : CycleInvariant (Announced q : World ν π φ → Prop) where
  act := Announced.act
  thins w _ h ht := h.grows (frame_thins w ht).toGrows (congrArg₂ _ ht.spawnQueue ht.spawnQueueLocal)
  poll _ _ h _ := ⟨h.inContext, h.requests⟩
  done _ h := ⟨h.inContext, h.requests⟩

/-- A poll cycle starts by draining the queues. -/
theorem announced_pollReadyTasks {w : World ν π φ} (hin : w.inContext = true) (polls : Nat → PollScript ν) :
    Announced q (w.pollReadyTasks polls) := by
  refine cycleInvariant_announced.pollReadyTasks ⟨hin, .inl ?_⟩ polls
  rw [drainSpawnQueues_eq]
  exact List.nil_subset q

/-- What a handler leaves: the requests there were, unless its event drains the queues, and those that
are announced. -/
theorem Opened.announced {w w₁ : World ν π φ} {e : EventEntry (Payload ν)} (ho : Opened w w₁ e)
    (hq : (∀ event, runtimeEvent? e = some event → ¬ event.Drains) → w.requests ⊆ q) (script : Script ν) :
    Announced q (w₁.processEventEntry e script) := by
  have hin : w₁.inContext = true := by rw [ho.keep]
  have hopened : (∀ event, runtimeEvent? e = some event → ¬ event.Drains) → Announced q w₁ := fun he => by
    refine ⟨hin, .inl ?_⟩
    rw [requests, ho.runtime]
    exact hq he
  rcases e with ⟨i, τ, c, event | v⟩ | ⟨i, τ, id⟩
  · have hstored : ¬ event.Drains → Announced q w₁.storeKey := fun hd => by
      have h := hopened fun event' he => by rw [← Option.some.inj he]; exact hd
      exact ⟨h.inContext, h.requests⟩
    suffices hd : Announced q (w₁.storeKey.dispatch event script) from
      hd.grows (frame_processEvent w₁ event script).toGrows (requests_processEvent ..)
    cases event with
    | poll => exact announced_pollReadyTasks (w := w₁.storeKey) hin _
    | wake t =>
      exact announced_pollReadyTasks (w := w₁.storeKey.setRuntime (w₁.storeKey.runtime.wakeTask t)) hin _
    | cancel t => exact (hstored id).cancelTask t script.drop
    | registerTimer t D =>
      exact (hstored id).grows (grows_registerTimer ..) (requests_registerTimer ..)
    | cancelTimer t D => exact (hstored id).grows (grows_cancelTimer ..) (requests_cancelTimer ..)
    | timerTick =>
      simp only [dispatch, handleTimerTick]
      refine announced_pollReadyTasks ?_ _
      rw [(grows_scheduleNextTimerTick _).inContext, (grows_fireTimers ..).inContext]
      exact hin
  · exact (hopened (by simp [runtimeEvent?])).acts script.handler
  · refine executeTask_rule (fun w a _ h => Announced.act w a h) (fun w s h hs => ?_)
      (hopened (by simp [runtimeEvent?])) id
    exact h.grows (acted_scheduler w hs).toGrows rfl

omit [ReadyTaskPolicy π] in
theorem request_cancelTask {w : World ν π φ} {t : AsyncRuntime.TaskId} (h : t ∈ w.requests)
    (t' : AsyncRuntime.TaskId) {drop : List (Action ν)} (hd : ∀ action ∈ drop, action.Spares t) :
    t ∈ (w.cancelTask t' drop).requests := by
  rw [requests_cancelTask]
  refine request_acts (w := w.setRuntime (w.runtime.removeTask t')) h fun action ha => ?_
  split at ha
  · exact hd action ha
  · cases ha

/-- A handler leaves a request, unless its event drains the queues or its code cancels the request. -/
theorem Opened.request {w w₁ : World ν π φ} {e : EventEntry (Payload ν)} (ho : Opened w w₁ e)
    (he : ∀ event, runtimeEvent? e = some event → ¬ event.Drains) {script : Script ν}
    {t : AsyncRuntime.TaskId} (hs : script.Spares t) (h : t ∈ w.requests) :
    t ∈ (w₁.processEventEntry e script).requests := by
  obtain ⟨hhandler, hdrop⟩ := List.forall_mem_append.mp hs
  have h₁ : t ∈ w₁.requests := by
    rw [requests, ho.runtime]
    exact h
  rcases e with ⟨i, τ, c, event | v⟩ | ⟨i, τ, id⟩
  · show t ∈ (w₁.processEvent event script).requests
    rw [requests_processEvent]
    have hstored : t ∈ w₁.storeKey.requests := h₁
    cases event with
    | poll => exact absurd trivial (he .poll rfl)
    | wake t' => exact absurd trivial (he (.wake t') rfl)
    | timerTick => exact absurd trivial (he .timerTick rfl)
    | cancel t' => exact request_cancelTask hstored t' hdrop
    | registerTimer t' D => exact (requests_registerTimer w₁.storeKey t' D).symm ▸ hstored
    | cancelTimer t' D => exact (requests_cancelTimer w₁.storeKey t' D).symm ▸ hstored
  · exact request_acts h₁ hhandler
  · exact executeTask_rule (P := fun w => t ∈ w.requests) (fun _ a ha h => request_act h (hhandler a ha))
      (fun _ _ h _ => h) h₁ id

theorem Served.processEventEntry {w w₁ : World ν π φ} {e : EventEntry (Payload ν)} (h : Served w)
    (ho : Opened w w₁ e) (script : Script ν) : Served (w₁.processEventEntry e script) := by
  intro hne
  have hg := grows_processEventEntry w₁ e script
  by_cases he : ∀ event, runtimeEvent? e = some event → ¬ event.Drains
  · rcases (ho.announced (fun _ => List.Subset.refl _) script).requests with hsub | hpoll
    · obtain ⟨t, ht⟩ := List.exists_mem_of_ne_nil _ hne
      rcases h (List.ne_nil_of_mem (hsub ht)) with ⟨x, hx, event, hev, hd⟩ | ⟨wake, hw, hd⟩
      · have hxe : x ≠ e := fun e' => he event (e' ▸ hev) hd
        have hx₁ := (ho.held x hx (by simp [hev])).resolve_left hxe
        exact .inl ⟨x, hg.held x hx₁, event, hev, hd⟩
      · refine .inr ⟨wake, hg.deferred.subset ?_, hd⟩
        rw [ho.keep]
        exact hw
    · exact .inr ⟨_, hpoll, .poll, rfl, trivial⟩
  · rcases (ho.announced (q := []) (fun h => absurd h he) script).requests with hsub | hpoll
    · exact absurd (List.subset_nil.mp hsub) hne
    · exact .inr ⟨_, hpoll, .poll, rfl, trivial⟩

omit [ReadyTaskPolicy π] in
/-- A draining event has a poll cycle. -/
theorem exists_cycleStart {event : RuntimeEvent} (hd : event.Drains) (w : World ν π φ) :
    ∃ w', w.cycleStart? event = some w' := by
  cases event <;> first | exact ⟨_, rfl⟩ | exact hd.elim

variable [EventFrontierPolicy φ]

/-! ## Runs -/

theorem Served.step {w : World ν π φ} (h : Served w) (script : Script ν) : Served (w.step script).2 := by
  rcases step_cases w script with ⟨s, p, he, -, -, hr, -⟩ | ⟨e, w₁, ho, he, -⟩
  · rw [he]
    intro hne
    rcases h hne with ⟨x, hx, event, hev, -⟩ | hd
    · rw [hr x hx] at hev
      cases hev
    · exact .inr hd
  · have h' := h.processEventEntry ho script
    have hd := drained_close (w₁.processEventEntry e script)
    rw [he]
    intro hne
    rw [requests, runtime_close] at hne
    -- The deferred wakes are in the heap now.
    rcases h' hne with ⟨x, hx, hev⟩ | ⟨wake, hw, event, hev, hdr⟩
    · exact .inl ⟨x, hd.held x hx, hev⟩
    · obtain ⟨i, -, hi⟩ := hd.moved wake hw
      exact .inl ⟨_, hi, event, by rw [Message.runtimeEvent?_entry]; exact hev, hdr⟩

/-- A spawn outside event processing is made while an event that drains the queues is pending. -/
def SpawnsServed (w : World ν π φ) (m : Move ν π φ) : Prop :=
  m = .act .spawn ∨ m = .act .spawnLocal → w.DrainPending

theorem requests_move {w : World ν π φ} {m : Move ν π φ}
    (hstep : ∀ script, m ≠ .step script) (hspawn : ¬ (m = .act .spawn ∨ m = .act .spawnLocal)) :
    (w.move m).requests ⊆ w.requests := by
  cases m with
  | act action =>
    exact requests_act w (fun e => hspawn (.inl (by rw [e]))) fun e => hspawn (.inr (by rw [e]))
  | wakeDirect t =>
    show (w.runtime.wakeTask t).spawnQueue ++ (w.runtime.wakeTask t).spawnQueueLocal ⊆ _
    rw [wakeTask_keep]
    exact List.Subset.refl _
  | step script => exact absurd rfl (hstep script)
  | spawnDirect => exact List.Subset.refl _
  | setReadyTaskPolicy policy => exact List.Subset.refl _
  | setFrontierPolicy policy => exact List.Subset.refl _

/-- The move does not cancel the request for the task `t`. -/
def Move.Spares (t : AsyncRuntime.TaskId) : Move ν π φ → Prop
  | .act action => action.Spares t
  | .step script => script.Spares t
  | _ => True

/-- The number of steps among the moves. -/
def steps (moves : List (Move ν π φ)) : Nat := moves.countP fun m => m matches .step _

theorem request_move {w : World ν π φ} {m : Move ν π φ} (hstep : ∀ script, m ≠ .step script)
    {t : AsyncRuntime.TaskId} (hm : m.Spares t) (h : t ∈ w.requests) : t ∈ (w.move m).requests := by
  cases m with
  | act action => exact request_act h hm
  | wakeDirect t' =>
    show t ∈ (w.runtime.wakeTask t').spawnQueue ++ (w.runtime.wakeTask t').spawnQueueLocal
    rw [wakeTask_keep]
    exact h
  | step script => exact absurd rfl (hstep script)
  | _ => exact h

/-- Every move keeps `Served`, except for a spawn when nothing is pending. -/
theorem served_move {w : World ν π φ} (m : Move ν π φ) (hin : w.inContext = false) (h : Served w) :
    SpawnsServed w m ↔ Served (w.move m) := by
  by_cases hm : m = .act .spawn ∨ m = .act .spawnLocal
  · have hf : Frame w (w.move m) := frame_move w fun script e => by rcases hm with rfl | rfl <;> cases e
    have hkeep : (w.move m).heap = w.heap ∧ (w.move m).deferred = w.deferred ∧ (w.move m).requests ≠ [] := by
      rcases hm with rfl | rfl <;>
        simp [move, World.act, World.spawn, World.spawnLocal, setRuntime, hin, requests, heap]
    refine ⟨fun hs _ => (hs hm).grows hf.toGrows, fun hs _ => ?_⟩
    have := hs hkeep.2.2
    rwa [DrainPending, hkeep.1, hkeep.2.1] at this
  · refine iff_of_true (fun h => absurd h hm) ?_
    rcases move_cases m with hstep | ⟨script, rfl⟩
    · exact h.grows (frame_move w hstep).toGrows (requests_move hstep hm)
    · exact h.step script

/-! ## The event that is due -/

/-- `e` is an event of the heap that drains the spawn queues; it is due, and has a number that was
given out. -/
structure Drainer (w : World ν π φ) (e : EventEntry (Payload ν)) : Prop where
  mem : e ∈ w.heap
  drains : ∃ event, runtimeEvent? e = some event ∧ event.Drains
  time : e.time = w.now
  seq : e.seq ≤ w.scheduler.nextEventId

/-- The events that a policy that picks the least number may process up to `e`. -/
def rank (w : World ν π φ) (e : EventEntry (Payload ν)) : Nat := w.heap.countP (EventEntry.Before · e)

section
variable {w w₁ : World ν π φ} {e p : EventEntry (Payload ν)}

omit [ReadyTaskPolicy π] [EventFrontierPolicy φ] in
theorem Drainer.adds {w' : World ν π φ} (h : Drainer w p) (ha : w.scheduler.Adds w'.scheduler) :
    Drainer w' p ∧ w'.rank p = w.rank p := by
  refine ⟨⟨ha.held h.mem, h.drains, h.time.trans ha.clock.symm, h.seq.trans ha.nextEventId⟩, ?_⟩
  exact ha.countP_before h.time.le h.seq

omit [ReadyTaskPolicy π] [EventFrontierPolicy φ] in
theorem Drainer.rank_pos (h : Drainer w p) : 0 < w.rank p :=
  List.countP_pos_iff.mpr ⟨p, h.mem, by simp [EventEntry.Before]⟩

omit [ReadyTaskPolicy π] [EventFrontierPolicy φ] in
/-- Another event that is processed is due as well. -/
theorem Drainer.opened (h : Drainer w p) (hf : Future w) (ho : Opened w w₁ e) (hne : p ≠ e) :
    Drainer w₁ p ∧ w₁.now = w.now ∧ w₁.rank p ≤ w.rank p := by
  obtain ⟨event, hev, -⟩ := h.drains
  have hmem : p ∈ w₁.heap := (ho.held p h.mem (by simp [hev])).resolve_left hne
  have hnow : w₁.now = w.now := by
    rw [ho.now]
    exact le_antisymm ((ho.least p hmem).trans h.time.le) (hf e ho.mem)
  refine ⟨⟨hmem, h.drains, h.time.trans hnow.symm, h.seq.trans ho.nextEventId.ge⟩, hnow, ?_⟩
  obtain ⟨d, hp, -⟩ := ho.heap
  rw [rank, rank, hp.countP_eq, List.countP_append, List.countP_cons]
  omega

omit [ReadyTaskPolicy π] in
/-- A policy that picks the least number gets nearer to it. -/
theorem Drainer.rank_lt (h : Drainer w₁ p) (hfifo : Scheduler.ChoosesFirst φ) (ho : Opened w w₁ e)
    (hpop : w.scheduler.popWithPolicy w.frontierPolicy = (some e, w₁.scheduler, w₁.frontierPolicy)) :
    w₁.rank p < w.rank p := by
  have hbefore : EventEntry.Before e p := Scheduler.popWithPolicy_first hfifo hpop p h.mem
  obtain ⟨d, hp, -⟩ := ho.heap
  rw [rank, rank, hp.countP_eq, List.countP_append, List.countP_cons, decide_eq_true hbefore, if_pos rfl]
  omega

omit [ReadyTaskPolicy π] [EventFrontierPolicy φ] in
/-- A `Poll` that is deferred while an event is processed is due when the step ends. -/
theorem exists_drainer_close {w : World ν π φ} (h : (SimTime.zero, Message.runtime .poll) ∈ w.deferred) :
    ∃ e, Drainer w.close e := by
  obtain ⟨i, hi, hm⟩ := (drained_close w).moved _ h
  refine ⟨_, hm, ⟨.poll, by rw [Message.runtimeEvent?_entry]; rfl, trivial⟩, ?_, hi⟩
  rw [Message.time_entry, SimTime.add_zero]
  exact (drained_close w).now.symm

/-- A step finds it. -/
theorem Drainer.step_finds (h : Drainer w p) (script : Script ν) :
    (w.step script).1 = true := by
  obtain ⟨event, hev, -⟩ := h.drains
  rcases step_cases w script with ⟨s, q, -, -, -, hr, -⟩ | ⟨e, w₁, -, he, -⟩
  · rw [hr p h.mem] at hev
    cases hev
  · rw [he]

end

/-! ## Spawning early -/

/-- Outside event processing, nothing is spawned once a `Poll` of the runtime has been processed. -/
def SpawnsEarly (w : World ν π φ) (m : Move ν π φ) : Prop :=
  m = .act .spawn ∨ m = .act .spawnLocal → ∀ now, .processed (some .poll) now ∉ w.trace

/-- Between events: while no `Poll` has been processed the first one is due, and while there are
requests an event is that drains them. -/
structure Attended (w : World ν π φ) : Prop where
  inContext : w.inContext = false
  future : Future w
  first : (∀ now, .processed (some .poll) now ∉ w.trace) →
    ∃ e, Drainer w e ∧ runtimeEvent? e = some .poll
  requests : w.requests ≠ [] → ∃ e, Drainer w e

omit [ReadyTaskPolicy π] [EventFrontierPolicy φ] in
theorem attended_install {s : Scheduler (Payload ν) Unit Unit} (hs : ∀ e ∈ s.events.toList, s.clock ≤ e.time)
    (frontierPolicy : φ) (deferred : List (SimTime × Message ν)) (key : Uuid) (policy : π) (spawned : Nat) :
    Attended (install s frontierPolicy deferred key policy spawned) := by
  refine ⟨inContext_schedule .., ?_, fun _ => ⟨_, ⟨(mem_heap_schedule ..).mpr (.inl rfl),
    ⟨.poll, rfl, trivial⟩, SimTime.add_zero _, le_rfl⟩, rfl⟩, fun hne => absurd ?_ hne⟩
  · intro e he
    rw [show (install s frontierPolicy deferred key policy spawned).now = s.clock from now_schedule ..]
    rcases (mem_heap_schedule ..).mp he with rfl | he
    · exact SimTime.le_add ..
    · exact hs e he
  · rw [World.requests, runtime_install]
    rfl

/-- A step: what is due stays so, or has been processed. -/
theorem Attended.step {w : World ν π φ} (h : Attended w) (script : Script ν) : Attended (w.step script).2 := by
  have hin : (w.step script).2.inContext = false := inContext_move (.step script) h.inContext
  have hfuture : Future (w.step script).2 := future_move (.step script) h.future
  rcases step_cases w script with ⟨s, p, he, -⟩ | ⟨e, w₁, ho, he, -⟩
  · -- nothing is due in this case
    have hnone : ∀ e, ¬ Drainer w e := fun e hd => by
      have := hd.step_finds script
      rw [he] at this
      cases this
    refine ⟨hin, hfuture, fun hn => ?_, fun hne => ?_⟩
    · rw [he] at hn
      obtain ⟨e, hd, -⟩ := h.first hn
      exact absurd hd (hnone e)
    · rw [he] at hne
      obtain ⟨e, hd⟩ := h.requests hne
      exact absurd hd (hnone e)
  · have hstays : ∀ p, Drainer w p → p ≠ e → Drainer (w.step script).2 p := fun p hd hne => by
      rw [he]
      exact ((hd.opened h.future ho hne).1.adds (adds_close w₁ e script)).1
    refine ⟨hin, hfuture, fun hn => ?_, fun hne => ?_⟩
    · obtain ⟨-, q, htrace, -⟩ := ho.close_trace script
      rw [he, htrace] at hn
      obtain ⟨p, hd, hp⟩ := h.first fun now hm => hn now (List.mem_append_left _ hm)
      refine ⟨p, hstays p hd fun hpe => hn e.time ?_, hp⟩
      rw [← hpe, hp]
      exact List.mem_append_right _ List.mem_cons_self
    · have hrequests : (w₁.processEventEntry e script).requests ≠ [] := by
        rw [he, World.requests, runtime_close] at hne
        exact hne
      by_cases hdrains : ∃ event, runtimeEvent? e = some event ∧ event.Drains
      · have ha := ho.announced (q := []) (fun hno => absurd hdrains (by simpa using hno)) script
        rcases ha.requests with hsub | hpoll
        · exact absurd (List.subset_nil.mp hsub) hrequests
        · rw [he]
          exact exists_drainer_close hpoll
      · rcases (ho.announced (fun _ => List.Subset.refl _) script).requests with hsub | hpoll
        · obtain ⟨t, ht⟩ := List.exists_mem_of_ne_nil _ hrequests
          obtain ⟨p, hd⟩ := h.requests (List.ne_nil_of_mem (hsub ht))
          exact ⟨p, hstays p hd fun hpe => hdrains (hpe ▸ hd.drains)⟩
        · rw [he]
          exact exists_drainer_close hpoll

theorem Attended.move {w : World ν π φ} {m : Move ν π φ} (h : Attended w) (hm : SpawnsEarly w m) :
    Attended (w.move m) := by
  rcases move_cases m with hstep | ⟨script, rfl⟩
  · have hf := frame_move w hstep
    have hstays : ∀ e, Drainer w e → Drainer (w.move m) e := fun e hd => (hd.adds hf.scheduler).1
    refine ⟨inContext_move m h.inContext, future_move m h.future, fun hn => ?_, fun hne => ?_⟩
    · obtain ⟨e, hd, he⟩ := h.first fun now hp => hn now ((trace_move w m).subset hp)
      exact ⟨e, hstays e hd, he⟩
    · by_cases hspawn : m = .act .spawn ∨ m = .act .spawnLocal
      · obtain ⟨e, hd, -⟩ := h.first (hm hspawn)
        exact ⟨e, hstays e hd⟩
      · obtain ⟨t, ht⟩ := List.exists_mem_of_ne_nil _ hne
        obtain ⟨e, hd⟩ := h.requests (List.ne_nil_of_mem (requests_move hstep hspawn ht))
        exact ⟨e, hstays e hd⟩
  · exact h.step script

/-! ## Waiting for the poll -/

/-- Processing an event that drains the queues polls every task that was requested. -/
theorem Opened.polled_request {w w₁ : World ν π φ} {e : EventEntry (Payload ν)} {script : Script ν}
    (ho : Opened w w₁ e) (hstep : w.step script = (true, (w₁.processEventEntry e script).close))
    (h : Queued w.runtime w.runtime.readyQueue) {event : RuntimeEvent} (he : runtimeEvent? e = some event)
    (hd : event.Drains) {t : AsyncRuntime.TaskId} (ht : t ∈ w.requests) :
    .polled t ∈ (w.step script).2.trace.drop w.trace.length := by
  obtain ⟨w', hs⟩ := exists_cycleStart hd w₁.storeKey
  have hstart := (ho.cycle he hs h).1
  have ht' : t ∈ w'.runtime.spawnQueue ++ w'.runtime.spawnQueueLocal := by
    rw [hstart.spawnQueue, hstart.spawnQueueLocal]
    exact ht
  refine ho.polled_mem hstep he hs h ?_ ?_
  · rw [drainSpawnQueues_eq]
    exact List.mem_append_right _ ht'
  · rw [drainSpawnQueues_eq]
    simp only [if_pos ht']
    exact Option.some_ne_none _

/-- The request for `t` waits for the event `p`. -/
structure Expected (t : AsyncRuntime.TaskId) (p : EventEntry (Payload ν)) (w : World ν π φ) : Prop where
  queued : Queued w.runtime w.runtime.readyQueue
  future : Future w
  drainer : Drainer w p
  request : t ∈ w.requests

section
variable {t : AsyncRuntime.TaskId} {p : EventEntry (Payload ν)} {w : World ν π φ}

/-- A move that does not cancel the request polls the task, or the clock stands still; a step of a
policy that picks the least number then gets nearer to the event. -/
theorem Expected.move (h : Expected t p w) {m : Move ν π φ} (hm : m.Spares t) :
    .polled t ∈ (w.move m).trace.drop w.trace.length ∨ Expected t p (w.move m) ∧ (w.move m).now = w.now ∧
      (Scheduler.ChoosesFirst φ → (w.move m).rank p + steps [m] ≤ w.rank p) := by
  have hqueued := queued_move m h.queued
  have hfuture := future_move m h.future
  rcases move_cases m with hstep | ⟨script, rfl⟩
  · have hf := frame_move w hstep
    obtain ⟨hd, hrank⟩ := h.drainer.adds hf.scheduler
    refine .inr ⟨⟨hqueued, hfuture, hd, request_move hstep hm h.request⟩, hf.now, fun _ => ?_⟩
    rw [hrank]
    cases m with
    | step script => exact absurd rfl (hstep script)
    | _ => exact le_rfl
  · rcases step_cases w script with ⟨s, q, he, -⟩ | ⟨e, w₁, ho, he, hpop, -⟩
    · have hfinds := h.drainer.step_finds script
      rw [he] at hfinds
      cases hfinds
    · by_cases hdrains : ∃ event, runtimeEvent? e = some event ∧ event.Drains
      · obtain ⟨event, hev, hd⟩ := hdrains
        exact .inl (ho.polled_request he h.queued hev hd h.request)
      · have hne : p ≠ e := fun hpe => hdrains (hpe ▸ h.drainer.drains)
        obtain ⟨hd₁, hnow, -⟩ := h.drainer.opened h.future ho hne
        have hadds : w₁.scheduler.Adds (w.step script).2.scheduler := by
          rw [he]
          exact adds_close w₁ e script
        obtain ⟨hd, hrank⟩ := hd₁.adds hadds
        have hrequest : t ∈ (w.step script).2.requests := by
          rw [he, requests, runtime_close]
          exact ho.request (fun event hev hd => hdrains ⟨event, hev, hd⟩) hm h.request
        refine .inr ⟨⟨hqueued, hfuture, hd, hrequest⟩, ?_, fun hfifo => ?_⟩
        · rw [← hnow]
          show (w.step script).2.now = w₁.now
          rw [he]
          exact (adds_close w₁ e script).clock
        · show (w.step script).2.rank p + 1 ≤ w.rank p
          rw [hrank]
          exact hd₁.rank_lt hfifo ho hpop

theorem Expected.run (h : Expected t p w) {moves : List (Move ν π φ)} (hmoves : ∀ m ∈ moves, m.Spares t) :
    .polled t ∈ (w.run moves).trace.drop w.trace.length ∨ Expected t p (w.run moves) ∧
      (w.run moves).now = w.now ∧ (Scheduler.ChoosesFirst φ → (w.run moves).rank p + steps moves ≤ w.rank p) := by
  induction moves generalizing w with
  | nil => exact .inr ⟨h, rfl, fun _ => le_rfl⟩
  | cons m moves ih =>
    have hmono : (w.move m).trace <+: (w.run (m :: moves)).trace := trace_run (w.move m) moves
    obtain ⟨hm, hmoves⟩ := List.forall_mem_cons.mp hmoves
    rcases h.move hm with hpolled | ⟨h', hnow, hrank⟩
    · obtain ⟨q, hq⟩ := hmono
      rw [← hq, List.drop_append_of_le_length (trace_move w m).length_le]
      exact .inl (List.mem_append_left _ hpolled)
    · rcases ih h' hmoves with hpolled | ⟨h'', hnow', hrank'⟩
      · refine .inl (List.mem_of_mem_drop (i := (w.move m).trace.length - w.trace.length) ?_)
        rw [List.drop_drop, Nat.add_sub_cancel' (trace_move w m).length_le]
        exact hpolled
      · refine .inr ⟨h'', hnow'.trans hnow, fun hfifo => ?_⟩
        have h₁ := hrank hfifo
        have h₂ : ((w.move m).run moves).rank p + steps moves ≤ (w.move m).rank p := hrank' hfifo
        have h₃ : steps (m :: moves) = steps moves + steps [m] := by
          simp only [steps, List.countP_cons, List.countP_nil, Nat.zero_add]
        rw [h₃]
        exact (Nat.add_assoc ..).symm.trans_le ((Nat.add_le_add_right h₂ _).trans h₁)

end

/-- In every run of a simulation that has no event in the past when the runtime is installed, and in
which nothing is spawned outside event processing once a `Poll` of the runtime has been processed:
while there are spawn requests an event that drains the queues is pending. From any such state on,
until a requested task has been polled or its request is cancelled, the request stays, the clock stands
still and a step finds an event; with a policy that picks the least number, as the default one, the
task has been polled after as many steps as there are events in the heap. -/
theorem run_spawned (s : Scheduler (Payload ν) Unit Unit) (hs : ∀ e ∈ s.events.toList, s.clock ≤ e.time)
    (frontierPolicy : φ) (deferred : List (SimTime × Message ν)) (key : Uuid) (policy : π) (spawned : Nat)
    (moves : List (Move ν π φ))
    (hearly : Trace.Along SpawnsEarly move (install s frontierPolicy deferred key policy spawned) moves) :
    let w := (install s frontierPolicy deferred key policy spawned).run moves
    (w.runtime.spawnQueue ++ w.runtime.spawnQueueLocal ≠ [] → w.DrainPending) ∧
    ∀ t ∈ w.runtime.spawnQueue ++ w.runtime.spawnQueueLocal, ∀ later, (∀ m ∈ later, m.Spares t) →
      (.polled t ∈ (w.run later).trace.drop w.trace.length ∨
        t ∈ (w.run later).runtime.spawnQueue ++ (w.run later).runtime.spawnQueueLocal ∧
          (w.run later).now = w.now ∧ ∀ script, ((w.run later).step script).1 = true) ∧
      (Scheduler.ChoosesFirst φ → w.heap.length ≤ steps later →
        .polled t ∈ (w.run later).trace.drop w.trace.length) := by
  intro w
  have h : Attended w := hearly.invariant (fun _ _ h => h.move)
    (attended_install hs frontierPolicy deferred key policy spawned)
  have hqueued : Queued w.runtime w.runtime.readyQueue := queued_run moves (queued_install ..)
  refine ⟨fun hne => ?_, fun t ht later hlater => ?_⟩
  · obtain ⟨e, hd⟩ := h.requests hne
    exact .inl ⟨e, hd.mem, hd.drains⟩
  · obtain ⟨p, hd⟩ := h.requests (List.ne_nil_of_mem ht)
    have hexpected : Expected t p w := ⟨hqueued, h.future, hd, ht⟩
    rcases hexpected.run hlater with hpolled | ⟨h', hnow, hrank⟩
    · exact ⟨.inl hpolled, fun _ _ => hpolled⟩
    · refine ⟨.inr ⟨h'.request, hnow, h'.drainer.step_finds⟩, fun hfifo hlength => ?_⟩
      have hle : w.rank p ≤ w.heap.length := List.countP_le_length
      have hpos := h'.drainer.rank_pos
      have := hrank hfifo
      omega

end

/-- A task is spawned before the first event and spawns another when it is polled; an event of another
component comes before the `Poll` for that one. -/
def spawnedInPoll : List (Move Unit FifoReadyTaskPolicy FifoFrontierPolicy) :=
  [.act .spawn, .act (.schedule .zero (.component 5 ())),
    .step { Script.idle with polls := fun _ => ⟨[.spawn], false, []⟩ }]

theorem run_spawned_spawnedInPoll :
    let w := (install (.withSeed 7) {} [] 0 {} 0).run spawnedInPoll
    w.runtime.spawnQueue = [1] ∧ w.heap.length = 2 ∧
      .polled 1 ∈ (w.run [.step .idle, .step .idle]).trace.drop w.trace.length := by
  intro w
  have hearly : Trace.Along SpawnsEarly move (install (.withSeed 7) {} [] 0 {} 0) spawnedInPoll := by
    refine ⟨fun _ now hm => ?_, fun h => by simp at h, fun h => by simp at h, trivial⟩
    rw [show (install (.withSeed 7) {} [] 0 {} 0 : World Unit FifoReadyTaskPolicy FifoFrontierPolicy).trace
      = [] from rfl] at hm
    cases hm
  have hqueue : w.runtime.spawnQueue = [1] := by decide
  have hheap : w.heap.length = 2 := by decide
  have h := run_spawned (.withSeed 7) nofun FifoFrontierPolicy.mk [] 0 FifoReadyTaskPolicy.mk 0
    spawnedInPoll hearly
  refine ⟨hqueue, hheap, (h.2 1 ?_ [.step .idle, .step .idle] ?_).2 Scheduler.choosesFirst_fifo ?_⟩
  · exact List.mem_append_left _ (hqueue ▸ List.mem_singleton_self 1)
  · intro m hm
    simp only [List.mem_cons, List.not_mem_nil, or_false, or_self] at hm
    subst hm
    exact List.forall_mem_nil _
  · exact hheap.le

/-- The first `Poll` has been processed when the owner of the simulation spawns a task. -/
def lateSpawn : List (Move Unit FifoReadyTaskPolicy FifoFrontierPolicy) := [.step .idle, .act .spawn]

/-- The request waits, and nothing is pending. -/
theorem lateSpawn_waits : let w := (install (.withSeed 7) {} [] 0 {} 0).run lateSpawn
    w.runtime.spawnQueue = [0] ∧ ¬ w.DrainPending := by
  intro w
  have hheap : w.heap = [] := by decide
  have hdeferred : w.deferred = [] := by decide
  refine ⟨by decide, ?_⟩
  rintro (⟨e, he, -⟩ | ⟨wake, hw, -⟩)
  · rw [hheap] at he
    cases he
  · rw [hdeferred] at hw
    cases hw

end World

end DesCartes
