import DesCartes.Proof.Simulation.Frame
import DesCartes.Proof.Scheduler.Pop

/-!
# One step of a simulation

A step pops an event (`Opened`), has it processed, and drains the deferred wakes (`Drained`);
`step_cases` takes it apart. Between the two, every handler keeps `Grows`, those of the runtime's
timers included.

* `grows_processEventEntry`: whatever the event;
* `drained_drainDeferredWakes`: every deferred wake becomes an event of the heap;
* `step_cases`: the parts of a step;
* `frame_move`: every move of the simulation's owner that is not a step.
-/

namespace DesCartes

open AsyncRuntime

namespace World

variable {ν π φ : Type}

/-! ## Handlers -/

theorem grows_ite {w w₁ w₂ : World ν π φ} {p : Prop} [Decidable p] (h₁ : Grows w w₁) (h₂ : Grows w w₂) :
    Grows w (if p then w₁ else w₂) := by
  split
  · exact h₁
  · exact h₂

/-- Changes of the runtime that leave its counter, its tasks and its spawn queues alone. -/
theorem grows_timers (w : World ν π φ) (rt : DesRuntime π) (hn : rt.nextTaskId = w.runtime.nextTaskId)
    (ht : rt.tasks = w.runtime.tasks) (hs : rt.spawnQueue = w.runtime.spawnQueue)
    (hl : rt.spawnQueueLocal = w.runtime.spawnQueueLocal) : Grows w (w.setRuntime rt) :=
  grows_setRuntime w ⟨fun t h => ⟨hn ▸ h.lt, by rw [hs, hl]; exact h.request⟩, fun t _ h => ht ▸ h⟩

theorem grows_schedule (w : World ν π φ) (delay : SimTime) (message : Message ν) :
    Grows w (w.schedule delay message) :=
  (acted_schedule w delay message).toGrows

/-- The cached deadline is up to date afterwards. -/
@[simp] theorem runtime_scheduleNextTimerTick (w : World ν π φ) :
    w.scheduleNextTimerTick.runtime = { w.runtime with nextTimerDeadline := w.runtime.timers.firstKey? } := by
  simp only [scheduleNextTimerTick]
  split
  · rename_i h
    rw [h]
  · cases w.runtime.timers.firstKey? <;> simp [setRuntime]

theorem scheduleNextTimerTick_keep (w : World ν π φ) : w.scheduleNextTimerTick = { w with
    scheduler := w.scheduleNextTimerTick.scheduler, runtime := w.scheduleNextTimerTick.runtime } := by
  simp only [scheduleNextTimerTick]
  split
  · rfl
  · cases w.runtime.timers.firstKey? with
    | none => rfl
    | some D => rfl

@[simp] theorem trace_scheduleNextTimerTick (w : World ν π φ) : w.scheduleNextTimerTick.trace = w.trace := by
  rw [scheduleNextTimerTick_keep]

theorem grows_scheduleNextTimerTick (w : World ν π φ) : Grows w w.scheduleNextTimerTick := by
  unfold scheduleNextTimerTick
  refine grows_ite (.refl w) ?_
  have h := grows_timers w { w.runtime with nextTimerDeadline := w.runtime.timers.firstKey? } rfl rfl rfl rfl
  split
  · exact h
  · exact h.trans (grows_schedule ..)

theorem grows_registerTimer (w : World ν π φ) (t : AsyncRuntime.TaskId) (deadline : SimTime) :
    Grows w (w.registerTimer t deadline) := by
  unfold registerTimer
  split
  · exact .refl w
  · exact ((grows_timers w (w.runtime.pushTimer t deadline) rfl rfl rfl rfl).trans
      (grows_log _ (by simp) (by simp))).trans
      (grows_scheduleNextTimerTick _)

theorem grows_cancelTimer (w : World ν π φ) (t : AsyncRuntime.TaskId) (deadline : SimTime) :
    Grows w (w.cancelTimer t deadline) := by
  unfold cancelTimer
  split
  · exact .refl w
  · split
    · exact grows_timers w _ rfl rfl rfl rfl
    · exact (grows_timers w { w.runtime with timers := w.runtime.timers.erase deadline } rfl rfl rfl rfl).trans
        (grows_scheduleNextTimerTick _)

theorem grows_fire (deadline : SimTime) (w : World ν π φ) (t : AsyncRuntime.TaskId) :
    Grows w (fire deadline w t) :=
  (frame_wakeTask w t).toGrows.trans (grows_log _ (by simp) (by simp))

/-- Firing the timers changes the tasks, the ready queue and the timers only. -/
theorem foldl_fire_keep (deadline : SimTime) (l : List AsyncRuntime.TaskId) (w : World ν π φ) :
    l.foldl (fire deadline) w = { w with
      runtime := { w.runtime with
        tasks := (l.foldl (fire deadline) w).runtime.tasks
        readyQueue := (l.foldl (fire deadline) w).runtime.readyQueue }
      trace := (l.foldl (fire deadline) w).trace } := by
  induction l generalizing w with
  | nil => rfl
  | cons t l ih =>
    have hf : (fire deadline w t).runtime = w.runtime.wakeTask t := rfl
    rw [List.foldl_cons, ih (fire deadline w t), hf, wakeTask_keep]
    rfl

theorem fireTimers_keep (n : Nat) (w : World ν π φ) : fireTimers n w = { w with
    runtime := { w.runtime with
      tasks := (fireTimers n w).runtime.tasks
      readyQueue := (fireTimers n w).runtime.readyQueue
      timers := (fireTimers n w).runtime.timers }
    trace := (fireTimers n w).trace } := by
  induction n generalizing w with
  | zero => rfl
  | succ n ih =>
    simp only [fireTimers]
    split
    · rfl
    · split
      · rfl
      · rw [ih, foldl_fire_keep]
        rfl

/-- Waking tasks adds none. -/
theorem fireTimers_eq_none {n : Nat} {w : World ν π φ} {t : AsyncRuntime.TaskId} :
    (fireTimers n w).runtime.tasks t = none ↔ w.runtime.tasks t = none := by
  have hfold : ∀ (D : SimTime) (l : List AsyncRuntime.TaskId) (w : World ν π φ),
      (l.foldl (fire D) w).runtime.tasks t = none ↔ w.runtime.tasks t = none := by
    intro D l
    induction l with
    | nil => exact fun w => Iff.rfl
    | cons t' l ih => exact fun w => (ih (fire D w t')).trans wakeTask_eq_none
  induction n generalizing w with
  | zero => rfl
  | succ n ih =>
    simp only [fireTimers]
    split
    · rfl
    · split
      · rfl
      · exact ih.trans (hfold ..)

theorem grows_fireTimers (n : Nat) (w : World ν π φ) : Grows w (fireTimers n w) := by
  induction n generalizing w with
  | zero => exact .refl w
  | succ n ih =>
    simp only [fireTimers]
    split
    · exact .refl w
    · rename_i deadline tasks timers he
      refine grows_ite (.refl w) (Grows.trans ?_ (ih _))
      have h := grows_timers w { w.runtime with timers } rfl rfl rfl rfl
      generalize w.setRuntime { w.runtime with timers } = w' at h
      clear he
      induction tasks generalizing w' with
      | nil => exact h
      | cons t l ih' => exact ih' (fire deadline w' t) (h.trans (grows_fire ..))

/-- What cancelling does once the task is removed. -/
theorem grows_cancelTask_removed (w : World ν π φ) (t : AsyncRuntime.TaskId) (drop : List (Action ν)) :
    Grows (w.setRuntime (w.runtime.removeTask t)) (w.cancelTask t drop) :=
  ((acted_acts _ _).toGrows.trans (grows_timers _ (DesRuntime.removeTimers _ t) rfl rfl rfl rfl)).trans
    (grows_scheduleNextTimerTick _)

theorem grows_cancelTask (w : World ν π φ) (t : AsyncRuntime.TaskId) (drop : List (Action ν)) :
    Grows w (w.cancelTask t drop) :=
  (frame_thins w (thins_removeTask ..)).toGrows.trans (grows_cancelTask_removed ..)

theorem grows_storeKey (w : World ν π φ) : Grows w w.storeKey := grows_timers w _ rfl rfl rfl rfl

theorem runtimeKey_storeKey (w : World ν π φ) : w.storeKey.runtime.runtimeKey ≠ none := by
  simp [storeKey, setRuntime]

section
variable [ReadyTaskPolicy π]

theorem grows_handleTimerTick (w : World ν π φ) (polls : Nat → PollScript ν) :
    Grows w (w.handleTimerTick polls) :=
  (((grows_timers w { w.runtime with nextTimerDeadline := none } rfl rfl rfl rfl).trans
    (grows_fireTimers ..)).trans
    (grows_scheduleNextTimerTick _)).trans (frame_pollReadyTasks ..).toGrows

theorem grows_dispatch (w : World ν π φ) (event : RuntimeEvent) (script : Script ν) :
    Grows w (w.dispatch event script) := by
  cases event with
  | poll => exact (frame_pollReadyTasks ..).toGrows
  | wake t => exact ((frame_wakeTask w t).trans (frame_pollReadyTasks ..)).toGrows
  | cancel t => exact grows_cancelTask ..
  | registerTimer t deadline => exact grows_registerTimer ..
  | cancelTimer t deadline => exact grows_cancelTimer ..
  | timerTick => exact grows_handleTimerTick ..

@[simp] theorem runtime_processEvent (w : World ν π φ) (event : RuntimeEvent) (script : Script ν) :
    (w.processEvent event script).runtime = (w.storeKey.dispatch event script).runtime := by
  simp only [processEvent]
  split <;> simp

@[simp] theorem trace_processEvent (w : World ν π φ) (event : RuntimeEvent) (script : Script ν) :
    (w.processEvent event script).trace = (w.storeKey.dispatch event script).trace := by
  simp only [processEvent]
  split <;> simp

/-- The `Poll` that follows an event when tasks are ready. -/
theorem frame_processEvent (w : World ν π φ) (event : RuntimeEvent) (script : Script ν) :
    Frame (w.storeKey.dispatch event script) (w.processEvent event script) :=
  (acted_ite (.refl _) (acted_schedule ..)).toFrame

theorem grows_processEvent (w : World ν π φ) (event : RuntimeEvent) (script : Script ν) :
    Grows w (w.processEvent event script) :=
  ((grows_storeKey w).trans (grows_dispatch _ event script)).trans (frame_processEvent w event script).toGrows

theorem grows_processEventEntry (w : World ν π φ) (event : EventEntry (Payload ν)) (script : Script ν) :
    Grows w (w.processEventEntry event script) := by
  rcases event with ⟨i, t, c, event | v⟩ | ⟨i, t, id⟩
  · exact grows_processEvent ..
  · exact (acted_acts ..).toGrows
  · exact (acted_executeTask ..).toGrows

end

/-! ## Deferred wakes -/

/-- The events that the deferred wakes become. -/
def wakeEvents (w : World ν π φ) : List (EventEntry (Payload ν)) :=
  w.deferred.mapIdx fun i wake => wake.2.entry w.key (w.scheduler.nextEventId + i + 1) (w.now + wake.1)

/-- `w'` is `w` with its deferred wakes in the heap. -/
structure Drained (w w' : World ν π φ) : Prop where
  key : w'.key = w.key
  runtime : w'.runtime = w.runtime
  inContext : w'.inContext = w.inContext
  pollContext : w'.pollContext = w.pollContext
  sleeps : w'.sleeps = w.sleeps
  nextSleep : w'.nextSleep = w.nextSleep
  trace : w'.trace = w.trace
  deferred : w'.deferred = []
  scheduler : w.scheduler.Adds w'.scheduler
  nextEventId : w'.scheduler.nextEventId = w.scheduler.nextEventId + w.deferred.length
  heap : w'.heap.Perm (w.wakeEvents ++ w.heap)

section
variable {w w' : World ν π φ} (h : Drained w w')
include h

theorem Drained.now : w'.now = w.now := h.scheduler.clock
theorem Drained.held : ∀ e ∈ w.heap, e ∈ w'.heap := fun _ => h.scheduler.held

theorem Drained.added : ∀ e ∈ w'.heap,
    e ∈ w.heap ∨ ∃ wake ∈ w.deferred, ∃ i, e = wake.2.entry w.key i (w.now + wake.1) := by
  intro e he
  rcases List.mem_append.mp (h.heap.mem_iff.mp he) with he | he
  · obtain ⟨i, hi, rfl⟩ := List.mem_mapIdx.mp he
    exact .inr ⟨_, List.getElem_mem hi, _, rfl⟩
  · exact .inl he

theorem Drained.moved : ∀ wake ∈ w.deferred,
    ∃ i ≤ w'.scheduler.nextEventId, wake.2.entry w.key i (w.now + wake.1) ∈ w'.heap := by
  intro wake hw
  obtain ⟨i, hi, rfl⟩ := List.mem_iff_getElem.mp hw
  refine ⟨w.scheduler.nextEventId + i + 1, ?_, h.heap.mem_iff.mpr (List.mem_append_left _ ?_)⟩
  · rw [h.nextEventId]
    omega
  · exact List.mem_mapIdx.mpr ⟨i, hi, rfl⟩

end

theorem drained_drainDeferredWakes (w : World ν π φ) : Drained w w.drainDeferredWakes := by
  have key : ∀ (l : List (SimTime × Message ν)) (w₁ : World ν π φ), w₁.deferred = [] →
      Drained { w₁ with deferred := l } (l.foldl (fun w wake => w.schedule wake.1 wake.2) w₁) := by
    intro l
    induction l with
    | nil => exact fun w₁ h => ⟨rfl, rfl, rfl, rfl, rfl, rfl, rfl, h, .refl _, rfl, .refl _⟩
    | cons wake l ih =>
      intro w₁ h
      have hd := ih (w₁.schedule wake.1 wake.2) (by simpa using h)
      have ha := (acted_schedule w₁ wake.1 wake.2).toGrows.scheduler
      have hid : (w₁.schedule wake.1 wake.2).scheduler.nextEventId = w₁.scheduler.nextEventId + 1 := by
        cases wake.2 <;> rfl
      have hheap : (w₁.schedule wake.1 wake.2).heap.Perm
          (wake.2.entry w₁.key (w₁.scheduler.nextEventId + 1) (w₁.now + wake.1) :: w₁.heap) := by
        cases wake.2 <;> exact BinaryHeap.push_perm ..
      refine ⟨hd.key.trans (key_schedule ..), by simpa using hd.runtime, by simpa using hd.inContext,
        by simpa using hd.pollContext, by simpa using hd.sleeps, by simpa using hd.nextSleep,
        by simpa using hd.trace, hd.deferred, ha.trans hd.scheduler, ?_, ?_⟩
      · refine hd.nextEventId.trans ?_
        simp only [hid, List.length_cons]
        omega
      · -- the first wake has been moved, and the others get the numbers after its own
        have hevents : ({ w₁.schedule wake.1 wake.2 with deferred := l } : World ν π φ).wakeEvents =
            l.mapIdx fun i wake =>
              wake.2.entry w₁.key (w₁.scheduler.nextEventId + (i + 1) + 1) (w₁.now + wake.1) := by
          simp only [wakeEvents, hid, key_schedule]
          refine congrArg (List.mapIdx · l) (funext fun i => funext fun wake' => ?_)
          rw [show w₁.scheduler.nextEventId + 1 + i + 1 = w₁.scheduler.nextEventId + (i + 1) + 1 by omega]
          exact congrArg (fun t => wake'.2.entry _ _ (t + wake'.1)) (now_schedule ..)
        refine hd.heap.trans ?_
        rw [hevents]
        refine (hheap.append_left _).trans (List.perm_middle.trans ?_)
        rw [wakeEvents, List.mapIdx_cons]
        exact .refl _
  exact key w.deferred { w with deferred := [] } rfl

/-! ## Steps -/

/-- `w₁` is `w` when the handler of the event `e` is called: the heap has lost `e` and events of
cancelled tasks. -/
structure Opened (w w₁ : World ν π φ) (e : EventEntry (Payload ν)) : Prop where
  keep : w₁ = { w with
    scheduler := w₁.scheduler
    frontierPolicy := w₁.frontierPolicy
    inContext := true
    trace := w.trace ++ [.processed (runtimeEvent? e) e.time] }
  now : w₁.now = e.time
  nextEventId : w₁.scheduler.nextEventId = w.scheduler.nextEventId
  heap : ∃ d, w.heap.Perm (d ++ e :: w₁.heap) ∧ ∀ x ∈ d, runtimeEvent? x = none
  least : ∀ x ∈ w₁.heap, e.time ≤ x.time

section
variable {w w₁ : World ν π φ} {e : EventEntry (Payload ν)} (h : Opened w w₁ e)
include h

theorem Opened.mem : e ∈ w.heap := by
  obtain ⟨d, hp, -⟩ := h.heap
  exact hp.mem_iff.mpr (List.mem_append_right _ List.mem_cons_self)

theorem Opened.sub : ∀ x ∈ w₁.heap, x ∈ w.heap ∧ e.time ≤ x.time := by
  obtain ⟨d, hp, -⟩ := h.heap
  intro x hx
  exact ⟨hp.mem_iff.mpr (List.mem_append_right _ (List.mem_cons_of_mem _ hx)), h.least x hx⟩

theorem Opened.held : ∀ x ∈ w.heap, runtimeEvent? x ≠ none → x = e ∨ x ∈ w₁.heap := by
  obtain ⟨d, hp, hd⟩ := h.heap
  intro x hx hr
  rcases List.mem_append.mp (hp.mem_iff.mp hx) with hx | hx
  · exact absurd (hd x hx) hr
  · exact List.mem_cons.mp hx

end

/-- No event is in the past. -/
def Future (w : World ν π φ) : Prop := ∀ e ∈ w.heap, w.now ≤ e.time

theorem Future.adds {w w' : World ν π φ} (h : Future w) (ha : w.scheduler.Adds w'.scheduler) : Future w' := by
  intro e he
  show w'.scheduler.clock ≤ e.time
  rw [ha.clock]
  exact (ha.added he).elim (h e) id

theorem Opened.future {w w₁ : World ν π φ} {e : EventEntry (Payload ν)} (h : Opened w w₁ e) : Future w₁ :=
  fun x hx => h.now ▸ h.least x hx

/-- A step ends by clearing the context and draining the deferred wakes. -/
def close (w : World ν π φ) : World ν π φ := { w with inContext := false }.drainDeferredWakes

theorem drained_close (w : World ν π φ) : Drained { w with inContext := false } w.close :=
  drained_drainDeferredWakes _

theorem runtime_close (w : World ν π φ) : w.close.runtime = w.runtime := (drained_close w).runtime
theorem trace_close (w : World ν π φ) : w.close.trace = w.trace := (drained_close w).trace

/-- What a step records: the event it processes, and nothing else of that kind. -/
theorem Opened.close_trace [ReadyTaskPolicy π] {w w₁ : World ν π φ} {e : EventEntry (Payload ν)}
    (h : Opened w w₁ e) (script : Script ν) : (w₁.processEventEntry e script).close.now = e.time ∧
    ∃ q, (w₁.processEventEntry e script).close.trace =
      w.trace ++ Obs.processed (runtimeEvent? e) e.time :: q ∧
      ∀ ev n, .processed ev n ∉ q := by
  have hg := grows_processEventEntry w₁ e script
  have hd := drained_close (w₁.processEventEntry e script)
  refine ⟨hd.now.trans (hg.now.trans h.now), ?_⟩
  obtain ⟨q, e', hq, -⟩ := hg.trace
  refine ⟨q, ?_, hq⟩
  rw [trace_close, e', h.keep, List.append_assoc]
  rfl

section
variable [ReadyTaskPolicy π] [EventFrontierPolicy φ]

/-- The event that a step processes. -/
def nextEvent? (w : World ν π φ) : Option (EventEntry (Payload ν)) := (w.scheduler.popWithPolicy w.frontierPolicy).1

/-- The event of the runtime that a step processes. -/
def nextRuntimeEvent? (w : World ν π φ) : Option RuntimeEvent := w.nextEvent?.bind runtimeEvent?

/-- The world in which the handler of the event `e` is called, when a pop has taken `e` and left the
scheduler `s` and the policy `p`. -/
def popped (w : World ν π φ) (e : EventEntry (Payload ν)) (s : Scheduler (Payload ν) Unit Unit) (p : φ) :
    World ν π φ :=
  ({ w with scheduler := s, frontierPolicy := p, inContext := true } : World ν π φ).log
    (.processed (runtimeEvent? e) s.clock)

omit [ReadyTaskPolicy π] in
theorem opened_of_pop {w : World ν π φ} {e : EventEntry (Payload ν)}
    {s : Scheduler (Payload ν) Unit Unit} {p : φ}
    (h : w.scheduler.popWithPolicy w.frontierPolicy = (some e, s, p)) :
    Opened w (w.popped e s p) e := by
  obtain ⟨d, hspec⟩ := Scheduler.popWithPolicy_spec w.scheduler w.frontierPolicy
  rw [h] at hspec
  obtain ⟨hp, -⟩ := hspec
  refine ⟨?_, hp.clock, ?_, ⟨d, hp.perm, fun x hx => ?_⟩, hp.least⟩
  · rw [← hp.clock]; rfl
  · show s.nextEventId = w.scheduler.nextEventId
    rw [hp.keep]
  · obtain ⟨id, -, he⟩ := hp.took.dropped x hx
    cases x <;> simp_all [EventEntry.taskId, runtimeEvent?]

/-- A step either finds the heap without an event that is not cancelled, or opens an event, has it
processed and closes. -/
theorem step_cases (w : World ν π φ) (script : Script ν) :
    (∃ s p, w.step script = (false, { w with scheduler := s, frontierPolicy := p }) ∧ s.clock = w.now ∧
      s.events.toList = [] ∧ (∀ x ∈ w.heap, runtimeEvent? x = none) ∧
      Scheduler.firstLive w.heap w.scheduler.cancelledTasks = none) ∨
    ∃ e w₁, Opened w w₁ e ∧ w.step script = (true, (w₁.processEventEntry e script).close) ∧
      w.scheduler.popWithPolicy w.frontierPolicy = (some e, w₁.scheduler, w₁.frontierPolicy) ∧
      (Scheduler.firstLive w.heap w.scheduler.cancelledTasks).map EventEntry.time = some e.time := by
  obtain ⟨d, h⟩ := Scheduler.popWithPolicy_spec w.scheduler w.frontierPolicy
  have hfirst := Scheduler.map_time_popWithPolicy w.scheduler w.frontierPolicy
  have hopened := @opened_of_pop _ _ _ _ w
  unfold step
  generalize w.scheduler.popWithPolicy w.frontierPolicy = q at h hfirst hopened
  obtain ⟨_ | e, s, p⟩ := q
  · refine .inl ⟨s, p, rfl, h.took.clock, h.nil, fun x hx => ?_, Option.map_eq_none_iff.mp hfirst.symm⟩
    have hx' := h.took.perm.mem_iff.mp hx
    rw [h.nil, List.append_nil, List.append_nil] at hx'
    obtain ⟨id, -, he⟩ := h.took.dropped x hx'
    cases x <;> simp_all [EventEntry.taskId, runtimeEvent?]
  · exact .inr ⟨e, _, hopened rfl, rfl, rfl, hfirst.symm⟩

theorem trace_step (w : World ν π φ) (script : Script ν) : w.trace <+: (w.step script).2.trace := by
  rcases step_cases w script with ⟨s, p, he, -⟩ | ⟨e, w₁, ho, he, -⟩
  · rw [he]
  · obtain ⟨-, q, htr, -⟩ := ho.close_trace script
    rw [he, htr]
    exact List.prefix_append _ _

/-- What every move keeps, every run keeps. -/
theorem run_rule {P : World ν π φ → Prop} (hmove : ∀ w m, P w → P (w.move m)) {w : World ν π φ} (h : P w)
    (moves : List (Move ν π φ)) : P (w.run moves) :=
  List.foldlRecOn moves move h fun w h m _ => hmove w m h

omit [ReadyTaskPolicy π] [EventFrontierPolicy φ] in
theorem move_cases (m : Move ν π φ) : (∀ script, m ≠ .step script) ∨ ∃ script, m = .step script := by
  cases m with
  | step script => exact .inr ⟨script, rfl⟩
  | _ => exact .inl nofun

/-- A move that is not a step. -/
theorem frame_move (w : World ν π φ) {m : Move ν π φ} (hm : ∀ script, m ≠ .step script) :
    Frame w (w.move m) := by
  cases m with
  | act action => exact (acted_act w action).toFrame
  | spawnDirect =>
    refine frame_setRuntime w ⟨fun t ht => ⟨ht.lt.trans (Nat.lt_succ_self _), ht.request⟩,
      fun t ht htask => ?_⟩ rfl rfl rfl
    simpa [DesRuntime.spawn, DesRuntime.insertReady, ht.lt.ne] using htask
  | wakeDirect t => exact frame_wakeTask w t
  | setReadyTaskPolicy policy => exact frame_thins w (thins_setReadyTaskPolicy ..)
  | setFrontierPolicy policy =>
    exact frame_of_eq rfl rfl (.refl _) (List.prefix_refl _) rfl rfl
  | step script => exact absurd rfl (hm script)

omit [EventFrontierPolicy φ] in
/-- Between a handler's call and the end of the step, events are only added. -/
theorem adds_close (w : World ν π φ) (e : EventEntry (Payload ν)) (script : Script ν) :
    w.scheduler.Adds (w.processEventEntry e script).close.scheduler :=
  (grows_processEventEntry w e script).scheduler.trans (drained_close _).scheduler

theorem future_move {w : World ν π φ} (m : Move ν π φ) (h : Future w) : Future (w.move m) := by
  rcases move_cases m with hm | ⟨script, rfl⟩
  · exact h.adds (frame_move w hm).scheduler
  · show Future (w.step script).2
    rcases step_cases w script with ⟨s, p, he, hc, hnil, -⟩ | ⟨e, w₁, ho, he, -⟩
    · rw [he]
      intro x hx
      rw [heap, hnil] at hx
      cases hx
    · rw [he]
      exact ho.future.adds (adds_close w₁ e script)

theorem trace_move (w : World ν π φ) (m : Move ν π φ) : w.trace <+: (w.move m).trace := by
  rcases move_cases m with hm | ⟨script, rfl⟩
  · obtain ⟨q, hq, -⟩ := (frame_move w hm).trace
    rw [hq]
    exact List.prefix_append _ _
  · exact trace_step w script

theorem trace_run (w : World ν π φ) (moves : List (Move ν π φ)) : w.trace <+: (w.run moves).trace :=
  run_rule (P := fun w' => w.trace <+: w'.trace) (fun w' m h => h.trans (trace_move w' m))
    (List.prefix_refl _) moves

/-- Between events there is no scheduler context. -/
theorem inContext_move {w : World ν π φ} (m : Move ν π φ) (h : w.inContext = false) :
    (w.move m).inContext = false := by
  rcases move_cases m with hm | ⟨script, rfl⟩
  · rw [(frame_move w hm).inContext, h]
  · show (w.step script).2.inContext = false
    rcases step_cases w script with ⟨s, p, he, -⟩ | ⟨e, w₁, ho, he, -⟩
    · rw [he]
      exact h
    · rw [he]
      exact (drained_close _).inContext

/-- The step behind a record that it made of an event. -/
theorem step_processed {w : World ν π φ} {script : Script ν} {ev : Option RuntimeEvent} {now : SimTime}
    (h : .processed ev now ∈ (w.step script).2.trace.drop w.trace.length) :
    ∃ e w₁, Opened w w₁ e ∧ w.step script = (true, (w₁.processEventEntry e script).close) ∧
      runtimeEvent? e = ev ∧ e.time = now := by
  rcases step_cases w script with ⟨s, p, he, -⟩ | ⟨e, w₁, ho, he, -⟩
  · rw [he] at h
    simp at h
  · obtain ⟨-, q, htr, hq⟩ := ho.close_trace script
    rw [he, htr, List.drop_left] at h
    rcases List.mem_cons.mp h with h | h
    · obtain ⟨h₁, h₂⟩ := Obs.processed.inj h
      exact ⟨e, w₁, ho, he, h₁.symm, h₂.symm⟩
    · exact absurd h (hq ev now)

end

end World

end DesCartes
