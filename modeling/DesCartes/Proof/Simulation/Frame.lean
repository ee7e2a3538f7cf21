import DesCartes.Impl.Simulation
import DesCartes.Proof.Scheduler.Basic

/-!
# What code outside the runtime cannot change

`Frame w w'` is what holds of a world `w` and a world `w'` that it has become while one event is
processed, as long as the runtime's timers are not concerned: the clock and the timers are as
they were, no event is lost and none is in the past, and no deferred wake is lost. It composes
(`Frame.trans`), and so does `Grows`, the part of it that the handlers of timers keep too.
`Acted w w'` says more of the code that is not the runtime's own: of the runtime it changes the spawn
queues only.

* `acted_acts`: the calls that some code makes;
* `frame_pollOne`, `frame_pollReadyTasks`: a poll cycle;
* `acted_executeTask`: a one-shot task.

`CycleInvariant` and `executeTask_rule` are the rules behind the last two, for whatever else is kept.
-/

namespace DesCartes

open AsyncRuntime

/-- Records of polls and of calls. -/
def Obs.Quiet : Obs → Prop
  | .polled _ => True
  | .sleepPending .. => True
  | .called .. => True
  | _ => False

/-- The task whose poll is recorded. -/
def Obs.polled? : Obs → Option AsyncRuntime.TaskId
  | .polled taskId => some taskId
  | _ => none

/-- The runtime's event of a message, if it is one. -/
def Message.runtime? {ν : Type} : Message ν → Option RuntimeEvent
  | .runtime event => some event
  | .component .. => none

/-- The entry of the heap for a message, where the runtime has the key `key`. -/
def Message.entry {ν : Type} (key : Uuid) (i : Nat) (time : SimTime) : Message ν → EventEntry (Payload ν)
  | .runtime event => .component i time key (.runtime event)
  | .component key event => .component i time key (.other event)

@[simp] theorem Message.time_entry {ν : Type} (key : Uuid) (i : Nat) (t : SimTime) (message : Message ν) :
    (message.entry key i t).time = t := by cases message <;> rfl

@[simp] theorem Message.runtimeEvent?_entry {ν : Type} (key : Uuid) (i : Nat) (t : SimTime)
    (message : Message ν) :
    World.runtimeEvent? (message.entry key i t) = message.runtime? := by cases message <;> rfl

namespace World

variable {ν π φ : Type}

/-- The events of the heap. -/
def heap (w : World ν π φ) : List (EventEntry (Payload ν)) := w.scheduler.events.toList

theorem runtimeEvent?_eq_some {e : EventEntry (Payload ν)} {event : RuntimeEvent} :
    runtimeEvent? e = some event ↔ ∃ i t c, e = .component i t c (.runtime event) := by
  rcases e with ⟨i, t, c, event' | v⟩ | ⟨i, t, id⟩ <;> simp [runtimeEvent?]

section schedule
variable (w : World ν π φ) (delay : SimTime) (message : Message ν)

theorem schedule_keep :
    w.schedule delay message = { w with scheduler := (w.schedule delay message).scheduler } := by
  cases message <;> rfl

@[simp] theorem key_schedule : (w.schedule delay message).key = w.key := by rw [schedule_keep]
@[simp] theorem runtime_schedule : (w.schedule delay message).runtime = w.runtime := by rw [schedule_keep]
@[simp] theorem inContext_schedule : (w.schedule delay message).inContext = w.inContext :=
  by rw [schedule_keep]
@[simp] theorem deferred_schedule : (w.schedule delay message).deferred = w.deferred := by rw [schedule_keep]
@[simp] theorem pollContext_schedule : (w.schedule delay message).pollContext = w.pollContext :=
  by rw [schedule_keep]
@[simp] theorem sleeps_schedule : (w.schedule delay message).sleeps = w.sleeps := by rw [schedule_keep]
@[simp] theorem nextSleep_schedule : (w.schedule delay message).nextSleep = w.nextSleep :=
  by rw [schedule_keep]
@[simp] theorem trace_schedule : (w.schedule delay message).trace = w.trace := by rw [schedule_keep]
@[simp] theorem now_schedule : (w.schedule delay message).now = w.now := by cases message <;> rfl

@[simp] theorem mem_heap_schedule {e : EventEntry (Payload ν)} :
    e ∈ (w.schedule delay message).heap ↔
      e = message.entry w.key (w.scheduler.nextEventId + 1) (w.now + delay) ∨ e ∈ w.heap := by
  cases message <;> exact BinaryHeap.mem_push

end schedule

/-- An id that was given out and is not that of a spawn request. -/
structure Settled (rt : DesRuntime π) (t : AsyncRuntime.TaskId) : Prop where
  lt : t < rt.nextTaskId
  request : t ∉ rt.spawnQueue ++ rt.spawnQueueLocal

/-- An id that was given out and is neither a task's nor a spawn request's. -/
structure Gone (rt : DesRuntime π) (t : AsyncRuntime.TaskId) : Prop extends Settled rt t where
  task : rt.tasks t = none

/-- Ids are not given out twice: in `rt'`, which comes after `rt`, an id that was settled is not that of
a spawn request, and not that of a task unless it was. -/
structure Ages (rt rt' : DesRuntime π) : Prop where
  settled : ∀ t, Settled rt t → Settled rt' t
  tasks : ∀ t, Settled rt t → rt'.tasks t ≠ none → rt.tasks t ≠ none

theorem Ages.refl (rt : DesRuntime π) : Ages rt rt := ⟨fun _ h => h, fun _ _ h => h⟩

theorem Ages.trans {rt₁ rt₂ rt₃ : DesRuntime π} (h₁ : Ages rt₁ rt₂) (h₂ : Ages rt₂ rt₃) : Ages rt₁ rt₃ :=
  ⟨fun t h => h₂.settled t (h₁.settled t h), fun t h ht => h₁.tasks t h (h₂.tasks t (h₁.settled t h) ht)⟩

/-- What is gone stays gone. -/
theorem Ages.gone {rt rt' : DesRuntime π} (h : Ages rt rt') {t : AsyncRuntime.TaskId}
    (ht : Gone rt t) : Gone rt' t :=
  ⟨h.settled t ht.toSettled, by_contra fun hne => h.tasks t ht.toSettled hne ht.task⟩

/-- What every handler keeps: the clock stands still, no event is lost and none is in the past, no
deferred wake is lost, and an id that is gone stays so and is not polled. -/
structure Grows (w w' : World ν π φ) : Prop where
  key : w'.key = w.key
  inContext : w'.inContext = w.inContext
  scheduler : w.scheduler.Adds w'.scheduler
  deferred : w.deferred <+: w'.deferred
  ages : Ages w.runtime w'.runtime
  trace : ∃ q, w'.trace = w.trace ++ q ∧ (∀ ev n, .processed ev n ∉ q) ∧ ∀ t, Gone w.runtime t → .polled t ∉ q

section
variable {w w' : World ν π φ} (h : Grows w w')
include h

theorem Grows.now : w'.now = w.now := h.scheduler.clock
theorem Grows.held : ∀ e ∈ w.heap, e ∈ w'.heap := fun _ => h.scheduler.held
theorem Grows.added : ∀ e ∈ w'.heap, e ∈ w.heap ∨ w.now ≤ e.time := fun _ => h.scheduler.added

end

theorem Grows.refl (w : World ν π φ) : Grows w w where
  key := rfl
  inContext := rfl
  scheduler := .refl _
  deferred := List.prefix_refl _
  ages := .refl _
  trace := ⟨[], (List.append_nil _).symm, by simp, by simp⟩

theorem Grows.trans {w₁ w₂ w₃ : World ν π φ} (h₁ : Grows w₁ w₂) (h₂ : Grows w₂ w₃) : Grows w₁ w₃ where
  key := h₂.key.trans h₁.key
  inContext := h₂.inContext.trans h₁.inContext
  scheduler := h₁.scheduler.trans h₂.scheduler
  deferred := h₁.deferred.trans h₂.deferred
  ages := h₁.ages.trans h₂.ages
  trace := by
    obtain ⟨q₁, e₁, hq₁, hg₁⟩ := h₁.trace
    obtain ⟨q₂, e₂, hq₂, hg₂⟩ := h₂.trace
    refine ⟨q₁ ++ q₂, by rw [e₂, e₁, List.append_assoc], fun ev n h => ?_, fun t ht h => ?_⟩
    · exact (List.mem_append.mp h).elim (hq₁ ev n) (hq₂ ev n)
    · exact (List.mem_append.mp h).elim (hg₁ t ht) (hg₂ t (h₁.ages.gone ht))

/-- What stays as it is while one event is processed, but for the runtime's timers. -/
structure Frame (w w' : World ν π φ) : Prop extends Grows w w' where
  timers : w'.runtime.timers = w.runtime.timers
  deadline : w'.runtime.nextTimerDeadline = w.runtime.nextTimerDeadline
  runtimeKey : w'.runtime.runtimeKey = w.runtime.runtimeKey
  quiet : ∃ q, w'.trace = w.trace ++ q ∧ ∀ o ∈ q, o.Quiet

theorem Frame.refl (w : World ν π φ) : Frame w w :=
  ⟨.refl w, rfl, rfl, rfl, [], (List.append_nil _).symm, by simp⟩

theorem Frame.trans {w₁ w₂ w₃ : World ν π φ} (h₁ : Frame w₁ w₂) (h₂ : Frame w₂ w₃) : Frame w₁ w₃ := by
  refine ⟨h₁.toGrows.trans h₂.toGrows, h₂.timers.trans h₁.timers, h₂.deadline.trans h₁.deadline,
    h₂.runtimeKey.trans h₁.runtimeKey, ?_⟩
  obtain ⟨q₁, e₁, hq₁⟩ := h₁.quiet
  obtain ⟨q₂, e₂, hq₂⟩ := h₂.quiet
  refine ⟨q₁ ++ q₂, by rw [e₂, e₁, List.append_assoc], fun o ho => ?_⟩
  exact (List.mem_append.mp ho).elim (hq₁ o) (hq₂ o)

/-- What code outside the runtime leaves as it is. -/
structure Acted (w w' : World ν π φ) : Prop extends Frame w w' where
  runtime : w'.runtime = { w.runtime with
    nextTaskId := w'.runtime.nextTaskId
    spawnQueue := w'.runtime.spawnQueue
    spawnQueueLocal := w'.runtime.spawnQueueLocal }
  pollContext : w'.pollContext = w.pollContext
  polls : w'.trace.filterMap Obs.polled? = w.trace.filterMap Obs.polled?

theorem Acted.refl (w : World ν π φ) : Acted w w := ⟨.refl w, rfl, rfl, rfl⟩

theorem Acted.trans {w₁ w₂ w₃ : World ν π φ} (h₁ : Acted w₁ w₂) (h₂ : Acted w₂ w₃) : Acted w₁ w₃ :=
  ⟨h₁.toFrame.trans h₂.toFrame, by rw [h₂.runtime, h₁.runtime], h₂.pollContext.trans h₁.pollContext,
    h₂.polls.trans h₁.polls⟩

theorem Acted.tasks {w w' : World ν π φ} (h : Acted w w') : w'.runtime.tasks = w.runtime.tasks :=
  by rw [h.runtime]
theorem Acted.readyQueue {w w' : World ν π φ} (h : Acted w w') :
    w'.runtime.readyQueue = w.runtime.readyQueue := by
  rw [h.runtime]

/-! ## Changes of one part of the world -/

theorem grows_setRuntime (w : World ν π φ) {rt : DesRuntime π} (ha : Ages w.runtime rt) :
    Grows w (w.setRuntime rt) :=
  ⟨rfl, rfl, .refl _, List.prefix_refl _, ha,
    ⟨[], (List.append_nil _).symm, by simp, by simp⟩⟩

/-- Changes to the tasks, the ready queue, the spawn queues and the policy. -/
theorem frame_setRuntime (w : World ν π φ) {rt : DesRuntime π} (ha : Ages w.runtime rt)
    (ht : rt.timers = w.runtime.timers) (hd : rt.nextTimerDeadline = w.runtime.nextTimerDeadline)
    (hk : rt.runtimeKey = w.runtime.runtimeKey) : Frame w (w.setRuntime rt) :=
  ⟨grows_setRuntime w ha, ht, hd, hk, [], (List.append_nil _).symm, by simp⟩

theorem grows_log (w : World ν π φ) {o : Obs} (ho : ∀ ev n, o ≠ .processed ev n)
    (hg : ∀ t, Gone w.runtime t → o ≠ .polled t) : Grows w (w.log o) :=
  ⟨rfl, rfl, .refl _, List.prefix_refl _, .refl _,
    ⟨[o], rfl, fun ev n h => ho ev n (List.mem_singleton.mp h).symm,
      fun t ht h => hg t ht (List.mem_singleton.mp h).symm⟩⟩

/-- Where the runtime and the trace are as they were, it is enough to look at the events. -/
theorem frame_of_eq {w w' : World ν π φ} (hkey : w'.key = w.key) (hctx : w'.inContext = w.inContext)
    (hs : w.scheduler.Adds w'.scheduler) (hdef : w.deferred <+: w'.deferred)
    (hrt : w'.runtime = w.runtime) (htr : w'.trace = w.trace) : Frame w w' := by
  have hnil : w'.trace = w.trace ++ [] := by rw [htr, List.append_nil]
  refine ⟨⟨hkey, hctx, hs, hdef, ?_, [], hnil, by simp, by simp⟩, ?_, ?_, ?_, [], hnil, by simp⟩
  · rw [hrt]; exact .refl _
  all_goals rw [hrt]

/-- Calls that only change the scheduler, and add events that are not in the past. -/
theorem acted_scheduler (w : World ν π φ) {s : Scheduler (Payload ν) Unit Unit} (hs : w.scheduler.Adds s) :
    Acted w { w with scheduler := s } :=
  ⟨frame_of_eq rfl rfl hs (List.prefix_refl _) rfl rfl, rfl, rfl, rfl⟩

theorem acted_schedule (w : World ν π φ) (delay : SimTime) (message : Message ν) :
    Acted w (w.schedule delay message) := by
  rw [schedule_keep]
  refine acted_scheduler w ?_
  cases message <;> exact Scheduler.adds_schedule ..

theorem acted_deferWakeAfter (w : World ν π φ) (delay : SimTime) (message : Message ν) :
    Acted w (w.deferWakeAfter delay message) :=
  ⟨frame_of_eq rfl rfl (.refl _) (List.prefix_append _ _) rfl rfl, rfl, rfl, rfl⟩

/-- Calls that only change the spawn queues. -/
theorem acted_spawnQueues (w : World ν π φ) {n : Nat} (hn : w.runtime.nextTaskId ≤ n)
    {q ql : List AsyncRuntime.TaskId}
    (hq : ∀ t ∈ q ++ ql, t ∈ w.runtime.spawnQueue ++ w.runtime.spawnQueueLocal ∨ w.runtime.nextTaskId ≤ t) :
    Acted w (w.setRuntime { w.runtime with nextTaskId := n, spawnQueue := q, spawnQueueLocal := ql }) := by
  refine ⟨frame_setRuntime w ⟨fun t ht => ⟨ht.lt.trans_le hn, fun hm => ?_⟩,
    fun _ _ h => h⟩ rfl rfl rfl, rfl, rfl, rfl⟩
  rcases hq t hm with hm | hm
  · exact ht.request hm
  · exact absurd ht.lt (Nat.not_lt.mpr hm)

/-- Calls that only change the table of sleeps. -/
theorem acted_sleeps (w : World ν π φ) (sleeps : Nat → Option SimSleep) (n : Nat) :
    Acted w { w with sleeps, nextSleep := n } :=
  ⟨frame_of_eq rfl rfl (.refl _) (List.prefix_refl _) rfl rfl, rfl, rfl, rfl⟩

theorem acted_sleepPending (w : World ν π φ) (i : Nat) (c : Option AsyncRuntime.TaskId) :
    Acted w (w.log (.sleepPending i c)) :=
  ⟨⟨grows_log w (by simp) (by simp), rfl, rfl, rfl, [_], rfl, by simp [Obs.Quiet]⟩, rfl, rfl,
    by simp [log, Obs.polled?]⟩

theorem acted_called (w : World ν π φ) (call : Nat) (c : Option AsyncRuntime.TaskId) (now : Option SimTime) :
    Acted w (w.log (.called call c now)) :=
  ⟨⟨grows_log w (by simp) (by simp), rfl, rfl, rfl, [_], rfl, by simp [Obs.Quiet]⟩, rfl, rfl,
    by simp [log, Obs.polled?]⟩

/-! ## Calls -/

theorem acted_ite {w w₁ w₂ : World ν π φ} {p : Prop} [Decidable p] (h₁ : Acted w w₁) (h₂ : Acted w w₂) :
    Acted w (if p then w₁ else w₂) := by
  split
  · exact h₁
  · exact h₂

theorem acted_registerTimerAt (w : World ν π φ) (deadline : SimTime) :
    Acted w (w.registerTimerAt deadline) := by
  unfold registerTimerAt
  split
  · exact acted_deferWakeAfter ..
  · exact .refl w

theorem acted_cancelTimerAt (w : World ν π φ) (deadline : SimTime) : Acted w (w.cancelTimerAt deadline) := by
  unfold cancelTimerAt
  split
  · exact acted_deferWakeAfter ..
  · exact .refl w

theorem acted_pollSleep (w : World ν π φ) (i : Nat) : Acted w (w.pollSleep i) := by
  unfold pollSleep
  split
  · exact .refl w
  · refine acted_ite (acted_ite (acted_sleeps w _ _) ?_) (.refl w)
    exact ((acted_ite (.refl w) (acted_registerTimerAt w _)).trans (acted_sleeps _ _ _)).trans
      (acted_sleepPending _ _ _)

theorem acted_dropSleep (w : World ν π φ) (i : Nat) : Acted w (w.dropSleep i) := by
  unfold dropSleep
  split
  · exact .refl w
  · refine acted_ite ?_ (acted_sleeps w _ _)
    split
    · exact (acted_sleeps w _ _).trans (acted_cancelTimerAt _ _)
    · exact acted_sleeps w _ _

theorem acted_act (w : World ν π φ) (action : Action ν) : Acted w (w.act action) := by
  cases action with
  | schedule delay message => exact acted_schedule w delay message
  | scheduleTask delay => exact acted_scheduler w (Scheduler.adds_scheduleTask ..)
  | cancelTask id => exact acted_scheduler w (Scheduler.adds_cancelTask id)
  | deferWakeAfter delay message => exact acted_deferWakeAfter w delay message
  | spawn =>
    have h : Acted w (w.setRuntime { w.runtime with
        nextTaskId := w.runtime.nextTaskId + 1, spawnQueue :=
        w.runtime.spawnQueue ++ [w.runtime.nextTaskId] }) := by
      refine acted_spawnQueues w (Nat.le_succ _) fun t ht => ?_
      simp only [List.mem_append, List.mem_singleton] at ht ⊢
      rcases ht with (ht | rfl) | ht
      · exact .inl (.inl ht)
      · exact .inr le_rfl
      · exact .inl (.inr ht)
    exact acted_ite (h.trans (acted_deferWakeAfter ..)) h
  | spawnLocal =>
    have h : Acted w (w.setRuntime { w.runtime with
        nextTaskId := w.runtime.nextTaskId + 1, spawnQueueLocal :=
        w.runtime.spawnQueueLocal ++ [w.runtime.nextTaskId] }) := by
      refine acted_spawnQueues w (Nat.le_succ _) fun t ht => ?_
      simp only [List.mem_append, List.mem_singleton] at ht ⊢
      rcases ht with ht | ht | rfl
      · exact .inl (.inl ht)
      · exact .inl (.inr ht)
      · exact .inr le_rfl
    exact acted_ite (h.trans (acted_deferWakeAfter ..)) h
  | cancel id =>
    have h : Acted w (w.setRuntime { w.runtime with spawnQueue := w.runtime.spawnQueue.filter (· ≠ id) }) :=
      acted_spawnQueues w le_rfl fun t ht => .inl ((List.filter_sublist.append_right _).subset ht)
    exact acted_ite (h.trans (acted_deferWakeAfter ..)) h
  | cancelLocal id =>
    have h :
        Acted w (w.setRuntime { w.runtime with spawnQueueLocal := w.runtime.spawnQueueLocal.filter (· ≠ id) }) :=
      acted_spawnQueues w le_rfl fun t ht => .inl ((List.filter_sublist.append_left _).subset ht)
    exact acted_ite (h.trans (acted_deferWakeAfter ..)) h
  | newSleep sleep => exact acted_sleeps w _ _
  | pollSleep i => exact acted_pollSleep w i
  | dropSleep i => exact acted_dropSleep w i
  | call n => exact acted_called w n _ _

/-- What every call keeps, any calls keep. -/
theorem acts_rule {P : World ν π φ → Prop} (hact : ∀ w action, P w → P (w.act action))
    {w : World ν π φ} (h : P w) (actions : List (Action ν)) : P (w.acts actions) :=
  List.foldlRecOn actions act h fun w h a _ => hact w a h

theorem acted_acts (w : World ν π φ) (actions : List (Action ν)) : Acted w (w.acts actions) :=
  acts_rule (P := Acted w) (fun w' a h => h.trans (acted_act w' a)) (.refl w) actions

/-! ## A poll cycle -/

/-- `rt'` is `rt` with fewer tasks, or other flags and policies. -/
structure Thins (rt rt' : DesRuntime π) : Prop where
  nextTaskId : rt'.nextTaskId = rt.nextTaskId
  tasks : ∀ t, rt'.tasks t ≠ none → rt.tasks t ≠ none
  spawnQueue : rt'.spawnQueue = rt.spawnQueue
  spawnQueueLocal : rt'.spawnQueueLocal = rt.spawnQueueLocal
  timers : rt'.timers = rt.timers
  deadline : rt'.nextTimerDeadline = rt.nextTimerDeadline
  runtimeKey : rt'.runtimeKey = rt.runtimeKey

theorem Thins.ages {rt rt' : DesRuntime π} (h : Thins rt rt') : Ages rt rt' := by
  refine ⟨fun t ht => ⟨?_, ?_⟩, fun t _ => h.tasks t⟩
  · rw [h.nextTaskId]; exact ht.lt
  · rw [h.spawnQueue, h.spawnQueueLocal]; exact ht.request

theorem thins_removeTask (rt : DesRuntime π) (t : AsyncRuntime.TaskId) : Thins rt (rt.removeTask t) := by
  refine ⟨rfl, fun t' ht' => ?_, rfl, rfl, rfl, rfl, rfl⟩
  by_cases e : t' = t
  · simp [DesRuntime.removeTask, e] at ht'
  · simpa [DesRuntime.removeTask, e] using ht'

theorem thins_unqueue {rt : DesRuntime π} {t : AsyncRuntime.TaskId} {task : Task}
    (ht : rt.tasks t = some task) :
    Thins rt (rt.unqueue t task) := by
  refine ⟨rfl, fun t' ht' => ?_, rfl, rfl, rfl, rfl, rfl⟩
  by_cases e : t' = t
  · simp [e, ht]
  · simpa [DesRuntime.unqueue, e] using ht'

theorem thins_setReadyTaskPolicy (rt : DesRuntime π) (policy : π) : Thins rt (rt.setReadyTaskPolicy policy) :=
  ⟨rfl, fun _ h => h, rfl, rfl, rfl, rfl, rfl⟩

theorem wakeTask_keep (rt : DesRuntime π) (t : AsyncRuntime.TaskId) : rt.wakeTask t = { rt with
    tasks := (rt.wakeTask t).tasks, readyQueue := (rt.wakeTask t).readyQueue } := by
  unfold DesRuntime.wakeTask
  split
  · rfl
  · split <;> rfl

theorem wakeTask_eq_none {rt : DesRuntime π} {t t' : AsyncRuntime.TaskId} :
    (rt.wakeTask t).tasks t' = none ↔ rt.tasks t' = none := by
  unfold DesRuntime.wakeTask
  split
  · rfl
  · rename_i task ht
    split
    · rfl
    · by_cases e : t' = t
      · simp [e, ht]
      · simp [e]

theorem thins_wakeTask (rt : DesRuntime π) (t : AsyncRuntime.TaskId) : Thins rt (rt.wakeTask t) := by
  refine ⟨?_, fun t' ht' => ht' ∘ wakeTask_eq_none.mpr, ?_, ?_, ?_, ?_, ?_⟩ <;> rw [wakeTask_keep]

theorem frame_thins (w : World ν π φ) {rt : DesRuntime π} (h : Thins w.runtime rt) :
    Frame w (w.setRuntime rt) :=
  frame_setRuntime w h.ages h.timers h.deadline h.runtimeKey

theorem frame_wakeTask (w : World ν π φ) (t : AsyncRuntime.TaskId) :
    Frame w (w.setRuntime (w.runtime.wakeTask t)) :=
  frame_thins w (thins_wakeTask ..)

/-- What happens while the tasks of a cycle are polled keeps `P`: calls, the removal of tasks, and the
beginning and the end of a poll. -/
structure CycleInvariant (P : World ν π φ → Prop) : Prop where
  act : ∀ w action, P w → P (w.act action)
  thins : ∀ w rt, P w → Thins w.runtime rt → P (w.setRuntime rt)
  poll : ∀ w t, P w → w.runtime.tasks t ≠ none → P (({ w with pollContext := some t } : World ν π φ).log (.polled t))
  done : ∀ w, P w → P { w with pollContext := none }

section
variable {P : World ν π φ → Prop} (hP : CycleInvariant P) {w : World ν π φ} (h : P w)
include hP h

theorem CycleInvariant.acts (actions : List (Action ν)) : P (w.acts actions) := acts_rule hP.act h actions

theorem CycleInvariant.pollTask (t : AsyncRuntime.TaskId) (script : PollScript ν) :
    P (w.pollTask t script).2 := by
  unfold World.pollTask
  split
  · rename_i k task _ ht
    exact hP.done _ (hP.acts (hP.poll w t h (by simp [ht])) script.actions)
  · exact h

theorem CycleInvariant.pollOne {t : AsyncRuntime.TaskId} {task : Task} (ht : w.runtime.tasks t = some task)
    (script : PollScript ν) : P (w.pollOne t task script) := by
  have h' := hP.pollTask (hP.thins w _ h (thins_unqueue ht)) t script
  unfold World.pollOne
  simp only
  split
  · exact hP.acts (hP.thins _ _ h' (thins_removeTask _ t)) script.drop
  · exact h'

theorem CycleInvariant.pollLoop [ReadyTaskPolicy π] (n : Nat) (polls : Nat → PollScript ν)
    (pollSet : List AsyncRuntime.TaskId) : P (pollLoop n polls pollSet w) := by
  induction n generalizing polls pollSet w with
  | zero => exact h
  | succ n ih =>
    have hc : P (w.chooseTask pollSet).2 := hP.thins w _ h (thins_setReadyTaskPolicy ..)
    simp only [World.pollLoop]
    split
    · exact hc
    · split
      · exact ih hc ..
      · rename_i ht
        exact ih (hP.pollOne hc ht _) ..

end

/-- What installing tasks does. -/
theorem foldl_insertReady (l : List AsyncRuntime.TaskId) (rt : DesRuntime π) :
    l.foldl DesRuntime.insertReady rt = { rt with
      tasks := fun t => if t ∈ l then some ⟨true⟩ else rt.tasks t
      readyQueue := rt.readyQueue ++ l } := by
  induction l generalizing rt with
  | nil => simp
  | cons t l ih =>
    rw [List.foldl_cons, ih (rt.insertReady t)]
    simp only [DesRuntime.insertReady, List.append_assoc, List.singleton_append, DesRuntime.mk.injEq,
      true_and, and_true]
    funext t'
    by_cases h₁ : t' ∈ l
    · simp [h₁]
    · by_cases h₂ : t' = t
      · simp [h₂]
      · simp [h₁, h₂]

/-- Draining makes tasks of the spawn requests. -/
theorem drainSpawnQueues_eq (rt : DesRuntime π) : rt.drainSpawnQueues = { rt with
    tasks := fun t => if t ∈ rt.spawnQueue ++ rt.spawnQueueLocal then some ⟨true⟩ else rt.tasks t
    readyQueue := rt.readyQueue ++ (rt.spawnQueue ++ rt.spawnQueueLocal)
    spawnQueue := []
    spawnQueueLocal := [] } := by
  simp only [DesRuntime.drainSpawnQueues, foldl_insertReady, List.append_assoc, DesRuntime.mk.injEq,
    true_and, and_true]
  funext t
  by_cases h₁ : t ∈ rt.spawnQueue
  · simp [h₁]
  · simp [h₁]

/-- The start of a poll cycle. -/
theorem ages_drainSpawnQueues (rt : DesRuntime π) :
    Ages rt { rt.drainSpawnQueues with readyQueue := [] } := by
  rw [drainSpawnQueues_eq]
  refine ⟨fun t ht => ⟨ht.lt, List.not_mem_nil⟩, fun t ht htask => ?_⟩
  simpa only [if_neg ht.request] using htask

theorem CycleInvariant.pollReadyTasks [ReadyTaskPolicy π] {P : World ν π φ → Prop} (hP : CycleInvariant P)
    {w : World ν π φ} (h : P (w.setRuntime { w.runtime.drainSpawnQueues with readyQueue := [] }))
    (polls : Nat → PollScript ν) : P (w.pollReadyTasks polls) :=
  hP.pollLoop h ..

theorem frame_pollContext (w : World ν π φ) (c : Option AsyncRuntime.TaskId) :
    Frame w { w with pollContext := c } :=
  frame_of_eq rfl rfl (.refl _) (List.prefix_refl _) rfl rfl

theorem cycleInvariant_frame (w : World ν π φ) : CycleInvariant (Frame w) where
  act w' action h := h.trans (acted_act w' action).toFrame
  thins w' rt h ht := h.trans (frame_thins w' ht)
  poll w' t h ht := by
    refine (h.trans (frame_pollContext w' (some t))).trans
      ⟨grows_log _ (by simp) (fun t' ht' e => ?_), rfl, rfl, rfl, [_], rfl, by simp [Obs.Quiet]⟩
    rw [← Obs.polled.inj e] at ht'
    exact ht ht'.task
  done w' h := h.trans (frame_pollContext w' none)

theorem frame_pollOne (w : World ν π φ) {t : AsyncRuntime.TaskId} {task : Task}
    (ht : w.runtime.tasks t = some task) (script : PollScript ν) :
    Frame w (w.pollOne t task script) :=
  (cycleInvariant_frame w).pollOne (.refl w) ht script

theorem frame_pollReadyTasks [ReadyTaskPolicy π] (w : World ν π φ) (polls : Nat → PollScript ν) :
    Frame w (w.pollReadyTasks polls) := by
  refine (cycleInvariant_frame w).pollReadyTasks (frame_setRuntime w (ages_drainSpawnQueues _) ?_ ?_ ?_) polls
  all_goals rw [drainSpawnQueues_eq]

/-- A runtime is installed with the tasks it has, and nothing else. -/
theorem runtime_install (s : Scheduler (Payload ν) Unit Unit) (frontierPolicy : φ)
    (deferred : List (SimTime × Message ν)) (key : Uuid) (policy : π) (spawned : Nat) :
    (install s frontierPolicy deferred key policy spawned).runtime = { DesRuntime.new policy with
      nextTaskId := (install s frontierPolicy deferred key policy spawned).runtime.nextTaskId
      tasks := (install s frontierPolicy deferred key policy spawned).runtime.tasks
      readyQueue := (install s frontierPolicy deferred key policy spawned).runtime.readyQueue } := by
  simp only [install, runtime_schedule]
  induction spawned with
  | zero => rfl
  | succ n ih =>
    rw [Function.iterate_succ_apply', DesRuntime.spawn, ih]
    rfl

/-! ## One-shot tasks -/

/-- What executing a one-shot task keeps: what its calls keep, and changes of the scheduler that
leave the clock and the events it has. -/
theorem executeTask_rule {P : World ν π φ → Prop} {script : Script ν}
    (hact : ∀ w, ∀ action ∈ script.handler, P w → P (w.act action))
    (hscheduler : ∀ w s, P w → w.scheduler.Adds s → P { w with scheduler := s })
    {w : World ν π φ} (h : P w) (id : DesCartes.TaskId) : P (w.executeTask id script) := by
  have hfinish : ∀ w previous, P w → P (w.finishTask id previous script) := by
    intro w previous h
    unfold finishTask
    cases script.again with
    | none =>
      simp only
      rw [Scheduler.endTask_eq]
      exact hscheduler w _ h (Scheduler.adds_of_eq rfl rfl rfl)
    | some delay =>
      simp only
      rw [Scheduler.endTask_eq]
      refine hscheduler w _ h ((Scheduler.adds_scheduleTaskAt ?_ id ()).trans
        (Scheduler.adds_of_eq rfl rfl rfl))
      exact SimTime.le_add ..
  unfold executeTask
  rcases Scheduler.beginTask_cases w.scheduler id with ⟨task, -, -, e⟩ | e
  · rw [e]
    refine hfinish _ _ (List.foldlRecOn script.handler act ?_ fun w h a ha => hact w a ha h)
    exact hscheduler w _ h (Scheduler.adds_of_eq rfl rfl rfl)
  · rw [e]
    exact hscheduler w _ h (Scheduler.adds_of_eq rfl rfl rfl)

theorem acted_executeTask (w : World ν π φ) (id : DesCartes.TaskId) (script : Script ν) :
    Acted w (w.executeTask id script) :=
  executeTask_rule (P := Acted w) (fun w' a _ h => h.trans (acted_act w' a))
    (fun w' _ h hs => h.trans (acted_scheduler w' hs)) (.refl w) id

end World

end DesCartes
