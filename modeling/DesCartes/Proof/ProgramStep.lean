import DesCartes.Impl.Program

/-!
# A step of a program is a step of its simulation

`withPolicies` gives policies to a simulation that has none; no code but that of the two choices
sees them. A step of a program whose choices are made by two policies is therefore a step of the
simulation with these policies, by the script of what the program's code has done
(`step_withPolicies`).
-/

namespace DesCartes

open AsyncRuntime

/-- The runtime with a policy. -/
def AsyncRuntime.DesRuntime.withPolicy {π : Type} (rt : DesRuntime Unit) (policy : π) : DesRuntime π :=
  { rt with readyTaskPolicy := policy }

/-- The simulation with policies. -/
def World.withPolicies {ν π φ : Type} (w : World ν Unit Unit) (policy : π) (frontierPolicy : φ) : World ν π φ :=
  { w with runtime := w.runtime.withPolicy policy, frontierPolicy }

namespace AsyncRuntime.DesRuntime

variable {π : Type} (rt : DesRuntime Unit) (p : π)

@[simp] theorem withPolicy_tasks : (rt.withPolicy p).tasks = rt.tasks := rfl
@[simp] theorem withPolicy_readyQueue : (rt.withPolicy p).readyQueue = rt.readyQueue := rfl
@[simp] theorem withPolicy_timers : (rt.withPolicy p).timers = rt.timers := rfl
@[simp] theorem withPolicy_runtimeKey : (rt.withPolicy p).runtimeKey = rt.runtimeKey := rfl

theorem foldl_insertReady_withPolicy (l : List AsyncRuntime.TaskId) :
    l.foldl insertReady (rt.withPolicy p) = (l.foldl insertReady rt).withPolicy p := by
  induction l generalizing rt with
  | nil => rfl
  | cons t l ih => exact ih (rt.insertReady t)

theorem drainSpawnQueues_withPolicy :
    (rt.withPolicy p).drainSpawnQueues = rt.drainSpawnQueues.withPolicy p := by
  have h₁ := foldl_insertReady_withPolicy rt p rt.spawnQueue
  have h₂ := foldl_insertReady_withPolicy { rt.spawnQueue.foldl insertReady rt with spawnQueue := [] } p
    (rt.spawnQueue.foldl insertReady rt).spawnQueueLocal
  simp only [drainSpawnQueues]
  rw [show (rt.withPolicy p).spawnQueue = rt.spawnQueue from rfl, h₁]
  exact congrArg (fun r => { r with spawnQueueLocal := [] }) h₂

theorem wakeTask_withPolicy (t : AsyncRuntime.TaskId) :
    (rt.withPolicy p).wakeTask t = (rt.wakeTask t).withPolicy p := by
  cases h : rt.tasks t with
  | none => simp [wakeTask, h]
  | some task =>
    simp only [wakeTask, withPolicy_tasks, h]
    split <;> rfl

end AsyncRuntime.DesRuntime

namespace World

variable {ν π φ : Type} (w : World ν Unit Unit) (p : π) (f : φ)

@[simp] theorem withPolicies_scheduler : (w.withPolicies p f).scheduler = w.scheduler := rfl
@[simp] theorem withPolicies_frontierPolicy : (w.withPolicies p f).frontierPolicy = f := rfl
@[simp] theorem withPolicies_runtime : (w.withPolicies p f).runtime = w.runtime.withPolicy p := rfl
@[simp] theorem withPolicies_inContext : (w.withPolicies p f).inContext = w.inContext := rfl
@[simp] theorem withPolicies_pollContext : (w.withPolicies p f).pollContext = w.pollContext := rfl
@[simp] theorem withPolicies_sleeps : (w.withPolicies p f).sleeps = w.sleeps := rfl
@[simp] theorem withPolicies_now : (w.withPolicies p f).now = w.now := rfl

theorem schedule_withPolicies (delay : SimTime) (message : Message ν) :
    (w.withPolicies p f).schedule delay message = (w.schedule delay message).withPolicies p f := by
  cases message <;> rfl

theorem registerTimerAt_withPolicies (deadline : SimTime) :
    (w.withPolicies p f).registerTimerAt deadline = (w.registerTimerAt deadline).withPolicies p f := by
  cases h : w.pollContext with
  | none => simp [registerTimerAt, h]
  | some taskId =>
    simp only [registerTimerAt, withPolicies_pollContext, h]
    rfl

theorem cancelTimerAt_withPolicies (deadline : SimTime) :
    (w.withPolicies p f).cancelTimerAt deadline = (w.cancelTimerAt deadline).withPolicies p f := by
  cases h : w.pollContext with
  | none => simp [cancelTimerAt, h]
  | some taskId =>
    simp only [cancelTimerAt, withPolicies_pollContext, h]
    rfl

theorem pollSleep_withPolicies (i : Nat) :
    (w.withPolicies p f).pollSleep i = (w.pollSleep i).withPolicies p f := by
  cases h : w.sleeps i with
  | none => simp [pollSleep, h]
  | some sleep =>
    simp only [pollSleep, withPolicies_sleeps, withPolicies_inContext, withPolicies_now, h,
      registerTimerAt_withPolicies]
    split_ifs <;> rfl

theorem dropSleep_withPolicies (i : Nat) :
    (w.withPolicies p f).dropSleep i = (w.dropSleep i).withPolicies p f := by
  cases h : w.sleeps i with
  | none => simp [dropSleep, h]
  | some sleep =>
    have hset : (w.withPolicies p f).setSleep i none = (w.setSleep i none).withPolicies p f := rfl
    simp only [dropSleep, withPolicies_sleeps, h, hset, cancelTimerAt_withPolicies]
    split_ifs
    · cases sleep.targetTime <;> rfl
    · rfl

theorem act_withPolicies (action : Action ν) :
    (w.withPolicies p f).act action = (w.act action).withPolicies p f := by
  cases action with
  | schedule delay message => exact schedule_withPolicies ..
  | scheduleTask delay => rfl
  | cancelTask taskId => rfl
  | deferWakeAfter delay message => rfl
  | spawn =>
    show (if w.inContext = true then _ else _) = World.withPolicies (if w.inContext = true then _ else _) p f
    split_ifs <;> rfl
  | spawnLocal =>
    show (if w.inContext = true then _ else _) = World.withPolicies (if w.inContext = true then _ else _) p f
    split_ifs <;> rfl
  | cancel taskId =>
    show (if w.inContext = true then _ else _) = World.withPolicies (if w.inContext = true then _ else _) p f
    split_ifs <;> rfl
  | cancelLocal taskId =>
    show (if w.inContext = true then _ else _) = World.withPolicies (if w.inContext = true then _ else _) p f
    split_ifs <;> rfl
  | newSleep sleep => rfl
  | pollSleep i => exact pollSleep_withPolicies ..
  | dropSleep i => exact dropSleep_withPolicies ..
  | call call => rfl

theorem acts_withPolicies (actions : List (Action ν)) :
    (w.withPolicies p f).acts actions = (w.acts actions).withPolicies p f := by
  induction actions generalizing w with
  | nil => rfl
  | cons action actions ih =>
    show ((w.withPolicies p f).act action).acts actions = _
    rw [act_withPolicies]
    exact ih (w.act action)

theorem foldl_schedule_withPolicies (wakes : List (SimTime × Message ν)) :
    wakes.foldl (fun w wake => w.schedule wake.1 wake.2) (w.withPolicies p f) =
      (wakes.foldl (fun w wake => w.schedule wake.1 wake.2) w).withPolicies p f := by
  induction wakes generalizing w with
  | nil => rfl
  | cons wake wakes ih =>
    rw [List.foldl_cons, schedule_withPolicies]
    exact ih (w.schedule wake.1 wake.2)

theorem drainDeferredWakes_withPolicies :
    (w.withPolicies p f).drainDeferredWakes = w.drainDeferredWakes.withPolicies p f :=
  foldl_schedule_withPolicies { w with deferred := [] } p f w.deferred

/-! ## The runtime's events -/

theorem scheduleNextTimerTick_withPolicies :
    (w.withPolicies p f).scheduleNextTimerTick = w.scheduleNextTimerTick.withPolicies p f := by
  unfold scheduleNextTimerTick
  cases hd : w.runtime.timers.firstKey? with
  | none =>
    simp only [withPolicies_runtime, DesRuntime.withPolicy_timers, hd]
    show (if none = w.runtime.nextTimerDeadline then _ else _) =
      World.withPolicies (if none = w.runtime.nextTimerDeadline then _ else _) p f
    split_ifs <;> rfl
  | some deadline =>
    simp only [withPolicies_runtime, DesRuntime.withPolicy_timers, hd]
    show (if some deadline = w.runtime.nextTimerDeadline then _ else _) =
      World.withPolicies (if some deadline = w.runtime.nextTimerDeadline then _ else _) p f
    by_cases h : some deadline = w.runtime.nextTimerDeadline
    · rw [if_pos h, if_pos h]
    · rw [if_neg h, if_neg h]
      exact schedule_withPolicies (w.setRuntime { w.runtime with nextTimerDeadline := some deadline }) p f _ _

theorem registerTimer_withPolicies (t : AsyncRuntime.TaskId) (deadline : SimTime) :
    (w.withPolicies p f).registerTimer t deadline = (w.registerTimer t deadline).withPolicies p f := by
  cases h : w.runtime.tasks t with
  | none => simp [registerTimer, h]
  | some task =>
    simp only [registerTimer, withPolicies_runtime, DesRuntime.withPolicy_tasks, h]
    exact scheduleNextTimerTick_withPolicies
      ((w.setRuntime (w.runtime.pushTimer t deadline)).log (.registered t deadline w.now)) p f

theorem cancelTimer_withPolicies (t : AsyncRuntime.TaskId) (deadline : SimTime) :
    (w.withPolicies p f).cancelTimer t deadline = (w.cancelTimer t deadline).withPolicies p f := by
  cases h : w.runtime.timers.get? deadline with
  | none => simp [cancelTimer, h]
  | some tasks =>
    simp only [cancelTimer, withPolicies_runtime, DesRuntime.withPolicy_timers, h]
    cases DesRuntime.retainNot t tasks with
    | none =>
      exact scheduleNextTimerTick_withPolicies
        (w.setRuntime { w.runtime with timers := w.runtime.timers.erase deadline }) p f
    | some tasks => rfl

theorem foldl_fire_withPolicies (deadline : SimTime) (tasks : List AsyncRuntime.TaskId) :
    tasks.foldl (fire deadline) (w.withPolicies p f) = (tasks.foldl (fire deadline) w).withPolicies p f := by
  induction tasks generalizing w with
  | nil => rfl
  | cons t tasks ih =>
    have hfire : fire deadline (w.withPolicies p f) t = (fire deadline w t).withPolicies p f := by
      simp only [fire, withPolicies_runtime, DesRuntime.wakeTask_withPolicy]
      rfl
    rw [List.foldl_cons, hfire]
    exact ih (fire deadline w t)

theorem fireTimers_withPolicies (n : Nat) :
    (w.withPolicies p f).fireTimers n = (w.fireTimers n).withPolicies p f := by
  induction n generalizing w with
  | zero => rfl
  | succ n ih =>
    simp only [fireTimers, withPolicies_runtime, DesRuntime.withPolicy_timers, withPolicies_now]
    cases w.runtime.timers.popFirst? with
    | none => rfl
    | some popped =>
      obtain ⟨⟨deadline, tasks⟩, timers⟩ := popped
      show (if w.now < deadline then _ else _) = World.withPolicies (if w.now < deadline then _ else _) p f
      split_ifs
      · rfl
      · rw [← ih, ← foldl_fire_withPolicies]
        rfl

theorem pollTask_withPolicies (t : AsyncRuntime.TaskId) (script : PollScript ν) :
    (w.withPolicies p f).pollTask t script = ((w.pollTask t script).1,
      (w.pollTask t script).2.withPolicies p f) := by
  simp only [pollTask, withPolicies_runtime, DesRuntime.withPolicy_runtimeKey, DesRuntime.withPolicy_tasks]
  cases w.runtime.runtimeKey with
  | none => rfl
  | some key =>
    cases w.runtime.tasks t with
    | none => rfl
    | some task =>
      have h := acts_withPolicies ({ w with pollContext := some t }.log (.polled t)) p f script.actions
      exact congrArg (fun w : World ν π φ => (some script.ready, { w with pollContext := none })) h

/-- Taking a task out, and dropping its future. -/
theorem removed_withPolicies (t : AsyncRuntime.TaskId) (actions : List (Action ν)) :
    ((w.withPolicies p f).setRuntime ((w.withPolicies p f).runtime.removeTask t)).acts actions =
      ((w.setRuntime (w.runtime.removeTask t)).acts actions).withPolicies p f :=
  acts_withPolicies (w.setRuntime (w.runtime.removeTask t)) p f actions

theorem pollOne_withPolicies (t : AsyncRuntime.TaskId) (task : Task) (script : PollScript ν) :
    (w.withPolicies p f).pollOne t task script = (w.pollOne t task script).withPolicies p f := by
  have hpoll := pollTask_withPolicies (w.setRuntime (w.runtime.unqueue t task)) p f t script
  have hunqueue : (w.withPolicies p f).setRuntime ((w.withPolicies p f).runtime.unqueue t task) =
    (w.setRuntime (w.runtime.unqueue t task)).withPolicies p f := rfl
  simp only [pollOne, hunqueue, hpoll]
  split_ifs
  · exact removed_withPolicies ((w.setRuntime
      (w.runtime.unqueue t task)).pollTask t script).2 p f t script.drop
  · rfl

theorem cancelTask_withPolicies (t : AsyncRuntime.TaskId) (drop : List (Action ν)) :
    (w.withPolicies p f).cancelTask t drop = (w.cancelTask t drop).withPolicies p f := by
  let w₁ := (w.setRuntime (w.runtime.removeTask t)).acts (if (w.runtime.tasks t).isSome then drop else [])
  unfold cancelTask
  simp only [removed_withPolicies]
  exact scheduleNextTimerTick_withPolicies (w₁.setRuntime (w₁.runtime.removeTimers t)) p f

theorem executeTask_withPolicies (taskId : DesCartes.TaskId) (script : Script ν) :
    (w.withPolicies p f).executeTask taskId script = (w.executeTask taskId script).withPolicies p f := by
  simp only [executeTask, withPolicies_scheduler]
  obtain ⟨task, s⟩ := w.scheduler.beginTask taskId
  cases task with
  | none => rfl
  | some task =>
    have h := acts_withPolicies { w with scheduler := s } p f script.handler
    exact congrArg (fun w' => finishTask w' taskId w.scheduler.executingTaskId script) h

end World

/-! ## Policies as an oracle -/

section
variable {π φ : Type} [ReadyTaskPolicy π] [EventFrontierPolicy φ]

/-- The choices of two policies. -/
def askPolicies (p : π × φ) : Question → Nat × π × φ
  | .frontier time events => let (i, f) := EventFrontierPolicy.choose p.2 time events; (i, p.1, f)
  | .ready time tasks => let (i, r) := ReadyTaskPolicy.choose p.1 time tasks; (i, r, p.2)

theorem Scheduler.askPolicy_run {ε τ ρ : Type} (s : Scheduler ε τ ρ) (p : π) (f : φ) :
    s.askPolicy.run askPolicies (p, f) = (((s.popWithPolicy f).1, (s.popWithPolicy f).2.1), p,
      (s.popWithPolicy f).2.2) := by
  unfold askPolicy popWithPolicy
  generalize popLive s.events.len s = q
  rcases q with ⟨_ | first, s₁⟩
  · rfl
  · simp only
    generalize collectFrontier first.time s₁.events.len s₁ [first] = q
    obtain ⟨entries, s₂⟩ := q
    simp only [chooseIndex]
    split_ifs
    · rfl
    · rfl

/-- The simulation that is left, when the policies answer. -/
def worldAfter {κ ν : Type} (c : Client Question Nat (κ × World ν Unit Unit)) (p : π × φ) : World ν π φ :=
  (c.run askPolicies p).1.2.withPolicies (c.run askPolicies p).2.1 (c.run askPolicies p).2.2

namespace Program

variable {κ ν : Type} (program : Program κ ν)

open World

theorem worldAfter_ask (q : Question) (next : Nat → Client Question Nat (κ × World ν Unit Unit)) (p : π × φ) :
    worldAfter (.ask q next) p = worldAfter (next (askPolicies p q).1) (askPolicies p q).2 := rfl

/-- A poll before others. -/
def pollFirst (script : PollScript ν) (polls : Nat → PollScript ν) (i : Nat) : PollScript ν :=
  if i = 0 then script else polls (i - 1)

/-- The polls of the loop, one after the other, are those of a script. -/
theorem pollLoop_withPolicies (n : Nat) (pollSet : List AsyncRuntime.TaskId) (k : κ)
    (w : World ν Unit Unit) (p : π) (f : φ) :
    ∃ polls, (w.withPolicies p f).pollLoop n polls pollSet =
      worldAfter (program.pollLoop n pollSet k w) (p, f) := by
  induction n generalizing pollSet k w p with
  | zero => exact ⟨Script.idle.polls, rfl⟩
  | succ n ih =>
    have hchoose : (w.withPolicies p f).chooseTask pollSet =
      (min (ReadyTaskPolicy.choose p w.now pollSet).1 (pollSet.length - 1),
        w.withPolicies (ReadyTaskPolicy.choose p w.now pollSet).2 f) := rfl
    rw [pollLoop, worldAfter_ask]
    simp only [World.pollLoop, hchoose, askPolicies, withPolicies_runtime, DesRuntime.withPolicy_tasks]
    cases pollSet[min (ReadyTaskPolicy.choose p w.now pollSet).1 (pollSet.length - 1)]? with
    | none => exact ⟨Script.idle.polls, rfl⟩
    | some t =>
      simp only
      cases w.runtime.tasks t with
      | none => exact ih ..
      | some task =>
        obtain ⟨polls, h⟩ := ih (Vec.swapRemove pollSet
          (min (ReadyTaskPolicy.choose p w.now pollSet).1 (pollSet.length - 1)))
          (program.poll k w t).1 (w.pollOne t task (program.poll k w t).2)
          (ReadyTaskPolicy.choose p w.now pollSet).2
        refine ⟨pollFirst (program.poll k w t).2 polls, ?_⟩
        simp only [pollOne_withPolicies]
        exact h

theorem pollReadyTasks_withPolicies (k : κ) (w : World ν Unit Unit) (p : π) (f : φ) :
    ∃ polls, (w.withPolicies p f).pollReadyTasks polls = worldAfter (program.pollReadyTasks k w) (p, f) := by
  let rt := w.runtime.drainSpawnQueues
  obtain ⟨polls, h⟩ := program.pollLoop_withPolicies rt.readyQueue.length rt.readyQueue k
    (w.setRuntime { rt with readyQueue := [] }) p f
  refine ⟨polls, ?_⟩
  simp only [World.pollReadyTasks, withPolicies_runtime, DesRuntime.drainSpawnQueues_withPolicy]
  exact h

theorem dispatch_withPolicies (k : κ) (w : World ν Unit Unit) (event : RuntimeEvent) (p : π) (f : φ) :
    ∃ script, (w.withPolicies p f).dispatch event script =
      worldAfter (program.dispatch k w event) (p, f) := by
  have hpolls : ∀ w : World ν Unit Unit, ∃ script : Script ν,
      (w.withPolicies p f).pollReadyTasks script.polls = worldAfter (program.pollReadyTasks k w) (p, f) := by
    intro w
    obtain ⟨polls, h⟩ := program.pollReadyTasks_withPolicies k w p f
    exact ⟨{ Script.idle with polls }, h⟩
  cases event with
  | poll => exact hpolls w
  | wake t =>
    obtain ⟨script, h⟩ := hpolls (w.setRuntime (w.runtime.wakeTask t))
    refine ⟨script, ?_⟩
    simp only [World.dispatch, withPolicies_runtime, DesRuntime.wakeTask_withPolicy]
    exact h
  | cancel t =>
    cases ht : w.runtime.tasks t with
    | none =>
      refine ⟨.idle, (cancelTask_withPolicies w p f t []).trans ?_⟩
      simp only [worldAfter, dispatch, cancelTask, ht, Client.run]
    | some task =>
      refine ⟨{ Script.idle with drop := (program.drop k w t).2 },
        (cancelTask_withPolicies w p f t _).trans ?_⟩
      simp only [worldAfter, dispatch, cancelTask, ht, Client.run]
  | registerTimer t deadline => exact ⟨.idle, registerTimer_withPolicies w p f t deadline⟩
  | cancelTimer t deadline => exact ⟨.idle, cancelTimer_withPolicies w p f t deadline⟩
  | timerTick =>
    let w₁ := w.setRuntime { w.runtime with nextTimerDeadline := none }
    obtain ⟨script, h⟩ := hpolls (w₁.fireTimers w.runtime.timers.len).scheduleNextTimerTick
    refine ⟨script, ?_⟩
    rw [← scheduleNextTimerTick_withPolicies, ← fireTimers_withPolicies] at h
    exact h

theorem processEvent_withPolicies (k : κ) (w : World ν Unit Unit) (event : RuntimeEvent) (p : π) (f : φ) :
    ∃ script, (w.withPolicies p f).processEvent event script =
      worldAfter (program.processEvent k w event) (p, f) := by
  obtain ⟨script, h⟩ := program.dispatch_withPolicies k w.storeKey event p f
  refine ⟨script, ?_⟩
  have hstore : (w.withPolicies p f).storeKey = w.storeKey.withPolicies p f := rfl
  simp only [World.processEvent, hstore, h, worldAfter, processEvent, Client.run_bind, Client.run,
    withPolicies_runtime,
    DesRuntime.withPolicy_readyQueue]
  split_ifs
  · rfl
  · exact schedule_withPolicies ..

theorem processEventEntry_withPolicies (k : κ) (w : World ν Unit Unit)
    (event : EventEntry (Payload ν)) (p : π) (f : φ) :
    ∃ script, (w.withPolicies p f).processEventEntry event script =
      worldAfter (program.processEventEntry k w event) (p, f) := by
  rcases event with ⟨i, time, key, event | event⟩ | ⟨i, time, taskId⟩
  · exact program.processEvent_withPolicies k w event p f
  · exact ⟨{ Script.idle with handler := (program.handle k w key event).2 }, acts_withPolicies ..⟩
  · cases hb : w.scheduler.beginTask taskId with
    | mk task s =>
      cases task with
      | none =>
        refine ⟨.idle, (executeTask_withPolicies w p f taskId .idle).trans ?_⟩
        simp only [worldAfter, processEventEntry, executeTask, hb, Client.run]
      | some task =>
        refine ⟨(program.execute k w taskId).2, (executeTask_withPolicies w p f taskId _).trans ?_⟩
        simp only [worldAfter, processEventEntry, executeTask, hb, Client.run]

/-- A step of the program is a step of the simulation by some script. -/
theorem step_withPolicies (k : κ) (w : World ν Unit Unit) (p : π) (f : φ) :
    ∃ script, (w.withPolicies p f).step script =
      (((program.step k w).run askPolicies (p, f)).1.1.isSome,
        ((program.step k w).run askPolicies (p, f)).1.2.2.withPolicies
          ((program.step k w).run askPolicies (p, f)).2.1
          ((program.step k w).run askPolicies (p, f)).2.2) := by
  simp only [World.step, step, Client.run_bind, Scheduler.askPolicy_run, withPolicies_scheduler,
    withPolicies_frontierPolicy]
  generalize w.scheduler.popWithPolicy f = q
  rcases q with ⟨_ | event, s, f'⟩
  · exact ⟨.idle, rfl⟩
  · let w₁ := { w with scheduler := s, inContext := true }.log (.processed (runtimeEvent? event) s.clock)
    obtain ⟨script, h⟩ := program.processEventEntry_withPolicies k w₁ event p f'
    refine ⟨script, ?_⟩
    simp only [Client.run_bind, Client.run, ← drainDeferredWakes_withPolicies]
    exact congrArg (fun w : World ν π φ => (true, { w with inContext := false }.drainDeferredWakes)) h

/-- What the owner does, as moves. -/
def ownerMove {ν π φ : Type} : OwnerCall ν → Move ν π φ
  | .act action => .act action
  | .spawnDirect => .spawnDirect
  | .wakeDirect taskId => .wakeDirect taskId

theorem ownerCalls_withPolicies {ν : Type} (calls : List (OwnerCall ν)) (w : World ν Unit Unit)
    (p : π) (f : φ) :
    (w.withPolicies p f).run (calls.map ownerMove) = (calls.foldl World.ownerCall w).withPolicies p f := by
  induction calls generalizing w with
  | nil => rfl
  | cons call calls ih =>
    have hcall : (w.withPolicies p f).move (ownerMove call) = (w.ownerCall call).withPolicies p f := by
      cases call with
      | act action => exact act_withPolicies ..
      | spawnDirect => rfl
      | wakeDirect taskId =>
        show (w.withPolicies p f).setRuntime ((w.runtime.withPolicy p).wakeTask taskId) = _
        rw [DesRuntime.wakeTask_withPolicy]
        rfl
    rw [List.foldl_cons, ← ih, ← hcall]
    rfl

/-- A run of the program is a run of the simulation. -/
theorem run_withPolicies (n : Nat) (k : κ) (w : World ν Unit Unit) (p : π) (f : φ) :
    ∃ moves, (w.withPolicies p f).run moves =
      ((program.run n k w).run askPolicies (p, f)).1.2.2.withPolicies
        ((program.run n k w).run askPolicies (p, f)).2.1
        ((program.run n k w).run askPolicies (p, f)).2.2 := by
  induction n generalizing k w p f with
  | zero => exact ⟨[], rfl⟩
  | succ n ih =>
    let w₁ := (program.prepare k w).2
    let r := (program.step (program.prepare k w).1 w₁).run askPolicies (p, f)
    obtain ⟨script, hstep⟩ := program.step_withPolicies (program.prepare k w).1 w₁ p f
    obtain ⟨moves, hmoves⟩ := ih r.1.2.1 r.1.2.2 r.2.1 r.2.2
    refine ⟨(program.owner k w).2.map ownerMove ++ .step script :: moves, ?_⟩
    have hmove : (w₁.withPolicies p f).move (.step script) = r.1.2.2.withPolicies r.2.1 r.2.2 :=
      congrArg Prod.snd hstep
    have hrun : (w₁.withPolicies p f).run (.step script :: moves) =
        (r.1.2.2.withPolicies r.2.1 r.2.2).run moves := by
      rw [← hmove]
      rfl
    rw [World.run, List.foldl_append]
    refine (congrArg (fun w : World ν π φ => w.run (.step script :: moves))
      (ownerCalls_withPolicies ..)).trans ?_
    refine hrun.trans (hmoves.trans ?_)
    simp only [run, Client.run_bind]
    rfl

end Program

end

end DesCartes
