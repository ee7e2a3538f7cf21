import DesCartes.Impl.Explore.Estimate
import DesCartes.Proof.Explore.Monitor
import DesCartes.Proof.Program

/-!
# The horizon of the run loops

The guard of the loops looks at the clock, and the step they then make goes to the first event that
is not cancelled, however far away it is. `Program.holds_step_time` says that this is the one time
of a step: that of the event it pops, of every question to the policies and of every call of the
code. `Within` says of the iterations of a loop that their steps go to events that are not after the
end time; `runUntil_horizon`, that this is exactly when no later event is processed, and that what
comes of the loop is then the same for all code and all policies that are the same up to the end
time.
-/

namespace DesCartes

/-- The first event that is not cancelled. -/
def World.nextLive {ν π φ : Type} (w : World ν π φ) : Option (EventEntry (Payload ν)) :=
  Scheduler.firstLive w.scheduler.events.toList w.scheduler.cancelledTasks

/-! ## The time of a step -/

/-- Whatever the policy, the time of a pop is that of the first event that is not cancelled. -/
theorem Scheduler.holds_askPolicy_time {ε τ ρ : Type} (s : Scheduler ε τ ρ) :
    s.askPolicy.Holds (fun q => (firstLive s.events.toList s.cancelledTasks).map EventEntry.time =
      some q.time) fun r =>
      r.1.map EventEntry.time = (firstLive s.events.toList s.cancelledTasks).map EventEntry.time ∧
        ∀ e, r.1 = some e → r.2.clock = e.time := by
  rw [← fst_popLive _ s le_rfl]
  obtain ⟨d, h⟩ := popLive_took s.events.len s le_rfl
  unfold askPolicy
  generalize popLive s.events.len s = q at h
  rcases q with ⟨_ | first, s₁⟩
  · exact ⟨rfl, fun e he => by cases he⟩
  obtain ⟨d', f, hf, -, -, htime, -⟩ := collectFrontier_took first.time s₁.events.len s₁ [first] le_rfl
    fun x hx => time_le_of_head h.2 hx
  simp only
  generalize collectFrontier first.time s₁.events.len s₁ [first] = q at hf
  obtain ⟨entries, s₂⟩ := q
  simp only at hf ⊢
  have hall := entries_time hf htime
  have hlen : entries.length ≠ 0 := by simp [hf]
  -- whatever is chosen is an entry of the frontier
  have htake : ∀ i, ∃ e, entries[min i (entries.length - 1)]? = some e ∧ e.time = first.time := by
    intro i
    have hlt : min i (entries.length - 1) < entries.length := by omega
    exact ⟨_, List.getElem?_eq_getElem hlt, hall _ (List.getElem_mem hlt)⟩
  split
  · obtain ⟨e, he, ht⟩ := htake 0
    rw [Client.Holds, he]
    exact ⟨congrArg some ht, fun e' he' => (Option.some.inj he') ▸ ht.symm⟩
  · refine ⟨rfl, fun i => ?_⟩
    obtain ⟨e, he, ht⟩ := htake i
    rw [Client.Holds, he]
    exact ⟨congrArg some ht, fun e' he' => (Option.some.inj he') ▸ ht.symm⟩

namespace Program

open AsyncRuntime World

variable {κ ν : Type} (program : Program κ ν)

/-- Two programs that are the same code up to a time. -/
structure AgreeUntil (endTime : SimTime) (program program' : Program κ ν) : Prop where
  handle : ∀ k w key event, w.now ≤ endTime → program.handle k w key event = program'.handle k w key event
  execute : ∀ k w taskId, w.now ≤ endTime → program.execute k w taskId = program'.execute k w taskId
  poll : ∀ k w taskId, w.now ≤ endTime → program.poll k w taskId = program'.poll k w taskId
  drop : ∀ k w taskId, w.now ≤ endTime → program.drop k w taskId = program'.drop k w taskId

theorem holds_pollLoop_time (n : Nat) (pollSet : List AsyncRuntime.TaskId) (k : κ) (w : World ν Unit Unit) :
    (program.pollLoop n pollSet k w).Holds (fun q => q.time = w.now) fun r => r.2.now = w.now := by
  induction n generalizing pollSet k w with
  | zero => exact rfl
  | succ n ih =>
    refine ⟨rfl, fun i => ?_⟩
    simp only
    split
    · exact rfl
    · rename_i taskId _
      split
      · exact ih ..
      · rename_i task htask
        have hnow := (frame_pollOne w htask (program.poll k w taskId).2).now
        have := ih (Vec.swapRemove pollSet (min i (pollSet.length - 1))) (program.poll k w taskId).1
          (w.pollOne taskId task (program.poll k w taskId).2)
        rwa [hnow] at this

theorem holds_pollReadyTasks_time (k : κ) (w : World ν Unit Unit) :
    (program.pollReadyTasks k w).Holds (fun q => q.time = w.now) fun r => r.2.now = w.now :=
  program.holds_pollLoop_time _ _ k (w.setRuntime { w.runtime.drainSpawnQueues with readyQueue := [] })

theorem now_cancelTask (k : κ) (w : World ν Unit Unit) (taskId : AsyncRuntime.TaskId) :
    (program.cancelTask k w taskId).2.now = w.now := by
  unfold cancelTask
  split <;> exact (grows_cancelTask ..).now

theorem holds_dispatch_time (k : κ) (w : World ν Unit Unit) (event : RuntimeEvent) :
    (program.dispatch k w event).Holds (fun q => q.time = w.now) fun r => r.2.now = w.now := by
  cases event with
  | poll => exact program.holds_pollReadyTasks_time k w
  | wake taskId => exact program.holds_pollReadyTasks_time k (w.setRuntime (w.runtime.wakeTask taskId))
  | cancel taskId => exact program.now_cancelTask k w taskId
  | registerTimer taskId deadline => exact (grows_registerTimer w taskId deadline).now
  | cancelTimer taskId deadline => exact (grows_cancelTimer w taskId deadline).now
  | timerTick =>
    have hnow : (((w.setRuntime { w.runtime with nextTimerDeadline := none }).fireTimers
        w.runtime.timers.len).scheduleNextTimerTick).now = w.now :=
      (grows_scheduleNextTimerTick _).now.trans (grows_fireTimers ..).now
    have := program.holds_pollReadyTasks_time k
      (((w.setRuntime { w.runtime with nextTimerDeadline := none }).fireTimers
        w.runtime.timers.len).scheduleNextTimerTick)
    rwa [hnow] at this

theorem holds_processEventEntry_time (k : κ) (w : World ν Unit Unit) (event : EventEntry (Payload ν)) :
    (program.processEventEntry k w event).Holds (fun q => q.time = w.now) fun r => r.2.now = w.now := by
  rcases event with ⟨i, t, key, event | event⟩ | ⟨i, t, taskId⟩
  · refine (program.holds_dispatch_time k w.storeKey event).bind fun r hr => ?_
    show World.now (if _ then _ else _) = _
    split
    · exact hr
    · exact (acted_schedule ..).now.trans hr
  · exact (acted_acts w _).now
  · show (program.executeTask k w taskId).2.now = w.now
    unfold executeTask
    split <;> exact (acted_executeTask ..).now

/-- The event that a step pops, and the questions it asks, are of the time of the first event that
is not cancelled. -/
theorem holds_step_time (k : κ) (w : World ν Unit Unit) :
    (program.step k w).Holds (fun q => w.nextLive.map EventEntry.time = some q.time) fun r =>
      r.1.map EventEntry.time = w.nextLive.map EventEntry.time := by
  refine (Scheduler.holds_askPolicy_time w.scheduler).bind fun r hr => ?_
  rcases r with ⟨_ | event, s⟩
  · exact hr.1
  · obtain ⟨htime, hclock⟩ := hr
    refine Client.Holds.bind (Client.Holds.mono (program.holds_processEventEntry_time k _ event)
      (fun q hq => ?_) fun r hr => hr)
      fun r _ => htime
    refine htime.symm.trans (congrArg some ?_)
    exact (hclock event rfl).symm.trans hq.symm

/-! ## What is left open after a time -/

section
variable {program} {program' : Program κ ν} {endTime : SimTime} (h : AgreeUntil endTime program program')
include h

theorem AgreeUntil.pollLoop (n : Nat) (pollSet : List AsyncRuntime.TaskId) (k : κ)
    {w : World ν Unit Unit} (hw : w.now ≤ endTime) :
    program.pollLoop n pollSet k w = program'.pollLoop n pollSet k w := by
  induction n generalizing pollSet k w with
  | zero => rfl
  | succ n ih =>
    simp only [Program.pollLoop]
    refine congrArg (Client.ask _) (funext fun i => ?_)
    split
    · rfl
    · rename_i taskId _
      split
      · exact ih _ k hw
      · rename_i task htask
        have hnow := (frame_pollOne w htask (program.poll k w taskId).2).now.trans_le hw
        refine (ih _ _ hnow).trans ?_
        exact congrArg (fun r : κ × PollScript ν => program'.pollLoop n (Vec.swapRemove pollSet _) r.1
          (w.pollOne taskId task r.2))
          (h.poll k w taskId hw)

theorem AgreeUntil.pollReadyTasks (k : κ) {w : World ν Unit Unit} (hw : w.now ≤ endTime) :
    program.pollReadyTasks k w = program'.pollReadyTasks k w :=
  h.pollLoop _ _ k (w := w.setRuntime { w.runtime.drainSpawnQueues with readyQueue := [] }) hw

theorem AgreeUntil.dispatch (k : κ) {w : World ν Unit Unit} (hw : w.now ≤ endTime) (event : RuntimeEvent) :
    program.dispatch k w event = program'.dispatch k w event := by
  cases event with
  | poll => exact h.pollReadyTasks k hw
  | wake taskId => exact h.pollReadyTasks k (w := w.setRuntime (w.runtime.wakeTask taskId)) hw
  | cancel taskId =>
    refine congrArg Client.done ?_
    unfold Program.cancelTask
    split
    · rfl
    · exact congrArg (fun r : κ × List (Action ν) => (r.1, w.cancelTask taskId r.2)) (h.drop k w taskId hw)
  | registerTimer taskId deadline => rfl
  | cancelTimer taskId deadline => rfl
  | timerTick =>
    refine h.pollReadyTasks k ?_
    exact ((grows_scheduleNextTimerTick _).now.trans (grows_fireTimers ..).now).trans_le hw

theorem AgreeUntil.processEventEntry (k : κ) {w : World ν Unit Unit} (hw : w.now ≤ endTime)
    (event : EventEntry (Payload ν)) :
    program.processEventEntry k w event = program'.processEventEntry k w event := by
  rcases event with ⟨i, t, key, event | event⟩ | ⟨i, t, taskId⟩
  · simp only [Program.processEventEntry, Program.processEvent]
    rw [h.dispatch k (w := w.storeKey) hw]
  · exact congrArg (fun r : κ × List (Action ν) => Client.done (r.1, w.acts r.2)) (h.handle k w key event hw)
  · refine congrArg Client.done ?_
    unfold Program.executeTask
    split
    · rfl
    · exact congrArg (fun r : κ × Script ν => (r.1, w.executeTask taskId r.2)) (h.execute k w taskId hw)

/-- A step to an event that is not after the time is the same. -/
theorem AgreeUntil.step (k : κ) {w : World ν Unit Unit} (hw : ∀ e, w.nextLive = some e → e.time ≤ endTime) :
    program.step k w = program'.step k w := by
  refine (Scheduler.holds_askPolicy_time w.scheduler).bind_congr fun r hr => ?_
  rcases r with ⟨_ | event, s⟩
  · rfl
  obtain ⟨htime, hclock⟩ := hr
  obtain ⟨e, he, het⟩ := Option.map_eq_some_iff.mp htime.symm
  have hs : s.clock ≤ endTime := by
    rw [hclock event rfl, ← het]
    exact hw e he
  have hevent := h.processEventEntry k
    (w := ({ w with scheduler := s, inContext := true } : World ν Unit Unit).log
      (.processed (runtimeEvent? event) s.clock)) hs event
  simp only
  rw [hevent]

end

end Program

namespace Explore.Monitored

open Monitor

variable {κ ν η σ ς : Type} {program program' : Program (κ × Monitor η) ν} {ask ask' : σ → Question → Nat × σ}
  {stop : ς → Monitor.MonitorStatus → Bool × ς} {endTime : SimTime}

/-- The event that is popped is of the time of the first one that is not cancelled. -/
theorem time_step (s : Monitored κ ν η σ) :
    (s.step program ask).1.map EventEntry.time = s.world.nextLive.map EventEntry.time :=
  (program.holds_step_time (s.code, s.monitor) s.world).result s.policies

/-- The event that is popped is not after a time exactly when the first one is not that is not cancelled. -/
theorem time_step_le (s : Monitored κ ν η σ) :
    (∀ e ∈ (s.step program ask).1.toList, e.time ≤ endTime) ↔ ∀ e,
    s.world.nextLive = some e → e.time ≤ endTime := by
  have htime : (s.step program ask).1.map EventEntry.time = s.world.nextLive.map EventEntry.time :=
    s.time_step
  cases hstep : (s.step program ask).1 <;> cases hnext : s.world.nextLive <;> simp_all

theorem step_congr (hp : Program.AgreeUntil endTime program program')
    (ha : ∀ p q, q.time ≤ endTime → ask p q = ask' p q) {s : Monitored κ ν η σ}
    (hs : ∀ e, s.world.nextLive = some e → e.time ≤ endTime) :
    s.step program ask = s.step program' ask' := by
  unfold step
  rw [hp.step _ hs, (program'.holds_step_time (s.code, s.monitor) s.world).run_congr fun p q hq => ?_]
  obtain ⟨e, he, het⟩ := Option.map_eq_some_iff.mp hq
  exact ha p q (het ▸ hs e he)

variable [Histogram η]

variable (program ask stop endTime) in
/-- In each of the first iterations, the step goes to an event that is not after the end time. -/
def Within : Nat → ς → Monitored κ ν η σ → Prop
  | 0, _, _ => True
  | n + 1, p, s =>
    s.goesOn endTime → (∀ e, s.world.nextLive = some e → e.time ≤ endTime) ∧
      ∀ s', (s.step program ask).2.flush (s.step program ask).2.world.now = some s' →
        (stop p s'.monitor.status).1 = false → Within n (stop p s'.monitor.status).2 s'

/-- The events that are processed are exactly then not after the end time. -/
theorem processed_runUntilEndOr (n : Nat) (p : ς) (s : Monitored κ ν η σ) :
    (∀ e ∈ (s.runUntilEndOr program ask stop endTime n p).processed, e.time ≤ endTime) ↔
      s.Within program ask stop endTime n p := by
  induction n generalizing p s with
  | zero => simp [runUntilEndOr, Within]
  | succ n ih =>
    cases hgo : s.goesOn endTime with
    | false => simp [runUntilEndOr, Within, hgo]
    | true =>
      have hstep : (∀ e ∈ (s.step program ask).1.toList, e.time ≤ endTime) ↔
          ∀ e, s.world.nextLive = some e → e.time ≤ endTime := s.time_step_le
      simp only [runUntilEndOr, Within, hgo, if_true, forall_const]
      cases hflush : (s.step program ask).2.flush (s.step program ask).2.world.now with
      | none => simpa using hstep
      | some s' =>
        cases hstop : (stop p s'.monitor.status).1 with
        | true => simpa [hstop] using hstep
        | false =>
          simp only [hstop, Option.some.injEq, forall_eq', forall_const, Bool.false_eq_true, if_false,
            Outcome.after,
            List.forall_mem_append, ih]
          exact and_congr_left' hstep

/-- What comes of a loop whose steps go to events that are not after the end time is the same for
all code and all policies that are the same up to then. -/
theorem runUntilEndOr_congr (hp : Program.AgreeUntil endTime program program')
    (ha : ∀ p q, q.time ≤ endTime → ask p q = ask' p q) (n : Nat) {p : ς} {s : Monitored κ ν η σ}
    (h : s.Within program ask stop endTime n p) :
    s.runUntilEndOr program ask stop endTime n p = s.runUntilEndOr program' ask' stop endTime n p := by
  induction n generalizing p s with
  | zero => rfl
  | succ n ih =>
    cases hgo : s.goesOn endTime with
    | false => simp [runUntilEndOr, hgo]
    | true =>
      obtain ⟨hlive, hrest⟩ := h hgo
      have hstep := step_congr hp ha hlive
      simp only [runUntilEndOr, hgo, if_true, ← hstep]
      cases hflush : (s.step program ask).2.flush (s.step program ask).2.world.now with
      | none => rfl
      | some s' =>
        cases hstop : (stop p s'.monitor.status).1 with
        | true => simp [hstop]
        | false =>
          simp only [hstop, Bool.false_eq_true, if_false]
          rw [ih (hrest s' hflush hstop)]

/-- The predicate of splitting. -/
def metastable : Unit → Monitor.MonitorStatus → Bool × Unit := fun _ status => (status.metastable, ())

/-- But for the prefix that it captures, the loop of splitting is that of estimation. -/
theorem fst_runUntilThresholdOrEnd (snapshot : Monitored κ ν η σ → List TraceEvent)
    (threshold : Float) (n : Nat) (capturedPrefix : Option (List TraceEvent))
    (s : Monitored κ ν η σ) :
    (s.runUntilThresholdOrEnd program ask snapshot threshold endTime n capturedPrefix).1 =
      s.runUntilEndOr program ask metastable endTime n () := by
  induction n generalizing capturedPrefix s with
  | zero => rfl
  | succ n ih =>
    simp only [runUntilThresholdOrEnd, runUntilEndOr, metastable]
    split
    · split
      · rfl
      · rename_i s' _
        by_cases hstop : s'.monitor.status.metastable
        · simp only [hstop, if_true]
        · simp only [hstop, Bool.false_eq_true, if_false]
          exact congrArg (Outcome.after _) (ih ..)
    · rfl

/-- For every simulation with its monitor, predicate and end time, and every number of iterations of
the loops: no event that is processed is after the end time, and what comes of the loop does not
depend on what the code and the policies do after it, if and only if each step that the loop makes
goes to an event that is not after the end time. -/
theorem runUntil_horizon (program : Program (κ × Monitor η) ν) (ask : σ → Question → Nat × σ)
    (stop : ς → Monitor.MonitorStatus → Bool × ς) (snapshot : Monitored κ ν η σ → List TraceEvent)
    (threshold : Float) (endTime : SimTime)
    (n : Nat) (p : ς) (capturedPrefix : Option (List TraceEvent)) (s : Monitored κ ν η σ) :
    (((∀ e ∈ (s.runUntilEndOr program ask stop endTime n p).processed, e.time ≤ endTime) ∧
        ∀ program' ask', Program.AgreeUntil endTime program program' → (∀ p q, q.time ≤ endTime → ask p q = ask' p q) →
          s.runUntilEndOr program ask stop endTime n p = s.runUntilEndOr program' ask' stop endTime n p) ↔
      s.Within program ask stop endTime n p) ∧
    (((∀ e ∈ (s.runUntilThresholdOrEnd program ask snapshot threshold endTime n capturedPrefix).1.processed, e.time ≤ endTime) ∧
        ∀ program' ask', Program.AgreeUntil endTime program program' → (∀ p q, q.time ≤ endTime → ask p q = ask' p q) →
          (s.runUntilThresholdOrEnd program ask snapshot threshold endTime n capturedPrefix).1 =
            (s.runUntilThresholdOrEnd program' ask' snapshot threshold endTime n capturedPrefix).1) ↔
      s.Within program ask metastable endTime n ()) := by
  simp only [fst_runUntilThresholdOrEnd, processed_runUntilEndOr]
  exact ⟨⟨And.left, fun h => ⟨h, fun _ _ hp ha => runUntilEndOr_congr hp ha n h⟩⟩,
    ⟨And.left, fun h => ⟨h, fun _ _ hp ha => runUntilEndOr_congr hp ha n h⟩⟩⟩

/-- Code that does nothing. -/
def silent : Program (Unit × Monitor Unit) Unit where
  handle k _ _ _ := (k, [])
  execute k _ _ := (k, .idle)
  poll k _ _ := (k, ⟨[], true, []⟩)
  drop k _ _ := (k, [])
  owner k _ := (k, [])

/-- A simulation with an event of a component after some time. -/
def eventAfter (delay : Nat) (monitor : Monitor Unit) : Monitored Unit Unit Unit Unit where
  code := ()
  monitor
  world := (World.install (.withSeed 7) () [] 0 () 0).act (.schedule (.saturate delay) (.component 5 ()))
  policies := ()

/-- With the end time 60, the event at 100 is processed, and the windows that are seen are those up to it. -/
theorem runUntilEndOr_past_horizon : ∃ m₀ : Monitor Unit,
    Monitor.new { window := 10, trackLatencyQuantiles := false } .zero = some m₀ ∧
    (∃ e ∈ ((eventAfter 100 m₀).runUntilEndOr silent (fun p _ => (0, p)) (fun p _ => (false, p))
      (.saturate 60) 3 ()).processed,
      ¬ e.time ≤ .saturate 60) ∧
    ((eventAfter 100 m₀).runUntilEndOr silent (fun p _ => (0, p)) (fun p _ => (false, p))
      (.saturate 60) 3 ()).status.map
      (·.windowsSeen) = some 10 ∧
    ((eventAfter 200 m₀).runUntilEndOr silent (fun p _ => (0, p)) (fun p _ => (false, p))
      (.saturate 60) 3 ()).status.map
      (·.windowsSeen) = some 20 := by
  refine ⟨_, rfl, ?_, ?_, ?_⟩
  · decide
  · rfl
  · rfl

end Explore.Monitored

end DesCartes
