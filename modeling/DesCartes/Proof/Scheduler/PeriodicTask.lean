import DesCartes.Proof.Scheduler.TaskChain

/-!
# The executions of a `PeriodicTask` with a count

A `PeriodicTask` counts an execution after its callback has returned. So one with the count zero
calls its callback all the same, and then counts below zero, which panics; every other one is
executed as often as its count says, one interval after the other, and nothing of it is left
(`run_counted_iff`). This is about runs in which the loop alone pops events, so that simulated time
does not pass while a callback runs.

* `Ticking`: the invariant of the task's executions;
* `Does.ticks`: what is done to the task keeps it, until the count goes below zero.
-/

namespace DesCartes.TaskSystem

open Scheduler

variable {ε κ ρ φ : Type} {id : TaskId} {callback : κ} {interval : SimTime} {count first : Nat}

/-- An event is popped by other code than the loop. -/
def Op.pops : Op ε κ ρ φ → Bool
  | .pop => true
  | .popWithPolicy _ => true
  | _ => false

/-- Simulated time does not pass while the code of a task runs. -/
theorem clock_step [EventFrontierPolicy φ] {s s' : TaskSystem ε κ ρ} {op : Op ε κ ρ φ}
    {o : Answer ε ρ} (hop : op.pops = false) (hrunning : s.running.isSome)
    (hstep : s.step op = some (s', o)) :
    s'.session.scheduler.clock = s.session.scheduler.clock := by
  cases op with
  | schedule delay component event =>
    obtain ⟨rfl, -⟩ := step_schedule hstep
    rfl
  | scheduleTask delay task =>
    obtain ⟨-, rfl, -⟩ := step_scheduleTask hstep
    rfl
  | cancelTask id =>
    cases hstep
    exact clock_cancelTask ..
  | getTaskResult id =>
    cases hstep
    rfl
  | pop => cases hop
  | popWithPolicy policy => cases hop
  | execute policy =>
    rw [step, if_pos hrunning] at hstep
    cases hstep
  | finish ok value =>
    obtain ⟨id, answer, hfinishes, -⟩ := step_finish hstep
    cases hfinishes with
    | ended hrunning' hframes hexecute => rw [endTask_eq]
    | again hrunning' hframes hexecute hexecuting =>
      rw [endTask_eq]
      rfl

namespace Observed

variable {c c' : Observed ε κ ρ} {ph ph' : Phase κ}

/-- The executions begin at the first time, one interval after the other. -/
def OnTime (interval : SimTime) (first : Nat) (started : List SimTime) : Prop :=
  ∀ k t, started[k]? = some t → t.nanos = first + k * interval.nanos

/-- What a `PeriodicTask` with a count is meant to have done, and to be about to do. -/
structure Counted (count : Nat) (interval : SimTime) (first : Nat) (id : TaskId) (c : Observed ε κ ρ) : Prop where
  bounded : c.started.length ≤ count
  times : OnTime interval first c.started
  /-- The next execution has begun, or is pending. -/
  going : c.stopped = false → c.returned.length < count → c.started.length = c.returned.length + 1 ∨
    ∃ due task, due.nanos = first + c.returned.length * interval.nanos ∧ c.system.At id (.pending due task)
  /-- After the last execution nothing is left of the task. -/
  finished : 0 < c.returned.length → c.returned.length = count → c.system.session.scheduler.pendingTasks id = none ∧
    ∀ e ∈ c.system.session.scheduler.events.toList, e.taskId ≠ some id
  safe : c.panicked = false

/-! ## The invariant -/

/-- The task before its next execution. -/
def nextTick (callback : κ) (interval : SimTime) (count executed : Nat) : TaskExecution κ :=
  .periodic ⟨callback, interval, some (count - executed)⟩

/-- The record of a task in the phase, when it was executed so many times. -/
def Ticking (callback : κ) (interval : SimTime) (count first : Nat) (clock : SimTime) (started executed : Nat) (stopped : Bool) :
    Phase κ → Prop
  | .pending due task => started = executed ∧ executed < max 1 count ∧ task = nextTick callback interval count executed ∧
      due.nanos = first + executed * interval.nanos
  | .lost => started = executed ∧ executed < max 1 count ∧ stopped = true
  | .running task => started = executed + 1 ∧ executed < max 1 count ∧ task = nextTick callback interval count executed ∧
      clock.nanos = first + executed * interval.nanos
  | .dead => started = executed ∧ executed < max 1 count ∧ stopped = true
  | .ended => started = executed ∧ executed = count

/-- The record of a task in the phase. -/
def Ticks (callback : κ) (interval : SimTime) (count first : Nat) (c : Observed ε κ ρ) (ph : Phase κ) : Prop :=
  c.panicked = false ∧ OnTime interval first c.started ∧
    Ticking callback interval count first c.system.session.scheduler.clock c.started.length c.returned.length c.stopped ph

/-- Once the callback has returned. -/
theorem execute_nextTick {executed : Nat} (ok : Bool) (h : executed < count) :
    (nextTick callback interval count executed).execute ok =
      if executed + 1 = count then some none else some
        (some (interval, nextTick callback interval count (executed + 1))) := by
  obtain ⟨n, rfl⟩ := Nat.exists_eq_add_of_lt h
  have hsub : executed + n + 1 - executed = n + 1 := by omega
  have hsub' : executed + n + 1 - (executed + 1) = n := by omega
  rw [nextTick, nextTick, hsub, hsub']
  cases n with
  | zero => rw [if_pos rfl]; rfl
  | succ n => rw [if_neg (by omega)]; rfl

/-- The next execution begins when it is due. -/
theorem OnTime.start {started : List SimTime} {due : SimTime} (h : OnTime interval first started)
    (hdue : due.nanos = first + started.length * interval.nanos) :
    OnTime interval first (started ++ [due]) := by
  intro k t ht
  rcases Nat.lt_trichotomy k started.length with hk | rfl | hk
  · rw [List.getElem?_append_left hk] at ht
    exact h k t ht
  · rw [List.getElem?_concat_length] at ht
    cases ht
    exact hdue
  · rw [List.getElem?_eq_none (by rw [List.length_append, List.length_singleton]; omega)] at ht
    cases ht

/-! ## Phases -/

section
variable {clock due delay : SimTime} {started executed : Nat} {stopped ok : Bool} {task task' : TaskExecution κ}

theorem Ticking.gone (h : Ticking callback interval count first clock started executed stopped ph)
    (alive : (∃ due task, ph = .pending due task) ∨ ph = .lost) (gone : ph' = .lost ∨ ph' = .dead)
    (clock' : SimTime) :
    Ticking callback interval count first clock' started executed true ph' := by
  have hcount : started = executed ∧ executed < max 1 count := by
    rcases alive with ⟨due, task, rfl⟩ | rfl
    · exact ⟨h.1, h.2.1⟩
    · exact ⟨h.1, h.2.1⟩
  rcases gone with rfl | rfl
  · exact ⟨hcount.1, hcount.2, rfl⟩
  · exact ⟨hcount.1, hcount.2, rfl⟩

/-- The callback returns, and is called again. -/
theorem Ticking.again
    (h : Ticking callback interval count first clock started executed stopped (.running task))
    (hmax : first + (count - 1) * interval.nanos ≤ u64Max)
    (execute : task.execute ok = some (some (delay, task'))) (clock' : SimTime) :
    Ticking callback interval count first clock' started (executed + 1) stopped
      (.pending (clock + delay) task') := by
  obtain ⟨hstarted, hlt, rfl, hnow⟩ := h
  rcases Nat.eq_zero_or_pos count with rfl | hpos
  · rw [nextTick, Nat.zero_sub] at execute
    cases execute
  rw [Nat.max_eq_right hpos] at hlt
  rw [execute_nextTick ok hlt] at execute
  split at execute <;> cases execute
  rename_i hmore
  refine ⟨hstarted, ?_, rfl, ?_⟩
  · omega
  · -- no later execution is due after the last one
    have hle : (executed + 1) * interval.nanos ≤ (count - 1) * interval.nanos :=
      Nat.mul_le_mul_right _ (by omega)
    have hsucc : (executed + 1) * interval.nanos = executed * interval.nanos + interval.nanos :=
      Nat.succ_mul ..
    rw [SimTime.nanos_add, hnow]
    omega

/-- The callback returns for the last time. -/
theorem Ticking.ended
    (h : Ticking callback interval count first clock started executed stopped (.running task))
    (execute : task.execute ok = some none) (clock' : SimTime) :
    Ticking callback interval count first clock' started (executed + 1) stopped .ended := by
  obtain ⟨hstarted, hlt, rfl, -⟩ := h
  rcases Nat.eq_zero_or_pos count with rfl | hpos
  · rw [nextTick, Nat.zero_sub] at execute
    cases execute
  rw [Nat.max_eq_right hpos] at hlt
  rw [execute_nextTick ok hlt] at execute
  split at execute <;> cases execute
  rename_i hlast
  exact ⟨hstarted, hlast⟩

/-- There is no execution left to count. -/
theorem Ticking.zero
    (h : Ticking callback interval count first clock started executed stopped (.running task))
    (execute : task.execute ok = none) : count = 0 := by
  obtain ⟨-, hlt, rfl, -⟩ := h
  refine Nat.eq_zero_of_not_pos fun hpos => ?_
  rw [Nat.max_eq_right hpos] at hlt
  rw [execute_nextTick ok hlt] at execute
  split at execute <;> cases execute

end

/-! ## Records -/

/-- What is done to the task keeps its record, until the count goes below zero. -/
theorem Does.ticks (h : Does id c c' ph ph') (hmax : first + (count - 1) * interval.nanos ≤ u64Max)
    (hclock : ∀ task, ph = .running task → c'.system.session.scheduler.clock =
      c.system.session.scheduler.clock)
    (hc : c.Ticks callback interval count first ph) :
    c'.Ticks callback interval count first ph' ∨ c'.panicked = true ∧ count = 0 ∧ c'.started ≠ [] := by
  have htimes := hc.2.1
  have hticking := hc.2.2
  unfold Ticks
  cases h with
  | stays notes hresults =>
    rw [notes.started, notes.returned, notes.stopped]
    refine .inl ⟨notes.panicked, htimes, ?_⟩
    cases ph with
    | running task =>
      rw [hclock task rfl]
      exact hticking
    | pending due task => exact hticking
    | lost => exact hticking
    | dead => exact hticking
    | ended => exact hticking
  | stopped notes hresults alive gone =>
    rw [notes.started, notes.returned, notes.stopped]
    exact .inl ⟨notes.panicked, htimes, hticking.gone alive gone _⟩
  | executed notes hresults clock =>
    obtain ⟨hstarted, hlt, htask, hdue⟩ := hticking
    rw [notes.started, notes.returned, notes.stopped, clock, List.length_append, List.length_singleton]
    exact .inl ⟨notes.panicked, htimes.start (hstarted ▸ hdue), congrArg Nat.succ hstarted, hlt, htask, hdue⟩
  | again notes hresults time execute =>
    rw [notes.started, notes.returned, notes.stopped, List.length_append, List.length_singleton, time]
    exact .inl ⟨notes.panicked, htimes, hticking.again hmax execute _⟩
  | ended notes hresults execute =>
    rw [notes.started, notes.returned, notes.stopped, List.length_append, List.length_singleton]
    exact .inl ⟨notes.panicked, htimes, hticking.ended execute _⟩
  | panicked notes execute =>
    have hstarted := hticking.1
    refine .inr ⟨notes.panicked, hticking.zero execute, ?_⟩
    rw [notes.started]
    exact List.ne_nil_of_length_pos (by omega)

/-- Where the count has not gone below zero, the task has done what it is meant to. -/
theorem Ticks.counted (h : c.Ticks callback interval count first ph) (hat : c.system.At id ph)
    (hcount : 0 < count ∨ c.started = []) : c.Counted count interval first id := by
  obtain ⟨hpanicked, htimes, hticking⟩ := h
  -- with the count zero nothing has been executed
  have hbound : c.returned.length < max 1 count → c.started.length = c.returned.length →
      c.started.length ≤ count ∧
        (0 < c.returned.length → c.returned.length ≠ count) := by
    intro hlt hlength
    rcases hcount with hpos | hnil
    · omega
    · rw [hnil, List.length_nil] at hlength ⊢
      omega
  cases ph with
  | pending due task =>
    obtain ⟨hlength, hlt, -, hdue⟩ := hticking
    obtain ⟨hbounded, hmore⟩ := hbound hlt hlength
    exact ⟨hbounded, htimes, fun _ _ => .inr ⟨due, task, hdue, hat⟩,
      fun hpos heq => absurd heq (hmore hpos), hpanicked⟩
  | lost =>
    obtain ⟨hlength, hlt, hstopped⟩ := hticking
    obtain ⟨hbounded, hmore⟩ := hbound hlt hlength
    exact ⟨hbounded, htimes, fun h => absurd (h.symm.trans hstopped) Bool.false_ne_true,
      fun hpos heq => absurd heq (hmore hpos),
      hpanicked⟩
  | running task =>
    obtain ⟨hlength, hlt, -⟩ := hticking
    have hpos : 0 < count := by
      refine hcount.resolve_right fun hnil => ?_
      rw [hnil, List.length_nil] at hlength
      omega
    exact ⟨by omega, htimes, fun _ _ => .inl hlength, fun _ heq => by omega, hpanicked⟩
  | dead =>
    obtain ⟨hlength, hlt, hstopped⟩ := hticking
    obtain ⟨hbounded, hmore⟩ := hbound hlt hlength
    exact ⟨hbounded, htimes, fun h => absurd (h.symm.trans hstopped) Bool.false_ne_true,
      fun hpos heq => absurd heq (hmore hpos),
      hpanicked⟩
  | ended =>
    obtain ⟨hlength, heq⟩ := hticking
    exact ⟨by omega, htimes, fun _ hlt => absurd heq hlt.ne, fun _ _ => ⟨hat.1.pending, hat.2⟩, hpanicked⟩

/-! ## Runs -/

variable [EventFrontierPolicy φ] {ops : List (Op ε κ ρ φ)} {os : List Unit}

/-- After every run the record is that of the task, or the count has gone below zero. -/
theorem run_ticks (hops : ∀ op ∈ ops, op.pops = false) (hmax : first + (count - 1) * interval.nanos ≤ u64Max)
    (hs : c.system.session.Wf) (hat : c.system.At id ph) (hc : c.Ticks callback interval count first ph)
    (hrun : Machine.run (step id) c ops = some (c', os)) :
    (∃ ph', c'.system.At id ph' ∧ c'.Ticks callback interval count first ph') ∨
      c'.panicked = true ∧ count = 0 ∧ c'.started ≠ [] := by
  refine run_does (C := fun op => op.pops = false) (R := Ticks callback interval count first)
    (Q := fun c => c.panicked = true ∧ count = 0 ∧ c.started ≠ []) ?_ ?_ ?_ hops hs hat hc hrun
  · exact fun _ _ h => h.1
  · exact fun _ h => h.1
  · intro c c' ph ph' op o hc hat hop hstep hdoes
    refine hdoes.ticks hmax ?_ hc
    rintro task rfl
    have hrunning : c.system.running.isSome := by rw [hat.1]; rfl
    rw [step, hc.1, if_neg Bool.false_ne_true] at hstep
    cases hsystem : c.system.step op with
    | none =>
      rw [hsystem] at hstep
      simp only at hstep
      split at hstep <;> cases hstep
      rfl
    | some next =>
      rw [hsystem] at hstep
      cases hstep
      exact clock_step hop hrunning hsystem

end Observed

open Observed

variable [EventFrontierPolicy φ] {s s₁ : TaskSystem ε κ ρ} {before ops : List (Op ε κ ρ φ)}

/-- In every state that a run of the loop leads to, a `PeriodicTask` that was scheduled with a count
has done what it is meant to exactly when the count is not zero, or the task has not been executed.
-/
theorem run_counted_iff {idSeed : BitVec 64} {answers : List (Answer ε ρ)}
    (hbefore : Machine.run step (fresh idSeed) before = some (s, answers)) {delay : SimTime} {o : Answer ε ρ}
    (hschedule : s.step (.scheduleTask (φ := φ) delay (.periodic (.withCount callback interval count))) = some (s₁, o))
    (hmax : s.session.scheduler.clock.nanos + delay.nanos + (count - 1) * interval.nanos ≤ u64Max)
    (hops : ∀ op ∈ ops, op.pops = false) {c : Observed ε κ ρ} {os : List Unit}
    (hrun : Machine.run (Observed.step s.nextTask) (watch s₁) ops = some (c, os)) :
    c.Counted count interval (s.session.scheduler.clock.nanos + delay.nanos) s.nextTask ↔ 0 < count ∨
      c.started = [] := by
  obtain ⟨hs, hat, -⟩ := at_scheduleTask hbefore hschedule
  have hwatch : (watch s₁).Ticks callback interval count (s.session.scheduler.clock.nanos + delay.nanos)
      (.pending (s.session.scheduler.clock + delay) (.periodic (.withCount callback interval count))) := by
    refine ⟨rfl, fun k t ht => ?_, rfl, Nat.lt_of_lt_of_le Nat.zero_lt_one (Nat.le_max_left ..), rfl, ?_⟩
    · cases ht
    · rw [SimTime.nanos_add, Nat.min_eq_left (by omega), watch, List.length_nil, Nat.zero_mul, Nat.add_zero]
  rcases run_ticks hops hmax hs hat hwatch hrun with ⟨ph, hat', hticks⟩ | ⟨hpanicked, hzero, hne⟩
  · refine ⟨fun h => ?_, hticks.counted hat'⟩
    rcases Nat.eq_zero_or_pos count with hzero | hpos
    · exact .inr (List.eq_nil_of_length_eq_zero (Nat.le_zero.mp (hzero ▸ h.bounded)))
    · exact .inl hpos
  · refine iff_of_false (fun h => ?_) ?_
    · rw [h.safe] at hpanicked
      cases hpanicked
    · rintro (hpos | hnil)
      · omega
      · exact hne hnil

/-- Executions, one after the other. -/
def ticks (n : Nat) : List (Op Unit Nat Nat FifoFrontierPolicy) := (List.replicate n [.execute ⟨⟩, .finish true none]).flatten

/-- A task is executed twice, as its count says. -/
theorem run_counted_iff_twice : ∃ (s₁ : TaskSystem Unit Nat Nat) (o : Answer Unit Nat) (c : Observed Unit Nat Nat) (os : List Unit),
    (fresh 7 : TaskSystem Unit Nat Nat).step
      (.scheduleTask (φ := FifoFrontierPolicy) (.saturate 3) (.periodic (.withCount 0 (.saturate 5) 2))) = some (s₁, o) ∧
    Machine.run (Observed.step (fresh 7 : TaskSystem Unit Nat Nat).nextTask) (watch s₁)
      (ticks 2) = some (c, os) ∧
    c.started = [.saturate 3, .saturate 8] ∧ c.Counted 2 (.saturate 5) 3
      (fresh 7 : TaskSystem Unit Nat Nat).nextTask := by
  have hruns : (((fresh 7 : TaskSystem Unit Nat Nat).step
      (.scheduleTask (φ := FifoFrontierPolicy) (.saturate 3)
        (.periodic (.withCount 0 (.saturate 5) 2)))).bind fun r =>
      (Machine.run (Observed.step (fresh 7 : TaskSystem Unit Nat Nat).nextTask) (watch r.1)
        (ticks 2)).map fun q => q.1.started) =
      some [.saturate 3, .saturate 8] := by
    decide +kernel
  obtain ⟨⟨s₁, o⟩, hschedule, hmap⟩ := Option.bind_eq_some_iff.mp hruns
  obtain ⟨⟨c, os⟩, hrun, hstarted⟩ := Option.map_eq_some_iff.mp hmap
  have hbefore : Machine.run step (fresh 7 : TaskSystem Unit Nat Nat)
    ([] : List (Op Unit Nat Nat FifoFrontierPolicy)) =
      some (fresh 7, []) := rfl
  exact ⟨s₁, o, c, os, hschedule, hrun, hstarted,
    (run_counted_iff hbefore hschedule (by decide) (by decide) hrun).mpr (.inl (by decide))⟩

/-- The callback of a task with the count zero is called, and then the count goes below zero. -/
theorem not_counted_zero : ∃ (s₁ : TaskSystem Unit Nat Nat) (o : Answer Unit Nat) (c : Observed Unit Nat Nat) (os : List Unit),
    (fresh 7 : TaskSystem Unit Nat Nat).step
      (.scheduleTask (φ := FifoFrontierPolicy) (.saturate 3) (.periodic (.withCount 0 (.saturate 5) 0))) = some (s₁, o) ∧
    Machine.run (Observed.step (fresh 7 : TaskSystem Unit Nat Nat).nextTask) (watch s₁)
      (ticks 1) = some (c, os) ∧
    c.started = [.saturate 3] ∧ c.panicked = true ∧ ¬c.Counted 0 (.saturate 5) 3
      (fresh 7 : TaskSystem Unit Nat Nat).nextTask := by
  have hruns : (((fresh 7 : TaskSystem Unit Nat Nat).step
      (.scheduleTask (φ := FifoFrontierPolicy) (.saturate 3)
        (.periodic (.withCount 0 (.saturate 5) 0)))).bind fun r =>
      (Machine.run (Observed.step (fresh 7 : TaskSystem Unit Nat Nat).nextTask) (watch r.1) (ticks 1)).map
        fun q => (q.1.started, q.1.panicked)) = some ([.saturate 3], true) := by
    decide +kernel
  obtain ⟨⟨s₁, o⟩, hschedule, hmap⟩ := Option.bind_eq_some_iff.mp hruns
  obtain ⟨⟨c, os⟩, hrun, heq⟩ := Option.map_eq_some_iff.mp hmap
  obtain ⟨hstarted, hpanicked⟩ := Prod.mk.inj heq
  exact ⟨s₁, o, c, os, hschedule, hrun, hstarted, hpanicked,
    fun h => Bool.false_ne_true (h.safe.symm.trans hpanicked)⟩

end DesCartes.TaskSystem
