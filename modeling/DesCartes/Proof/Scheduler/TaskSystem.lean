import DesCartes.Impl.TaskSystem
import DesCartes.Proof.Scheduler.Session

/-!
# Cancelling a task that is executed again

A `PeriodicTask` or a `RetryTask` is executed again and again under one id. While its code runs it
is not pending, so that `cancel_task` has nothing to remove and leaves no mark; and when the code
returns the task is scheduled again. So a cancellation stops it exactly when its next execution is
pending (`run_stops_iff`).

* `Kept`: an operation leaves a task that is dead for the scheduler so;
* `exists_executed`: a pending task can be executed.
-/

namespace DesCartes.TaskSystem

open Scheduler

variable {ε κ ρ φ : Type} {s s' : TaskSystem ε κ ρ} {id : TaskId}

/-- The task runs, and can schedule itself again when its code returns. -/
def Reschedules (s : TaskSystem ε κ ρ) (id : TaskId) : Prop :=
  ∃ previous frames task ok again, s.session.frames = (id, previous) :: frames ∧ s.running = some task ∧
    task.execute ok = some (some again) ∧ s.session.scheduler.nextEventId < u64Max

/-- The code of the task would be called again: an execution is pending, or the task can schedule one. -/
def RunsAgain (s : TaskSystem ε κ ρ) (id : TaskId) : Prop := s.session.scheduler.pendingTasks id ≠ none ∨ s.Reschedules id

/-- `cancel_task` stops the task: its code is not called again, whatever is done. -/
def Stops (φ : Type) [EventFrontierPolicy φ] (s : TaskSystem ε κ ρ) (id : TaskId) : Prop :=
  ∀ (ops : List (Op ε κ ρ φ)) (s' : TaskSystem ε κ ρ) (answers : List (Answer ε ρ)),
    Machine.run step s (.cancelTask id :: ops) = some (s', answers) → ∀ event, .executed event (some id) ∉ answers

/-! ## Operations -/

/-- What an operation answering `o` leads to. -/
structure Kept (s s' : TaskSystem ε κ ρ) (o : Answer ε ρ) : Prop where
  wf : s'.session.Wf
  dead : ∀ id, s.session.Dead id → s'.session.Dead id ∧ ∀ event, o ≠ .executed event (some id)

theorem kept_of_stepped {session : Session ε (TaskExecution κ) ρ} {running : Option (TaskExecution κ)}
    {answer : DesCartes.Answer ε} {o : Answer ε ρ} (h : s.session.Stepped session answer)
    (ho : ∀ event id, o ≠ .executed event (some id)) : Kept s ⟨session, running⟩ o :=
  ⟨h.wf, fun id hdead => ⟨(h.dead id hdead).1, fun event => ho event id⟩⟩

variable [EventFrontierPolicy φ] {op : Op ε κ ρ φ} {o : Answer ε ρ}

theorem call_kept (h : s.session.Wf) {op : DesCartes.Op ε (TaskExecution κ) ρ φ}
    (hcall : s.call op = some (s', o)) : Kept s s' o := by
  obtain ⟨⟨session, answer⟩, hstep, heq⟩ := Option.map_eq_some_iff.mp hcall
  cases heq
  exact kept_of_stepped (h.stepped hstep) nofun

theorem execute_kept (h : s.session.Wf) (policy : φ) : Kept s (s.execute policy).1 (s.execute policy).2 := by
  have hstepped := h.execute policy
  unfold execute
  generalize s.session.scheduler.popWithPolicy policy = popped at hstepped
  obtain ⟨event, scheduler, policy'⟩ := popped
  cases event with
  | none => exact kept_of_stepped hstepped nofun
  | some event =>
    cases event with
    | component i time component event => exact kept_of_stepped hstepped nofun
    | task i time id =>
      refine ⟨hstepped.wf, fun id' hdead => ⟨(hstepped.dead id' hdead).1, fun event ho => ?_⟩⟩
      obtain ⟨-, hid⟩ := Answer.executed.inj ho
      obtain ⟨-, -, rfl⟩ := Option.map_eq_some_iff.mp hid
      exact (hstepped.dead id hdead).2 _ rfl rfl

theorem step_kept (h : s.session.Wf) (hstep : s.step op = some (s', o)) : Kept s s' o := by
  cases op with
  | schedule delay component event => exact call_kept h hstep
  | scheduleTask delay task => exact call_kept h hstep
  | cancelTask id => exact call_kept h hstep
  | getTaskResult id =>
    cases hstep
    refine ⟨⟨h.future, h.one, h.bound, h.events_known, h.pending_known, h.running_known, h.marked,
      h.running_out, h.running_nodup,
      h.executing, h.linked⟩, fun id' hdead =>
        ⟨⟨hdead.known, hdead.pending, hdead.running, hdead.marked⟩, nofun⟩⟩
  | pop => exact call_kept h hstep
  | popWithPolicy policy => exact call_kept h hstep
  | execute policy =>
    rw [step] at hstep
    split at hstep
    · cases hstep
    · have hkept := execute_kept h policy
      rw [Option.some.inj hstep] at hkept
      exact hkept
  | finish ok value =>
    obtain ⟨task, hrunning, hstep⟩ := Option.bind_eq_some_iff.mp hstep
    obtain ⟨again, hagain, hstep⟩ := Option.bind_eq_some_iff.mp hstep
    obtain ⟨⟨session, answer⟩, hfinish, heq⟩ := Option.map_eq_some_iff.mp hstep
    cases heq
    exact kept_of_stepped (h.stepped hfinish) nofun

/-! ## Runs -/

variable {ops : List (Op ε κ ρ φ)} {answers : List (Answer ε ρ)}

theorem run_wf (h : s.session.Wf) (hrun : Machine.run step s ops = some (s', answers)) : s'.session.Wf :=
  Machine.run_invariant (P := fun s : TaskSystem ε κ ρ => s.session.Wf)
    (fun _ _ _ _ h hstep => (step_kept h hstep).wf) h hrun

/-- The code of a dead task is not called. -/
theorem run_dead (h : s.session.Wf) (hdead : s.session.Dead id)
    (hrun : Machine.run step s ops = some (s', answers)) :
    ∀ o ∈ answers, ∀ event, o ≠ .executed event (some id) :=
  Machine.run_answers (P := fun s : TaskSystem ε κ ρ => s.session.Wf ∧ s.session.Dead id)
    (fun _ _ _ _ h hstep =>
    ⟨⟨(step_kept h.1 hstep).wf, ((step_kept h.1 hstep).dead id h.2).1⟩,
      ((step_kept h.1 hstep).dead id h.2).2⟩) ⟨h, hdead⟩ hrun

/-- A cancellation stops a task whose execution is pending. -/
theorem stops_of_pending (h : s.session.Wf)
    (hpending : s.session.scheduler.pendingTasks id ≠ none) : Stops φ s id := by
  intro ops s' answers hrun event hmem
  obtain ⟨u, o, rest, hstep, hrest, rfl⟩ := Machine.run_cons.mp hrun
  cases hstep
  have hdead := h.dead_cancelTask (Option.isSome_iff_ne_none.mpr hpending)
  rcases List.mem_cons.mp hmem with ho | hmem
  · cases ho
  · exact run_dead (h.cancelTask id) hdead hrest _ hmem event rfl

/-- A task with an event that is pending can be executed: the events before its own are popped. -/
theorem exists_executed (policy : φ) (h : s.session.Wf) (hrunning : s.running = none) {task : TaskExecution κ}
    (hpending : s.session.scheduler.pendingTasks id = some task) {e : EventEntry ε}
    (he : e ∈ s.session.scheduler.events.toList) (hid : e.taskId = some id) :
    ∃ (ops : List (Op ε κ ρ φ)) (s' : TaskSystem ε κ ρ) (answers : List (Answer ε ρ)),
      Machine.run step s ops = some (s', answers) ∧ ∃ event, .executed event (some id) ∈ answers := by
  have hunmarked : id ∉ s.session.scheduler.cancelledTasks := by
    intro hmarked
    rw [(h.marked id hmarked).2.1] at hpending
    cases hpending
  induction hn : s.session.scheduler.events.toList.length using Nat.strong_induction_on generalizing s with
  | _ n ih =>
    obtain ⟨d, hspec⟩ := popWithPolicy_spec s.session.scheduler policy
    have hstepped := h.popWithPolicy policy
    have hstep : s.step (.popWithPolicy policy) = some
      (⟨{ s.session with scheduler := (s.session.scheduler.popWithPolicy policy).2.1 },
      s.running⟩, .called (.popped (s.session.scheduler.popWithPolicy policy).1)) := rfl
    have hexecute : s.step (.execute policy) = some (s.execute policy) := by
      rw [step, hrunning]
      rfl
    unfold execute at hexecute
    generalize s.session.scheduler.popWithPolicy policy = popped at hspec hstepped hstep hexecute
    obtain ⟨event, scheduler, policy'⟩ := popped
    have hdropped : ∀ s₁ d r, Took s.session.scheduler s₁ d r → e ∉ d := by
      intro s₁ d r htook hmem
      obtain ⟨id', hmarked, hid'⟩ := htook.dropped e hmem
      cases hid.symm.trans hid'
      exact hunmarked hmarked
    cases event with
    | none =>
      have hmem := hspec.took.perm.mem_iff.mp he
      rw [hspec.nil, List.append_nil, List.append_nil] at hmem
      exact absurd hmem (hdropped _ _ _ hspec.took)
    | some event =>
      obtain ⟨hpopped, -⟩ := hspec
      have hkeep : scheduler.pendingTasks id = some task := by
        rw [hpopped.keep]
        exact hpending
      have hunmarked' : id ∉ scheduler.cancelledTasks :=
        fun hmarked => hunmarked ((hpopped.took.cancelled id).mp hmarked).1
      rcases List.mem_append.mp (hpopped.perm.mem_iff.mp he) with hmem | hmem
      · exact absurd hmem (hdropped _ _ _ hpopped.took)
      rcases List.mem_cons.mp hmem with rfl | hmem
      · cases e with
        | component i time component event => cases hid
        | task i time id' =>
          cases hid
          have hbegin : (scheduler.beginTask id).1 = some task := by
            rw [beginTask, if_neg hunmarked', hkeep]
          simp only [hbegin, Option.map_some] at hexecute
          exact ⟨[.execute policy], _, _, Machine.run_cons.mpr ⟨_, _, [], hexecute, rfl, rfl⟩, _,
            List.mem_singleton_self _⟩
      · have hlength := hpopped.perm.length_eq
        rw [List.length_append, List.length_cons] at hlength
        obtain ⟨ops, s', answers, hrun, event, hmem⟩ := ih scheduler.events.toList.length (by omega)
          (s := ⟨{ s.session with scheduler }, s.running⟩) hstepped.wf hrunning hkeep hmem hunmarked' rfl
        exact ⟨.popWithPolicy policy :: ops, s', _,
          Machine.run_cons.mpr ⟨_, _, answers, hstep, hrun, rfl⟩, event,
          List.mem_cons_of_mem _ hmem⟩

/-- The code of a task returns so that the task is scheduled again. -/
theorem exists_finish (h : s.session.Wf) (hreschedules : s.Reschedules id) :
    ∃ ok u o again, s.step (.finish (φ := φ) ok none) = some (u, o) ∧ u.running = none ∧
      u.session.scheduler.pendingTasks id = some again ∧ ∃ e ∈ u.session.scheduler.events.toList,
      e.taskId = some id := by
  obtain ⟨previous, frames, task, ok, ⟨delay, again⟩, hframes, hrunning, hagain, hcount⟩ := hreschedules
  have hexecuting : s.session.scheduler.executingTaskId = some id := by
    rw [h.executing, Session.running, hframes]
    rfl
  have hstep : s.step (.finish (φ := φ) ok none) =
      some (⟨⟨(s.session.scheduler.scheduleTaskAt
        (s.session.scheduler.clock + delay) id again).endTask id previous (task.output none),
        frames⟩, none⟩, .finished
          (.scheduled (.task (s.session.scheduler.nextEventId + 1)
            (s.session.scheduler.clock + delay) id))) := by
    simp only [step, hrunning, Option.bind_some, hagain, Session.step, hframes, Session.reschedule,
      hexecuting, hcount, if_true,
      Option.map_some]
  refine ⟨ok, _, _, again, hstep, rfl, ?_, .task (s.session.scheduler.nextEventId + 1)
    (s.session.scheduler.clock + delay) id, ?_, rfl⟩
  · rw [pendingTasks_endTask, pendingTasks_scheduleTaskAt, Function.update_self]
  · rw [events_endTask]
    exact BinaryHeap.mem_push.mpr (.inl rfl)

/-- A task that runs and can schedule itself again is not stopped. -/
theorem not_stops_of_reschedules (policy : φ) (h : s.session.Wf) (hreschedules : s.Reschedules id) :
    ¬Stops φ s id := by
  intro hstops
  -- the task is not pending, so that the cancellation leaves it as it is
  have hcancelled :
      Reschedules { s with session := { s.session with scheduler := (s.session.scheduler.cancelTask id).2 } } id := by
    obtain ⟨previous, frames, task, ok, again, hframes, hrunning, hagain, hcount⟩ := hreschedules
    refine ⟨previous, frames, task, ok, again, hframes, hrunning, hagain, ?_⟩
    rw [nextEventId_cancelTask]
    exact hcount
  obtain ⟨ok, u, o, again, hfinish, hrunning, hpending, e, he, hid⟩ :=
    exists_finish (φ := φ) (h.cancelTask id) hcancelled
  obtain ⟨ops, s', answers, hrun, event, hmem⟩ :=
    exists_executed policy (step_kept (h.cancelTask id) hfinish).wf hrunning hpending he hid
  have hrun : Machine.run step s (.cancelTask id :: .finish ok none :: ops) = some (s', _ :: o :: answers) :=
    Machine.run_cons.mpr ⟨_, _, _, rfl, Machine.run_cons.mpr ⟨u, o, answers, hfinish, hrun, rfl⟩, rfl⟩
  exact hstops _ s' _ hrun event (List.mem_cons_of_mem _ (List.mem_cons_of_mem _ hmem))

/-- In every state that a run leads to, a cancellation stops a task that would run again exactly
when its execution is pending. -/
theorem run_stops_iff {idSeed : BitVec 64} (hrun : Machine.run step (fresh idSeed : TaskSystem ε κ ρ) ops = some (s, answers))
    (policy : φ) (hagain : s.RunsAgain id) : Stops φ s id ↔ s.session.scheduler.pendingTasks id ≠ none := by
  have h : s.session.Wf := run_wf (Session.wf_fresh idSeed) hrun
  refine ⟨fun hstops => ?_, stops_of_pending h⟩
  exact hagain.resolve_right fun hreschedules => not_stops_of_reschedules policy h hreschedules hstops

/-- The first attempt of a `RetryTask` fails. -/
def failedAttempt : List (Op Unit Nat Nat FifoFrontierPolicy) :=
  [.scheduleTask .zero (.retry (.new 0 3 (.saturate 5))), .execute ⟨⟩, .finish false (some 1)]

/-- A retry is cancelled between two attempts. -/
theorem run_stops_iff_failedAttempt : ∃ (s : TaskSystem Unit Nat Nat) (answers : List (Answer Unit Nat)),
    Machine.run step (fresh 7) failedAttempt = some (s, answers) ∧ s.session.scheduler.pendingTasks (taskIdAt 7 1) ≠ none ∧
      Stops FifoFrontierPolicy s (taskIdAt 7 1) := by
  have hrun : (Machine.run step (fresh 7 : TaskSystem Unit Nat Nat) failedAttempt).map
      (fun r => (r.1.session.scheduler.pendingTasks (taskIdAt 7 1)).isSome) = some true := by
    decide +kernel
  obtain ⟨⟨s, answers⟩, hrun, hpending⟩ := Option.map_eq_some_iff.mp hrun
  have hpending := Option.isSome_iff_ne_none.mp hpending
  exact ⟨s, answers, hrun, hpending, (run_stops_iff hrun ⟨⟩ (.inl hpending)).mpr hpending⟩

/-- A periodic task is cancelled by its own callback, and its callback is called again. -/
theorem not_stops_withinCallback : ∃ (s : TaskSystem Unit Nat Nat) (answers : List (Answer Unit Nat)),
    Machine.run step (fresh 7) [Op.scheduleTask (φ := FifoFrontierPolicy) .zero (.periodic (.new 0 (.saturate 5))), .execute ⟨⟩] =
      some (s, answers) ∧ s.RunsAgain (taskIdAt 7 1) ∧ ¬Stops FifoFrontierPolicy s (taskIdAt 7 1) := by
  refine ⟨_, _, rfl, .inr ⟨none, [], _, true, _, rfl, rfl, rfl, by decide⟩, fun hstops => ?_⟩
  exact hstops [.finish true none, .execute ⟨⟩] _ _ rfl _
    (List.mem_cons_of_mem _ (List.mem_cons_of_mem _ (List.mem_singleton_self _)))

end DesCartes.TaskSystem
