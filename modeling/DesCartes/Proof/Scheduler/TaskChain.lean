import DesCartes.Proof.Scheduler.TaskSystem

/-!
# The executions of one task

What the scheduler has of a task is a `Phase`: an execution is pending, the code of the task runs,
or it is not called again. `moves_step`: what each operation, of the task or of anything else, does
to the phase, to the results that are stored under the id of the task, and to the clock. `Observed`
records the calls of the task's code along a run.
-/

namespace DesCartes.TaskSystem

open Scheduler

variable {ε κ ρ φ : Type} {s s' : TaskSystem ε κ ρ} {id : TaskId}

/-! ## Steps -/

section
variable [EventFrontierPolicy φ] {o : Answer ε ρ}

theorem step_schedule {delay : SimTime} {component : Uuid} {event : ε}
    (hstep : s.step (.schedule (φ := φ) delay component event) = some (s', o)) :
    s' = { s with session := { s.session with scheduler := s.session.scheduler.schedule delay component event } } ∧
      ∃ answer, o = .called (.scheduled answer) := by
  obtain ⟨⟨session, answer⟩, hcall, heq⟩ := Option.map_eq_some_iff.mp hstep
  cases heq
  simp only [Session.step] at hcall
  split at hcall <;> cases hcall
  exact ⟨rfl, _, rfl⟩

theorem step_scheduleTask {delay : SimTime} {task : TaskExecution κ}
    (hstep : s.step (.scheduleTask (φ := φ) delay task) = some (s', o)) :
    s.session.scheduler.nextTaskId < u64Max ∧
      s' = { s with session := { s.session with scheduler := (s.session.scheduler.scheduleTask delay task).2 } } ∧
      ∃ answer, o = .called (.scheduled answer) := by
  obtain ⟨⟨session, answer⟩, hcall, heq⟩ := Option.map_eq_some_iff.mp hstep
  cases heq
  simp only [Session.step] at hcall
  split at hcall <;> cases hcall
  rename_i hn
  exact ⟨hn.1, rfl, _, rfl⟩

/-- What a pop returns, and what it leaves. -/
def Pops (scheduler : Scheduler ε (TaskExecution κ) ρ) (event : Option (EventEntry ε))
    (scheduler' : Scheduler ε (TaskExecution κ) ρ)
    (dropped : List (EventEntry ε)) : Prop :=
  match event with
  | none => Exhausted scheduler scheduler' dropped
  | some e => Popped scheduler scheduler' dropped e

theorem pops_popWithPolicy (scheduler : Scheduler ε (TaskExecution κ) ρ) (policy : φ) :
    ∃ dropped, Pops scheduler (scheduler.popWithPolicy policy).1
      (scheduler.popWithPolicy policy).2.1 dropped := by
  obtain ⟨d, hspec⟩ := popWithPolicy_spec scheduler policy
  generalize scheduler.popWithPolicy policy = popped at hspec
  obtain ⟨event, scheduler', policy'⟩ := popped
  cases event with
  | none => exact ⟨d, hspec⟩
  | some event => exact ⟨d, hspec.1⟩

theorem step_pop (hstep : s.step (.pop (φ := φ)) = some (s', o)) : ∃ event scheduler dropped,
    Pops s.session.scheduler event scheduler dropped ∧
    s' = { s with session := { s.session with scheduler } } ∧
      o = .called (.popped event) := by
  cases hstep
  obtain ⟨d, hspec⟩ := pop_spec s.session.scheduler
  refine ⟨s.session.scheduler.pop.1, s.session.scheduler.pop.2, d, ?_, rfl, rfl⟩
  generalize s.session.scheduler.pop = popped at hspec
  obtain ⟨event, scheduler⟩ := popped
  cases event with
  | none => exact hspec
  | some event => exact hspec.1

theorem step_popWithPolicy {policy : φ} (hstep : s.step (.popWithPolicy policy) = some (s', o)) :
    ∃ event scheduler dropped,
    Pops s.session.scheduler event scheduler dropped ∧ s' =
      { s with session := { s.session with scheduler } } ∧
      o = .called (.popped event) := by
  cases hstep
  obtain ⟨d, hpops⟩ := pops_popWithPolicy s.session.scheduler policy
  exact ⟨_, _, d, hpops, rfl, rfl⟩

/-- The code that runs returns, and its task is scheduled again or not. -/
inductive Finishes (s : TaskSystem ε κ ρ) (ok : Bool) (value : Option ρ) (id : TaskId) : TaskSystem ε κ ρ → Prop
  | ended {task : TaskExecution κ} {previous : Option TaskId} {frames : List (TaskId × Option TaskId)}
      (running : s.running = some task) (stack : s.session.frames = (id, previous) :: frames)
      (execute : task.execute ok = some none) :
      Finishes s ok value id ⟨⟨s.session.scheduler.endTask id previous (task.output value), frames⟩, none⟩
  | again {task task' : TaskExecution κ} {delay : SimTime} {id' : TaskId} {previous : Option TaskId}
      {frames : List (TaskId × Option TaskId)} (running : s.running = some task)
      (stack : s.session.frames = (id, previous) :: frames)
      (execute : task.execute ok = some (some (delay, task'))) (executing : s.session.scheduler.executingTaskId = some id') :
      Finishes s ok value id
        ⟨⟨(s.session.scheduler.scheduleTaskAt (s.session.scheduler.clock + delay) id' task').endTask id previous (task.output value),
          frames⟩, none⟩

theorem step_finish {ok : Bool} {value : Option ρ}
    (hstep : s.step (.finish (φ := φ) ok value) = some (s', o)) :
    ∃ id answer, Finishes s ok value id s' ∧ o = .finished answer := by
  obtain ⟨task, hrunning, hstep⟩ := Option.bind_eq_some_iff.mp hstep
  obtain ⟨again, hagain, hstep⟩ := Option.bind_eq_some_iff.mp hstep
  obtain ⟨⟨session, answer⟩, hfinish, heq⟩ := Option.map_eq_some_iff.mp hstep
  cases heq
  simp only [Session.step] at hfinish
  split at hfinish
  · cases hfinish
  rename_i id previous frames hframes
  cases again with
  | none =>
    cases hfinish
    exact ⟨id, _, .ended hrunning hframes hagain, rfl⟩
  | some again =>
    obtain ⟨q, hq, heq⟩ := Option.map_eq_some_iff.mp hfinish
    cases heq
    unfold Session.reschedule at hq
    split at hq
    · cases hq
    rename_i executing hexecuting
    split at hq <;> cases hq
    exact ⟨id, _, .again hrunning hframes hagain hexecuting, rfl⟩

theorem Finishes.head {ok : Bool} {value : Option ρ} (h : Finishes s ok value id s') :
    s.session.running.head? = some id := by
  cases h with
  | ended hrunning hframes hexecute => rw [Session.running, hframes]; rfl
  | again hrunning hframes hexecute hexecuting => rw [Session.running, hframes]; rfl

end

/-! ## Phases -/

/-- What there is of a task. -/
inductive Phase (κ : Type) where
  /-- It is executed at a time. -/
  | pending (due : SimTime) (task : TaskExecution κ)
  /-- Its event was popped by other code than the loop. -/
  | lost
  | running (task : TaskExecution κ)
  /-- It was cancelled. -/
  | dead
  /-- It has returned, and was not scheduled again. -/
  | ended

/-- The task is in the phase. -/
def At (s : TaskSystem ε κ ρ) (id : TaskId) : Phase κ → Prop
  | .pending due task => s.session.scheduler.pendingTasks id = some task ∧
      ∃ i, .task i due id ∈ s.session.scheduler.events.toList
  | .lost => s.session.scheduler.pendingTasks id ≠ none ∧ ∀ e ∈ s.session.scheduler.events.toList, e.taskId ≠ some id
  | .running task => s.running = some task ∧ ∃ previous frames, s.session.frames = (id, previous) :: frames
  | .dead => s.session.Dead id
  | .ended => s.session.Dead id ∧ ∀ e ∈ s.session.scheduler.events.toList, e.taskId ≠ some id

/-- The task is left alone. -/
structure Leaves (s s' : TaskSystem ε κ ρ) (id : TaskId) : Prop where
  pending : s'.session.scheduler.pendingTasks id = s.session.scheduler.pendingTasks id
  events : ∀ e, e.taskId = some id → (e ∈ s'.session.scheduler.events.toList ↔ e ∈ s.session.scheduler.events.toList)
  stored : s'.session.scheduler.completedTaskResults id = s.session.scheduler.completedTaskResults id

theorem Leaves.at {ph : Phase κ} (h : Leaves s s' id) (hat : s.At id ph) (hrun : ∀ task, ph ≠ .running task)
    (hdead : s.session.Dead id → s'.session.Dead id) : s'.At id ph := by
  cases ph with
  | pending due task =>
    obtain ⟨hpending, i, hi⟩ := hat
    exact ⟨h.pending.trans hpending, i, (h.events _ rfl).mpr hi⟩
  | lost =>
    exact ⟨fun hp => hat.1 (h.pending.symm.trans hp), fun e he hid => hat.2 e ((h.events e hid).mp he) hid⟩
  | running task => exact absurd rfl (hrun task)
  | dead => exact hdead hat
  | ended => exact ⟨hdead hat.1, fun e he hid => hat.2 e ((h.events e hid).mp he) hid⟩

/-- The code of the task runs if it is on the stack. -/
theorem At.eq_running {ph : Phase κ} {task : TaskExecution κ} (hs : s.session.Wf) (hat : s.At id ph)
    (hmem : id ∈ s.session.running) (hrunning : s.running = some task) : ph = .running task := by
  have hout := hs.running_out id hmem
  cases ph with
  | pending due task' => exact absurd (hat.1.symm.trans hout.1) (Option.some_ne_none task')
  | lost => exact absurd hout.1 hat.1
  | running task' => exact congrArg Phase.running (Option.some.inj (hat.1.symm.trans hrunning))
  | dead => exact absurd hmem hat.running
  | ended => exact absurd hmem hat.1.running

theorem At.allocated {ph : Phase κ} (hs : s.session.Wf) (hat : s.At id ph) :
    s.session.scheduler.Allocated id := by
  cases ph with
  | pending due task => exact hs.pending_known id (by rw [hat.1]; exact Option.some_ne_none task)
  | lost => exact hs.pending_known id hat.1
  | running task =>
    obtain ⟨-, previous, frames, hframes⟩ := hat
    refine hs.running_known id ?_
    rw [Session.running, hframes]
    exact List.mem_cons_self
  | dead => exact hat.known
  | ended => exact hat.1.known

/-! ## Popping -/

/-- What a pop takes of a task that is not marked: its event, if it is the one that is popped. -/
theorem popped_events {r : Session ε (TaskExecution κ) ρ}
    {scheduler : Scheduler ε (TaskExecution κ) ρ} {d : List (EventEntry ε)} {e x : EventEntry ε}
    (hp : Popped r.scheduler scheduler d e) (hmark : id ∉ r.scheduler.cancelledTasks)
    (hx : x.taskId = some id) :
    x ∈ r.scheduler.events.toList ↔ x = e ∨ x ∈ scheduler.events.toList := by
  rw [hp.perm.mem_iff, List.mem_append, List.mem_cons]
  refine ⟨fun h => h.resolve_left fun hd => ?_, .inr⟩
  obtain ⟨id', hid', hx'⟩ := hp.took.dropped x hd
  cases hx.symm.trans hx'
  exact hmark hid'

theorem popped_once {r : Session ε (TaskExecution κ) ρ}
    {scheduler : Scheduler ε (TaskExecution κ) ρ} {d : List (EventEntry ε)} {e : EventEntry ε}
    (hr : r.Wf) (hp : Popped r.scheduler scheduler d e) (he : e.taskId = some id) :
    ∀ x ∈ scheduler.events.toList, x.taskId ≠ some id := by
  intro x hx hid
  have hone := ((hp.perm.filterMap EventEntry.taskId).nodup_iff).mp hr.one
  rw [List.filterMap_append] at hone
  have htail := hone.of_append_right
  rw [List.filterMap_cons_some he] at htail
  exact (List.nodup_cons.mp htail).1 (List.mem_filterMap.mpr ⟨x, hx, hid⟩)

/-- A pop that returns an event: the task's own, which is then lost, or another one. -/
theorem At.popped {ph : Phase κ} {scheduler : Scheduler ε (TaskExecution κ) ρ}
    {d : List (EventEntry ε)} {e : EventEntry ε} (hs : s.session.Wf) (hat : s.At id ph)
    (hp : Popped s.session.scheduler scheduler d e) :
    e.taskId ≠ some id ∧ At { s with session := { s.session with scheduler } } id ph ∨
      ∃ i due task, e = .task i due id ∧ ph = .pending due task ∧
        At { s with session := { s.session with scheduler } } id .lost := by
  have hin : e ∈ s.session.scheduler.events.toList :=
    hp.perm.mem_iff.mpr (List.mem_append_right _ List.mem_cons_self)
  have hpending : scheduler.pendingTasks id = s.session.scheduler.pendingTasks id := by rw [hp.keep]
  cases ph with
  | pending due task =>
    obtain ⟨hpend, i, hi⟩ := hat
    have hmark : id ∉ s.session.scheduler.cancelledTasks := fun hm => by
      rw [(hs.marked id hm).2.1] at hpend
      cases hpend
    rcases (popped_events hp hmark rfl).mp hi with rfl | hi
    · refine .inr ⟨i, due, task, rfl, rfl, ?_, popped_once hs hp rfl⟩
      rw [hpending, hpend]
      exact Option.some_ne_none task
    · exact .inl ⟨fun he => popped_once hs hp he _ hi rfl, hpending.trans hpend, i, hi⟩
  | lost =>
    refine .inl ⟨hat.2 e hin, fun hnone => hat.1 (hpending.symm.trans hnone), fun x hx => hat.2 x ?_⟩
    exact hp.perm.mem_iff.mpr (List.mem_append_right _ (List.mem_cons_of_mem _ hx))
  | running task =>
    obtain ⟨hrunning, previous, frames, hframes⟩ := hat
    have hmem : id ∈ s.session.running := by
      rw [Session.running, hframes]
      exact List.mem_cons_self
    exact .inl ⟨(hs.running_out id hmem).2 e hin, hrunning, previous, frames, hframes⟩
  | dead =>
    have hdead := (hs.popped hp).dead id hat
    exact .inl ⟨hdead.2 e rfl, hdead.1⟩
  | ended =>
    refine .inl ⟨hat.2 e hin, ((hs.popped hp).dead id hat.1).1, fun x hx => hat.2 x ?_⟩
    exact hp.perm.mem_iff.mpr (List.mem_append_right _ (List.mem_cons_of_mem _ hx))

theorem At.exhausted {ph : Phase κ} {scheduler : Scheduler ε (TaskExecution κ) ρ}
    {d : List (EventEntry ε)} (hs : s.session.Wf) (hat : s.At id ph)
    (he : Exhausted s.session.scheduler scheduler d) :
    At { s with session := { s.session with scheduler } } id ph := by
  have hpending : scheduler.pendingTasks id = s.session.scheduler.pendingTasks id := by rw [he.took.keep]
  cases ph with
  | pending due task =>
    obtain ⟨hpend, i, hi⟩ := hat
    have hmem := he.took.perm.mem_iff.mp hi
    rw [he.nil, List.append_nil, List.append_nil] at hmem
    obtain ⟨id', hid', hx⟩ := he.took.dropped _ hmem
    cases hx
    rw [(hs.marked id hid').2.1] at hpend
    cases hpend
  | lost =>
    refine ⟨fun hnone => hat.1 (hpending.symm.trans hnone), fun x hx => ?_⟩
    rw [he.nil] at hx
    cases hx
  | running task => exact hat
  | dead => exact ((hs.exhausted he).dead id hat).1
  | ended =>
    refine ⟨((hs.exhausted he).dead id hat.1).1, fun x hx => ?_⟩
    rw [he.nil] at hx
    cases hx

/-! ## Observations -/

/-- What is observed when the code of a task returns. -/
structure Returned (ρ : Type) where
  time : SimTime
  ok : Bool
  value : Option ρ

/-- The code of the task is called. -/
def Answer.calls (id : TaskId) : Answer ε ρ → Bool
  | .executed _ (some id') => id' = id
  | _ => false

/-- The task is cancelled, or its event is popped by other code than the loop. -/
def Answer.stops (id : TaskId) : Answer ε ρ → Bool
  | .called (.cancelled id' ok) => ok && id' = id
  | .called (.popped (some e)) => e.taskId = some id
  | _ => false

/-- The code of the task returns. -/
def returns (s : TaskSystem ε κ ρ) (id : TaskId) : Op ε κ ρ φ → Option (Returned ρ)
  | .finish ok value => if s.session.running.head? = some id then some ⟨s.session.scheduler.clock, ok, value⟩ else none
  | _ => none

/-- The results of the task that are retrieved. -/
def takes (id : TaskId) : Op ε κ ρ φ → Answer ε ρ → List ρ
  | .getTaskResult id', .result value => if id' = id then value.toList else []
  | _, _ => []

/-- The result that is stored under the id. -/
def stored (s : TaskSystem ε κ ρ) (id : TaskId) : Option ρ := s.session.scheduler.completedTaskResults id

/-- What an operation does to the task. -/
inductive Moves (s s' : TaskSystem ε κ ρ) (id : TaskId) (op : Op ε κ ρ φ) (o : Answer ε ρ) : Phase κ → Phase κ → Prop
  | stays {ph : Phase κ} (calls : o.calls id = false) (stops : o.stops id = false) (returns : s.returns id op = none)
      (stored : takes id op o ++ (s'.stored id).toList = (s.stored id).toList) : Moves s s' id op o ph ph
  | stopped {ph ph' : Phase κ} (calls : o.calls id = false) (stops : o.stops id = true) (returns : s.returns id op = none)
      (stored : takes id op o ++ (s'.stored id).toList = (s.stored id).toList)
      (alive : (∃ due task, ph = .pending due task) ∨ ph = .lost) (gone : ph' = .lost ∨ ph' = .dead) : Moves s s' id op o ph ph'
  | executed {due : SimTime} {task : TaskExecution κ} (calls : o.calls id = true) (stops : o.stops id = false)
      (returns : s.returns id op = none) (stored : takes id op o ++ (s'.stored id).toList = (s.stored id).toList)
      (clock : s'.session.scheduler.clock = due) : Moves s s' id op o (.pending due task) (.running task)
  | again {task task' : TaskExecution κ} {delay : SimTime} {ok : Bool} {value : Option ρ} (calls : o.calls id = false)
      (stops : o.stops id = false) (returns : s.returns id op = some ⟨s.session.scheduler.clock, ok, value⟩)
      (stored : takes id op o ++ (s'.stored id).toList = (s.stored id).toList)
      (execute : task.execute ok = some (some (delay, task'))) :
      Moves s s' id op o (.running task) (.pending (s.session.scheduler.clock + delay) task')
  | ended {task : TaskExecution κ} {ok : Bool} {value : Option ρ} (calls : o.calls id = false)
      (stops : o.stops id = false) (returns : s.returns id op = some ⟨s.session.scheduler.clock, ok, value⟩)
      (takes : takes id op o = []) (stored : s'.stored id = (task.output value).or (s.stored id))
      (execute : task.execute ok = some none) : Moves s s' id op o (.running task) .ended

/-! ## Operations -/

section
variable {op : Op ε κ ρ φ} {o : Answer ε ρ} {ph : Phase κ}

/-- An operation that is not about the task. -/
theorem moves_of_leaves (hat : s.At id ph) (hleaves : Leaves s s' id)
    (hrun : ∀ task, ph = .running task → s'.running = s.running ∧ s'.session.frames = s.session.frames)
    (hdead : s.session.Dead id → s'.session.Dead id) (hcalls : o.calls id = false)
    (hstops : o.stops id = false) (hreturns : s.returns id op = none)
    (htakes : takes id op o = []) :
    ∃ ph', s'.At id ph' ∧ Moves s s' id op o ph ph' := by
  refine ⟨ph, ?_, .stays hcalls hstops hreturns ?_⟩
  · cases ph with
    | running task =>
      obtain ⟨hrunning, hframes⟩ := hrun task rfl
      exact ⟨hrunning.trans hat.1, hat.2.imp fun previous => Exists.imp fun frames => hframes.trans⟩
    | pending due task => exact hleaves.at hat (by rintro _ ⟨⟩) hdead
    | lost => exact hleaves.at hat (by rintro _ ⟨⟩) hdead
    | dead => exact hleaves.at hat (by rintro _ ⟨⟩) hdead
    | ended => exact hleaves.at hat (by rintro _ ⟨⟩) hdead
  · rw [htakes, List.nil_append]
    exact congrArg Option.toList hleaves.stored

theorem moves_cancelTask (hs : s.session.Wf) (hat : s.At id ph) (id' : TaskId) :
    let s' : TaskSystem ε κ ρ := { s with session := { s.session with scheduler := (s.session.scheduler.cancelTask id').2 } }
    ∃ ph', s'.At id ph' ∧
      Moves (φ := φ) s s' id (.cancelTask id')
        (.called (.cancelled id' (s.session.scheduler.cancelTask id').1)) ph ph' := by
  intro s'
  have hstored : s'.stored id = s.stored id := by
    simp only [s', stored, cancelTask]
    split <;> rfl
  have hevents : s'.session.scheduler.events = s.session.scheduler.events := events_cancelTask ..
  have hpending : s'.session.scheduler.pendingTasks id =
      Function.update s.session.scheduler.pendingTasks id' none id :=
    congrFun (pendingTasks_cancelTask ..) id
  by_cases heq : id' = id
  · subst heq
    cases hpend : s.session.scheduler.pendingTasks id' with
    | none =>
      have hleaves : Leaves s s' id' := by
        refine ⟨?_, fun e _ => by rw [hevents], hstored⟩
        rw [hpending, Function.update_self, hpend]
      refine moves_of_leaves hat hleaves (fun _ _ => ⟨rfl, rfl⟩)
        (fun hdead => hdead.cancelTask id') rfl ?_ rfl rfl
      rw [fst_cancelTask, hpend]
      rfl
    | some task =>
      have hok : (s.session.scheduler.cancelTask id').1 = true := by
        rw [fst_cancelTask, hpend]
        rfl
      refine ⟨.dead, hs.dead_cancelTask hok, .stopped rfl ?_ rfl ?_ ?_ (.inr rfl)⟩
      · rw [hok]
        exact decide_eq_true rfl
      · exact congrArg Option.toList hstored
      · cases ph with
        | pending due task => exact .inl ⟨due, task, rfl⟩
        | lost => exact .inr rfl
        | running task' =>
          obtain ⟨-, previous, frames, hframes⟩ := hat
          have hmem : id' ∈ s.session.running := by
            rw [Session.running, hframes]
            exact List.mem_cons_self
          exact absurd (hpend.symm.trans (hs.running_out id' hmem).1) (Option.some_ne_none task)
        | dead => exact absurd (hpend.symm.trans hat.pending) (Option.some_ne_none task)
        | ended => exact absurd (hpend.symm.trans hat.1.pending) (Option.some_ne_none task)
  · have hleaves : Leaves s s' id := by
      refine ⟨?_, fun e _ => by rw [hevents], hstored⟩
      rw [hpending, Function.update_of_ne (Ne.symm heq)]
    refine moves_of_leaves hat hleaves (fun _ _ => ⟨rfl, rfl⟩)
      (fun hdead => hdead.cancelTask id') rfl ?_ rfl rfl
    rw [Answer.stops, decide_eq_false heq, Bool.and_false]

/-- An event is popped by other code than the loop. -/
theorem moves_popped {event : Option (EventEntry ε)} {scheduler : Scheduler ε (TaskExecution κ) ρ}
    {d : List (EventEntry ε)} (hs : s.session.Wf) (hat : s.At id ph)
    (hpops : Pops s.session.scheduler event scheduler d) (hreturns : s.returns id op = none)
    (htakes : takes id op (.called (.popped event) : Answer ε ρ) = []) :
    ∃ ph', At { s with session := { s.session with scheduler } } id ph' ∧
      Moves s { s with session := { s.session with scheduler } } id op (.called (.popped event)) ph ph' := by
  cases event with
  | none =>
    have hstored : scheduler.completedTaskResults id = s.session.scheduler.completedTaskResults id := by
      rw [hpops.took.keep]
    refine ⟨ph, hat.exhausted hs hpops, .stays rfl rfl hreturns ?_⟩
    rw [htakes]
    exact congrArg Option.toList hstored
  | some e =>
    have hstored : scheduler.completedTaskResults id = s.session.scheduler.completedTaskResults id := by
      rw [hpops.keep]
    rcases hat.popped hs hpops with ⟨hne, hat'⟩ | ⟨i, due, task, rfl, rfl, hat'⟩
    · refine ⟨ph, hat', .stays rfl (decide_eq_false hne) hreturns ?_⟩
      rw [htakes]
      exact congrArg Option.toList hstored
    · refine ⟨.lost, hat', .stopped rfl (decide_eq_true rfl) hreturns ?_ (.inl ⟨due, task, rfl⟩) (.inl rfl)⟩
      rw [htakes]
      exact congrArg Option.toList hstored

end

section
variable [EventFrontierPolicy φ]

/-- Another task is started. -/
theorem leaves_start {r : Session ε (TaskExecution κ) ρ} {id' : TaskId} (hne : id' ≠ id) (i : Nat)
    (t : SimTime) (running running' : Option (TaskExecution κ)) :
    Leaves ⟨r, running⟩ ⟨r.start (some (.task i t id')), running'⟩ id := by
  simp only [Session.start]
  rcases beginTask_cases r.scheduler id' with ⟨task, -, -, hbegin⟩ | hbegin
  · rw [hbegin]
    exact ⟨Function.update_of_ne hne.symm _ _, fun _ _ => Iff.rfl, rfl⟩
  · rw [hbegin]
    exact ⟨rfl, fun _ _ => Iff.rfl, rfl⟩

/-- The loop pops an event. -/
theorem moves_execute {ph : Phase κ} (hs : s.session.Wf) (hat : s.At id ph)
    (hrunning : s.running = none) (policy : φ) :
    ∃ ph', (s.execute policy).1.At id ph' ∧
    Moves s (s.execute policy).1 id (.execute policy) (s.execute policy).2 ph ph' := by
  have hnot : ∀ task, ph ≠ .running task := by
    rintro task rfl
    exact absurd (hrunning.symm.trans hat.1) (Option.some_ne_none task).symm
  obtain ⟨session, running⟩ := s
  cases hrunning
  obtain ⟨d, hpops⟩ := pops_popWithPolicy session.scheduler policy
  unfold execute
  generalize session.scheduler.popWithPolicy policy = popped at hpops
  obtain ⟨event, scheduler, policy'⟩ := popped
  change Pops session.scheduler event scheduler d at hpops
  cases event with
  | none =>
    have hstored : scheduler.completedTaskResults id = session.scheduler.completedTaskResults id := by
      rw [hpops.took.keep]
    exact ⟨ph, hat.exhausted hs hpops, .stays rfl rfl rfl (congrArg Option.toList hstored)⟩
  | some event =>
    have hstored : scheduler.completedTaskResults id = session.scheduler.completedTaskResults id := by
      rw [hpops.keep]
    have hpopped := hat.popped hs hpops
    cases event with
    | component i time component event =>
      rcases hpopped with ⟨-, hat'⟩ | ⟨_, _, _, ⟨⟩, -⟩
      exact ⟨ph, hat', .stays rfl rfl rfl (congrArg Option.toList hstored)⟩
    | task i time id' =>
      rcases hpopped with ⟨hne, hat'⟩ | ⟨_, due, task, heq, rfl, hat'⟩
      · have hne : id' ≠ id := fun h => hne (congrArg some h)
        have hleaves := leaves_start (r := { session with scheduler }) hne i time none
          (scheduler.beginTask id').1
        have hcalls :
            (Answer.executed (some (.task i time id')) ((scheduler.beginTask id').1.map fun _ => id') :
            Answer ε ρ).calls id = false := by
          cases (scheduler.beginTask id').1 with
          | none => rfl
          | some task => exact decide_eq_false hne
        refine ⟨ph, ?_, .stays hcalls rfl rfl (congrArg Option.toList (hleaves.stored.trans hstored))⟩
        refine hleaves.at hat' hnot fun hdead => ?_
        exact hdead.start (hs.startable hpops) i time
      · cases heq
        have hpending : scheduler.pendingTasks id = some task := by
          rw [hpops.keep]
          exact hat.1
        have hbegin : scheduler.beginTask id = (some task, { scheduler with
            pendingTasks := Function.update scheduler.pendingTasks id none, executingTaskId :=
            some id }) := by
          have hmark : id ∉ scheduler.cancelledTasks := hpops.took.live _ (List.mem_singleton_self _) id rfl
          rw [beginTask, if_neg hmark, hpending]
        have hstart : Session.start { session with scheduler } (some (.task i time id)) =
            ⟨(scheduler.beginTask id).2, (id, scheduler.executingTaskId) :: session.frames⟩ := by
          simp only [Session.start, hbegin]
        simp only [hstart, hbegin]
        exact ⟨.running task, ⟨rfl, _, _, rfl⟩,
          .executed (decide_eq_true rfl) rfl rfl (congrArg Option.toList hstored) hpops.clock⟩

theorem completedTaskResults_endTask_of_ne {scheduler : Scheduler ε (TaskExecution κ) ρ}
    {id' : TaskId} (hne : id' ≠ id) (previous : Option TaskId) (result : Option ρ) :
    (scheduler.endTask id' previous result).completedTaskResults id = scheduler.completedTaskResults id := by
  simp only [endTask]
  split
  · rfl
  · cases result with
    | none => rfl
    | some value => exact Function.update_of_ne hne.symm _ _

theorem completedTaskResults_endTask_self {scheduler : Scheduler ε (TaskExecution κ) ρ}
    (previous : Option TaskId) (result : Option ρ) :
    (scheduler.endTask id previous result).completedTaskResults id =
      if (scheduler.pendingTasks id).isSome then scheduler.completedTaskResults id
      else result.or (scheduler.completedTaskResults id) := by
  simp only [endTask]
  split
  · rfl
  · cases result with
    | none => rfl
    | some value => exact Function.update_self ..

/-- The code of another task returns. -/
theorem leaves_finish {ok : Bool} {value : Option ρ} {id' : TaskId} (hs : s.session.Wf)
    (h : Finishes s ok value id' s') (hne : id' ≠ id) : Leaves s s' id := by
  have hexecuting := hs.executing.trans h.head
  cases h with
  | ended hrunning hframes hexecute =>
    refine ⟨?_, fun e _ => ?_, completedTaskResults_endTask_of_ne hne ..⟩
    · rw [pendingTasks_endTask]
    · rw [events_endTask]
  | again hrunning hframes hexecute hexecuting' =>
    cases hexecuting.symm.trans hexecuting'
    refine ⟨?_, fun e he => ?_, completedTaskResults_endTask_of_ne hne ..⟩
    · rw [pendingTasks_endTask, pendingTasks_scheduleTaskAt, Function.update_of_ne hne.symm]
    · rw [events_endTask, mem_events_scheduleTaskAt, or_iff_right]
      rintro rfl
      exact hne (Option.some.inj he)

/-- The code of a task returns. -/
theorem moves_finish {ph : Phase κ} (hs : s.session.Wf) (hat : s.At id ph) {ok : Bool}
    {value : Option ρ} {o : Answer ε ρ}
    (hstep : s.step (.finish (φ := φ) ok value) = some (s', o)) :
    ∃ ph', s'.At id ph' ∧ Moves s s' id (.finish (φ := φ) ok value) o ph ph' := by
  have hkept := step_kept hs hstep
  obtain ⟨id', answer, hfinishes, rfl⟩ := step_finish hstep
  have hhead := hfinishes.head
  by_cases hid : id' = id
  · subst hid
    have hmem : id' ∈ s.session.running := List.mem_of_head? hhead
    have hout := hs.running_out id' hmem
    have hreturns : s.returns id' (.finish (φ := φ) ok value) = some
      ⟨s.session.scheduler.clock, ok, value⟩ := by
      rw [returns, if_pos hhead]
    cases hfinishes with
    | ended hrunning hframes hexecute =>
      rename_i task previous frames
      cases hat.eq_running hs hmem hrunning
      have hstored : stored ⟨⟨s.session.scheduler.endTask id' previous (task.output value), frames⟩,
          none⟩ id' =
            (task.output value).or (s.stored id') := by
        rw [stored, completedTaskResults_endTask_self, hout.1]
        rfl
      have hnone : ∀ e ∈ (s.session.scheduler.endTask id' previous (task.output value)).events.toList,
          e.taskId ≠ some id' := by
        rw [events_endTask]
        exact hout.2
      refine ⟨.ended, ⟨⟨?_, ?_, ?_, fun e he hid => absurd hid (hnone e he)⟩, hnone⟩,
        .ended rfl rfl hreturns rfl hstored hexecute⟩
      · rw [endTask_eq]
        exact hs.running_known id' hmem
      · rw [pendingTasks_endTask, hout.1]
      · have hnodup := hs.running_nodup
        rw [Session.running, hframes] at hnodup
        exact (List.nodup_cons.mp hnodup).1
    | again hrunning hframes hexecute hexecuting =>
      rename_i task task' delay executing previous frames
      cases hat.eq_running hs hmem hrunning
      cases (hs.executing.trans hhead).symm.trans hexecuting
      have hpending :
          (s.session.scheduler.scheduleTaskAt
            (s.session.scheduler.clock + delay) id' task').pendingTasks id' = some task' := by
        rw [pendingTasks_scheduleTaskAt, Function.update_self]
      refine ⟨.pending (s.session.scheduler.clock + delay) task',
        ⟨?_, s.session.scheduler.nextEventId + 1, ?_⟩,
        .again rfl rfl hreturns (congrArg Option.toList ?_) hexecute⟩
      · rw [pendingTasks_endTask, hpending]
      · rw [events_endTask, mem_events_scheduleTaskAt]
        exact .inl rfl
      · rw [stored, completedTaskResults_endTask_self, hpending]
        rfl
  · have hreturns : s.returns id (.finish (φ := φ) ok value) = none := by
      rw [returns, hhead, if_neg fun h => hid (Option.some.inj h)]
    refine moves_of_leaves hat (leaves_finish hs hfinishes hid) ?_
      (fun hdead => (hkept.dead id hdead).1) rfl rfl hreturns rfl
    rintro task' rfl
    obtain ⟨-, previous', frames', hframes'⟩ := hat
    rw [Session.running, hframes'] at hhead
    exact absurd (Option.some.inj hhead).symm hid

/-- What an operation does to a task in a phase. -/
theorem moves_step {ph : Phase κ} (hs : s.session.Wf) (hat : s.At id ph) {op : Op ε κ ρ φ} {o : Answer ε ρ}
    (hstep : s.step op = some (s', o)) : ∃ ph', s'.At id ph' ∧ Moves s s' id op o ph ph' := by
  cases op with
  | schedule delay component event =>
    obtain ⟨rfl, answer, rfl⟩ := step_schedule hstep
    have hleaves :
        Leaves s { s with session := { s.session with scheduler := s.session.scheduler.schedule delay component event } } id := by
      refine ⟨rfl, fun e he => ?_, rfl⟩
      rw [mem_events_schedule, or_iff_right]
      rintro rfl
      cases he
    exact moves_of_leaves hat hleaves (fun _ _ => ⟨rfl, rfl⟩)
      (fun hdead => hdead.schedule delay component event) rfl rfl rfl rfl
  | scheduleTask delay task =>
    have hkept := step_kept hs hstep
    obtain ⟨hn, rfl, answer, rfl⟩ := step_scheduleTask hstep
    have hne : id ≠ (s.session.scheduler.scheduleTask delay task).1 := by
      rintro rfl
      exact not_allocated_next hn (hat.allocated hs)
    have hleaves :
        Leaves s { s with session := { s.session with scheduler := (s.session.scheduler.scheduleTask delay task).2 } } id := by
      refine ⟨Function.update_of_ne hne _ _, fun e he => ?_, rfl⟩
      rw [mem_events_scheduleTask, or_iff_right]
      rintro rfl
      exact hne (Option.some.inj he).symm
    exact moves_of_leaves hat hleaves (fun _ _ => ⟨rfl, rfl⟩)
      (fun hdead => (hkept.dead id hdead).1) rfl rfl rfl rfl
  | cancelTask id' =>
    cases hstep
    exact moves_cancelTask hs hat id'
  | getTaskResult id' =>
    cases hstep
    by_cases hid : id' = id
    · subst hid
      refine ⟨ph, ?_, .stays rfl rfl rfl ?_⟩
      · cases ph with
        | pending due task => exact hat
        | lost => exact hat
        | running task => exact hat
        | dead => exact ⟨hat.known, hat.pending, hat.running, hat.marked⟩
        | ended => exact ⟨⟨hat.1.known, hat.1.pending, hat.1.running, hat.1.marked⟩, hat.2⟩
      · have hnone : Function.update s.session.scheduler.completedTaskResults id' none id' = none :=
          Function.update_self ..
        rw [takes, if_pos rfl]
        exact (congrArg (fun value => (s.stored id').toList ++ value.toList) hnone).trans (List.append_nil _)
    · have hleaves :
          Leaves s { s with session := { s.session with scheduler := (s.session.scheduler.getTaskResult id').2 } } id :=
        ⟨rfl, fun e _ => Iff.rfl, Function.update_of_ne (Ne.symm hid) _ _⟩
      refine moves_of_leaves hat hleaves (fun _ _ => ⟨rfl, rfl⟩)
        (fun hdead => ⟨hdead.known, hdead.pending, hdead.running, hdead.marked⟩) rfl rfl rfl ?_
      rw [takes, if_neg hid]
  | pop =>
    obtain ⟨event, scheduler, d, hpops, rfl, rfl⟩ := step_pop hstep
    exact moves_popped hs hat hpops rfl rfl
  | popWithPolicy policy =>
    obtain ⟨event, scheduler, d, hpops, rfl, rfl⟩ := step_popWithPolicy hstep
    exact moves_popped hs hat hpops rfl rfl
  | execute policy =>
    rw [step] at hstep
    split at hstep
    · cases hstep
    · rename_i hrunning
      have hmoves := moves_execute hs hat (Option.not_isSome_iff_eq_none.mp hrunning) policy
      rw [Option.some.inj hstep] at hmoves
      exact hmoves
  | finish ok value => exact moves_finish hs hat hstep

end

/-! ## Stored results -/

section
variable [EventFrontierPolicy φ] {op : Op ε κ ρ φ} {o : Answer ε ρ}

/-- Results are stored under ids that were given out. -/
def StoredKnown (s : TaskSystem ε κ ρ) : Prop := ∀ id, s.stored id ≠ none → s.session.scheduler.Allocated id

/-- A result that is stored was stored before, or is that of a task that was running. -/
structure Stores (s s' : TaskSystem ε κ ρ) : Prop where
  stored : ∀ id, s'.stored id ≠ none → s.stored id ≠ none ∨ id ∈ s.session.running
  count : s.session.scheduler.nextTaskId ≤ s'.session.scheduler.nextTaskId
  seed : s'.session.scheduler.idSeed = s.session.scheduler.idSeed

/-- The results are left alone. -/
theorem stores_of_eq
    (hstored : s'.session.scheduler.completedTaskResults = s.session.scheduler.completedTaskResults)
    (hcount : s.session.scheduler.nextTaskId ≤ s'.session.scheduler.nextTaskId)
    (hseed : s'.session.scheduler.idSeed = s.session.scheduler.idSeed) : Stores s s' := by
  refine ⟨fun id h => .inl fun hnone => h ?_, hcount, hseed⟩
  rw [stored, hstored]
  exact hnone

/-- A task is started. -/
theorem stores_start {r : Session ε (TaskExecution κ) ρ} (event : Option (EventEntry ε))
    (running running' : Option (TaskExecution κ)) : Stores ⟨r, running⟩ ⟨r.start event, running'⟩ := by
  unfold Session.start
  split
  · rename_i i t id
    rcases beginTask_cases r.scheduler id with ⟨task, -, -, hbegin⟩ | hbegin
    · rw [hbegin]
      exact stores_of_eq rfl le_rfl rfl
    · rw [hbegin]
      exact stores_of_eq rfl le_rfl rfl
  · exact stores_of_eq rfl le_rfl rfl

theorem Stores.trans {s'' : TaskSystem ε κ ρ} (h : Stores s s')
    (hrunning : s'.session.running = s.session.running) (h' : Stores s' s'') : Stores s s'' where
  stored id hid := (h'.stored id hid).elim (h.stored id) fun hmem => .inr (hrunning ▸ hmem)
  count := h.count.trans h'.count
  seed := h'.seed.trans h.seed

theorem stores_popped {event : Option (EventEntry ε)} {scheduler : Scheduler ε (TaskExecution κ) ρ}
    {d : List (EventEntry ε)} (hpops : Pops s.session.scheduler event scheduler d) :
    Stores s { s with session := { s.session with scheduler } } := by
  cases event with
  | none => exact stores_of_eq (by rw [hpops.took.keep]) (by rw [hpops.took.keep]) (by rw [hpops.took.keep])
  | some event => exact stores_of_eq (by rw [hpops.keep]) (by rw [hpops.keep]) (by rw [hpops.keep])

/-- The result of the task that returns is the only one that is stored. -/
theorem stores_finish {ok : Bool} {value : Option ρ} (h : Finishes s ok value id s') : Stores s s' := by
  have hmem : id ∈ s.session.running := List.mem_of_head? h.head
  have hends : ∀ (scheduler : Scheduler ε (TaskExecution κ) ρ) (previous : Option TaskId) (result : Option ρ)
      (frames : List (TaskId × Option TaskId)), scheduler.completedTaskResults =
        s.session.scheduler.completedTaskResults →
      scheduler.nextTaskId = s.session.scheduler.nextTaskId → scheduler.idSeed = s.session.scheduler.idSeed →
      Stores s ⟨⟨scheduler.endTask id previous result, frames⟩, none⟩ := by
    intro scheduler previous result frames hstored hcount hseed
    refine ⟨fun id' hid => ?_, ?_, ?_⟩
    · by_cases heq : id' = id
      · rw [heq]
        exact .inr hmem
      · rw [stored, completedTaskResults_endTask_of_ne (Ne.symm heq), hstored] at hid
        exact .inl hid
    · rw [endTask_eq]
      exact hcount.ge
    · rw [endTask_eq]
      exact hseed
  cases h with
  | ended hrunning hframes hexecute => exact hends _ _ _ _ rfl rfl rfl
  | again hrunning hframes hexecute hexecuting => exact hends _ _ _ _ rfl rfl rfl

theorem step_stores (hstep : s.step op = some (s', o)) : Stores s s' := by
  cases op with
  | schedule delay component event =>
    obtain ⟨rfl, -⟩ := step_schedule hstep
    exact stores_of_eq rfl le_rfl rfl
  | scheduleTask delay task =>
    obtain ⟨-, rfl, -⟩ := step_scheduleTask hstep
    exact stores_of_eq rfl (Nat.le_succ _) rfl
  | cancelTask id =>
    cases hstep
    have hstored : (s.session.scheduler.cancelTask id).2.completedTaskResults =
        s.session.scheduler.completedTaskResults := by
      simp only [cancelTask]
      split <;> rfl
    exact stores_of_eq hstored (nextTaskId_cancelTask ..).ge (idSeed_cancelTask ..)
  | getTaskResult id =>
    cases hstep
    refine ⟨fun id' hid' => .inl fun hnone => hid' ?_, le_rfl, rfl⟩
    by_cases heq : id' = id
    · subst heq
      exact Function.update_self ..
    · exact (Function.update_of_ne heq _ _).trans hnone
  | pop =>
    obtain ⟨event, scheduler, d, hpops, rfl, -⟩ := step_pop hstep
    exact stores_popped hpops
  | popWithPolicy policy =>
    obtain ⟨event, scheduler, d, hpops, rfl, -⟩ := step_popWithPolicy hstep
    exact stores_popped hpops
  | execute policy =>
    rw [step] at hstep
    split at hstep
    · cases hstep
    · have heq := Option.some.inj hstep
      obtain ⟨d, hpops⟩ := pops_popWithPolicy s.session.scheduler policy
      unfold execute at heq
      generalize s.session.scheduler.popWithPolicy policy = popped at hpops heq
      obtain ⟨event, scheduler, policy'⟩ := popped
      refine (stores_popped hpops).trans rfl ?_
      simp only at heq
      split at heq
      · cases heq
        exact stores_start ..
      · cases heq
        exact stores_start ..
  | finish ok value =>
    obtain ⟨id, answer, hfinishes, -⟩ := step_finish hstep
    exact stores_finish hfinishes

/-- In every state that a run leads to, results are stored under ids that were given out. -/
theorem run_storedKnown {idSeed : BitVec 64} {ops : List (Op ε κ ρ φ)} {answers : List (Answer ε ρ)}
    (hrun : Machine.run step (fresh idSeed : TaskSystem ε κ ρ) ops = some (s, answers)) : s.StoredKnown := by
  refine (Machine.run_invariant (P := fun s : TaskSystem ε κ ρ => s.session.Wf ∧ s.StoredKnown) ?_
    ⟨Session.wf_fresh idSeed, fun id h => absurd rfl h⟩ hrun).2
  rintro s op s' o ⟨hs, hknown⟩ hstep
  have hstores := step_stores hstep
  refine ⟨(step_kept hs hstep).wf, fun id hid => ?_⟩
  have hallocated : s.session.scheduler.Allocated id :=
    (hstores.stored id hid).elim (hknown id) (hs.running_known id)
  exact Session.Allocated.mono hallocated hstores.count hstores.seed

/-- The id of the handle that the next `schedule_task` returns. -/
def nextTask (s : TaskSystem ε κ ρ) : TaskId := taskIdAt s.session.scheduler.idSeed (s.session.scheduler.nextTaskId + 1)

/-- A task that is scheduled in a state that a run leads to. -/
theorem at_scheduleTask {idSeed : BitVec 64} {ops : List (Op ε κ ρ φ)} {answers : List (Answer ε ρ)}
    (hrun : Machine.run step (fresh idSeed : TaskSystem ε κ ρ) ops = some (s, answers))
    {delay : SimTime} {task : TaskExecution κ}
    (hstep : s.step (.scheduleTask (φ := φ) delay task) = some (s', o)) :
    s'.session.Wf ∧ s'.At s.nextTask (.pending (s.session.scheduler.clock + delay) task) ∧
      s'.stored s.nextTask = none := by
  have hs : s.session.Wf := run_wf (Session.wf_fresh idSeed) hrun
  refine ⟨(step_kept hs hstep).wf, ?_⟩
  have hknown := run_storedKnown hrun s.nextTask
  obtain ⟨hn, rfl, -⟩ := step_scheduleTask hstep
  refine ⟨⟨Function.update_self .., s.session.scheduler.nextEventId + 1,
    (mem_events_scheduleTask ..).mpr (.inl rfl)⟩, ?_⟩
  exact not_not.mp fun hstored => not_allocated_next hn (hknown hstored)

end

/-! ## Records -/

/-- A scheduler of tasks, and what has happened to one of them. -/
structure Observed (ε κ ρ : Type) where
  system : TaskSystem ε κ ρ
  /-- When its code was called. -/
  started : List SimTime
  returned : List (Returned ρ)
  /-- Its results that were retrieved. -/
  taken : List ρ
  /-- It was cancelled, or its event was popped by other code than the loop. -/
  stopped : Bool
  /-- Its arithmetic panicked, and nothing is done any more. -/
  panicked : Bool

/-- The arithmetic of the task panics when its code returns. -/
def panics (s : TaskSystem ε κ ρ) (id : TaskId) : Op ε κ ρ φ → Bool
  | .finish ok _ => s.session.running.head? = some id && s.running.any fun task => (task.execute ok).isNone
  | _ => false

namespace Observed

/-- Nothing has happened. -/
def watch (s : TaskSystem ε κ ρ) : Observed ε κ ρ := ⟨s, [], [], [], false, false⟩

/-- The results of the task, retrieved or not. -/
def results (c : Observed ε κ ρ) (id : TaskId) : List ρ := c.taken ++ (c.system.stored id).toList

/-- What has been recorded. -/
structure Notes (c : Observed ε κ ρ) (started : List SimTime) (returned : List (Returned ρ)) (stopped panicked : Bool) : Prop where
  started : c.started = started
  returned : c.returned = returned
  stopped : c.stopped = stopped
  panicked : c.panicked = panicked

/-- What an operation does to the task and its record. -/
inductive Does (id : TaskId) (c c' : Observed ε κ ρ) : Phase κ → Phase κ → Prop
  | stays {ph : Phase κ} (notes : c'.Notes c.started c.returned c.stopped false) (results : c'.results id = c.results id) :
      Does id c c' ph ph
  | stopped {ph ph' : Phase κ} (notes : c'.Notes c.started c.returned true false) (results : c'.results id = c.results id)
      (alive : (∃ due task, ph = .pending due task) ∨ ph = .lost) (gone : ph' = .lost ∨ ph' = .dead) : Does id c c' ph ph'
  | executed {due : SimTime} {task : TaskExecution κ} (notes : c'.Notes (c.started ++ [due]) c.returned c.stopped false)
      (results : c'.results id = c.results id) (clock : c'.system.session.scheduler.clock = due) :
      Does id c c' (.pending due task) (.running task)
  | again {task task' : TaskExecution κ} {delay : SimTime} {r : Returned ρ}
      (notes : c'.Notes c.started (c.returned ++ [r]) c.stopped false) (results : c'.results id = c.results id)
      (time : r.time = c.system.session.scheduler.clock) (execute : task.execute r.ok = some (some (delay, task'))) :
      Does id c c' (.running task) (.pending (r.time + delay) task')
  | ended {task : TaskExecution κ} {r : Returned ρ} (notes : c'.Notes c.started (c.returned ++ [r]) c.stopped false)
      (results : c.results id = [] → c'.results id = (task.output r.value).toList)
      (execute : task.execute r.ok = some none) : Does id c c' (.running task) .ended
  | panicked {task : TaskExecution κ} {r : Returned ρ} (notes : c'.Notes c.started (c.returned ++ [r]) c.stopped true)
      (execute : task.execute r.ok = none) : Does id c c' (.running task) (.running task)

variable {c c' : Observed ε κ ρ} {ph : Phase κ} {op : Op ε κ ρ φ} {o : Unit}

theorem does_panic (hs : c.system.session.Wf) (hat : c.system.At id ph)
    (hpanics : c.system.panics id op = true) :
    Does id c { c with returned := c.returned ++ (c.system.returns id op).toList, panicked := true } ph ph := by
  cases op with
  | finish ok value =>
    rw [panics, Bool.and_eq_true] at hpanics
    have hhead := of_decide_eq_true hpanics.1
    obtain ⟨task, hrunning, hnone⟩ := (Option.any_eq_true _ _).mp hpanics.2
    cases hat.eq_running hs (List.mem_of_head? hhead) hrunning
    have hreturns : c.system.returns id (.finish (φ := φ) ok value) = some
      ⟨c.system.session.scheduler.clock, ok, value⟩ := by
      rw [returns, if_pos hhead]
    rw [hreturns]
    exact .panicked ⟨rfl, rfl, rfl, rfl⟩ (Option.isNone_iff_eq_none.mp hnone)
  | _ => cases hpanics

variable [EventFrontierPolicy φ]

/-- One operation. -/
def step (id : TaskId) (c : Observed ε κ ρ) (op : Op ε κ ρ φ) : Option (Observed ε κ ρ × Unit) :=
  if c.panicked then some (c, ())
  else
    let returned := c.returned ++ (c.system.returns id op).toList
    match c.system.step op with
    | some (system, answer) =>
      some (⟨system, c.started ++ if answer.calls id then [system.session.scheduler.clock] else [], returned,
        c.taken ++ takes id op answer, c.stopped || answer.stops id, false⟩, ())
    | none => if c.system.panics id op then some ({ c with returned, panicked := true }, ()) else none

theorem step_panicked (hpanicked : c.panicked = true) : c.step id op = some (c, ()) := if_pos hpanicked

theorem does_step (hs : c.system.session.Wf) (hat : c.system.At id ph) (hpanicked : c.panicked = false)
    (hstep : c.step id op = some (c', o)) :
    c'.system.session.Wf ∧ ∃ ph', c'.system.At id ph' ∧ Does id c c' ph ph' := by
  rw [step, hpanicked, if_neg Bool.false_ne_true] at hstep
  cases hsystem : c.system.step op with
  | none =>
    rw [hsystem] at hstep
    simp only at hstep
    split at hstep
    · rename_i hpanics
      cases hstep
      exact ⟨hs, ph, hat, does_panic hs hat hpanics⟩
    · cases hstep
  | some next =>
    obtain ⟨system, answer⟩ := next
    rw [hsystem] at hstep
    cases hstep
    obtain ⟨ph', hat', hmoves⟩ := moves_step hs hat hsystem
    refine ⟨(step_kept hs hsystem).wf, ph', hat', ?_⟩
    have hresults : takes id op answer ++ (system.stored id).toList = (c.system.stored id).toList →
        c.taken ++ takes id op answer ++ (system.stored id).toList = c.results id := by
      intro h
      rw [List.append_assoc, h]
      rfl
    cases hmoves with
    | stays calls stops returns stored =>
      refine .stays ⟨?_, ?_, ?_, rfl⟩ (hresults stored)
      · simp only [calls, Bool.false_eq_true, if_false, List.append_nil]
      · simp only [returns, Option.toList_none, List.append_nil]
      · simp only [stops, Bool.or_false]
    | stopped calls stops returns stored alive gone =>
      refine .stopped ⟨?_, ?_, ?_, rfl⟩ (hresults stored) alive gone
      · simp only [calls, Bool.false_eq_true, if_false, List.append_nil]
      · simp only [returns, Option.toList_none, List.append_nil]
      · simp only [stops, Bool.or_true]
    | executed calls stops returns stored clock =>
      refine .executed ⟨?_, ?_, ?_, rfl⟩ (hresults stored) clock
      · simp only [calls, if_true, clock]
      · simp only [returns, Option.toList_none, List.append_nil]
      · simp only [stops, Bool.or_false]
    | again calls stops returns stored execute =>
      rename_i task task' delay ok value
      refine .again (r := ⟨c.system.session.scheduler.clock, ok, value⟩) ⟨?_, ?_, ?_, rfl⟩
        (hresults stored) rfl execute
      · simp only [calls, Bool.false_eq_true, if_false, List.append_nil]
      · simp only [returns, Option.toList_some]
      · simp only [stops, Bool.or_false]
    | ended calls stops returns takes stored execute =>
      rename_i task ok value
      refine .ended (r := ⟨c.system.session.scheduler.clock, ok, value⟩) ⟨?_, ?_, ?_, rfl⟩
        (fun hnil => ?_) execute
      · simp only [calls, Bool.false_eq_true, if_false, List.append_nil]
      · simp only [returns, Option.toList_some]
      · simp only [stops, Bool.or_false]
      · obtain ⟨htaken, hnone⟩ := List.append_eq_nil_iff.mp hnil
        rw [Option.toList_eq_nil_iff] at hnone
        simp only [results, htaken, takes, stored, hnone, List.nil_append, Option.or_none]

/-- What is done to the task along a run, until its arithmetic panics. -/
theorem run_does {R : Observed ε κ ρ → Phase κ → Prop} {Q : Observed ε κ ρ → Prop}
    {C : Op ε κ ρ φ → Prop} {ops : List (Op ε κ ρ φ)} {os : List Unit}
    (hR : ∀ c ph, R c ph → c.panicked = false) (hQ : ∀ c, Q c → c.panicked = true)
    (hdoes : ∀ c c' ph ph' op o, R c ph → c.system.At id ph → C op → c.step id op = some (c', o) →
      Does id c c' ph ph' → R c' ph' ∨ Q c')
    (hops : ∀ op ∈ ops, C op) (hs : c.system.session.Wf) (hat : c.system.At id ph) (hc : R c ph)
    (hrun : Machine.run (step id) c ops = some (c', os)) :
    (∃ ph', c'.system.At id ph' ∧ R c' ph') ∨ Q c' := by
  have halong : Machine.Along (fun _ op => C op) (step id) c ops := Machine.along_of_forall hops
  have hall := halong.invariant
    (P := fun c => (c.system.session.Wf ∧ ∃ ph, c.system.At id ph ∧ R c ph) ∨ Q c) ?_
    (.inl ⟨hs, ph, hat, hc⟩) hrun
  · exact hall.imp_left And.right
  rintro c op u o (⟨hs, ph, hat, hc⟩ | hpanicked) hop hstep
  · obtain ⟨hs', ph', hat', hd⟩ := does_step hs hat (hR c ph hc) hstep
    exact (hdoes c u ph ph' op o hc hat hop hstep hd).imp_left fun hc' => ⟨hs', ph', hat', hc'⟩
  · rw [step_panicked (hQ c hpanicked)] at hstep
    cases hstep
    exact .inr hpanicked

end Observed

end DesCartes.TaskSystem
