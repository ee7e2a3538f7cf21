import DesCartes.Impl.Scheduler

/-!
# The fields of the scheduler after each operation

The simp set of the scheduler: the events after `schedule` and `schedule_task`, what `cancel_task`
does to each field that the proofs read, and what the two halves of `execute_task` do.

`Adds s s'` says that `s'` has the events of `s` and more, none in the past and all of them with
numbers that `s` has not given yet; it composes (`Adds.trans`).
-/

namespace DesCartes.Scheduler

variable {ε τ ρ : Type} (s : Scheduler ε τ ρ)

section
variable (t : SimTime) (c : Uuid) (v : ε)

@[simp] theorem mem_events_schedule {e : EventEntry ε} :
    e ∈ (s.schedule t c v).events.toList ↔ e = s.scheduledEvent t c v ∨ e ∈ s.events.toList :=
  BinaryHeap.mem_push

end

section
variable (t : SimTime) (id : TaskId) (task : τ)

@[simp] theorem pendingTasks_scheduleTaskAt :
    (s.scheduleTaskAt t id task).pendingTasks = Function.update s.pendingTasks id (some task) := rfl

@[simp] theorem mem_events_scheduleTaskAt {e : EventEntry ε} :
    e ∈ (s.scheduleTaskAt t id task).events.toList ↔ e = .task (s.nextEventId + 1) t id ∨
    e ∈ s.events.toList :=
  BinaryHeap.mem_push

@[simp] theorem mem_events_scheduleTask {e : EventEntry ε} :
    e ∈ (s.scheduleTask t task).2.events.toList ↔
      e = .task (s.nextEventId + 1) (s.clock + t) (s.scheduleTask t task).1 ∨ e ∈ s.events.toList :=
  BinaryHeap.mem_push

end

section
variable (id : TaskId)

@[simp] theorem events_cancelTask : (s.cancelTask id).2.events = s.events := by
  simp only [cancelTask]; split <;> rfl

@[simp] theorem clock_cancelTask : (s.cancelTask id).2.clock = s.clock := by
  simp only [cancelTask]; split <;> rfl

@[simp] theorem nextTaskId_cancelTask : (s.cancelTask id).2.nextTaskId = s.nextTaskId := by
  simp only [cancelTask]; split <;> rfl

@[simp] theorem idSeed_cancelTask : (s.cancelTask id).2.idSeed = s.idSeed := by
  simp only [cancelTask]; split <;> rfl

@[simp] theorem nextEventId_cancelTask : (s.cancelTask id).2.nextEventId = s.nextEventId := by
  simp only [cancelTask]; split <;> rfl

@[simp] theorem executingTaskId_cancelTask : (s.cancelTask id).2.executingTaskId = s.executingTaskId := by
  simp only [cancelTask]; split <;> rfl

@[simp] theorem pendingTasks_cancelTask :
    (s.cancelTask id).2.pendingTasks = Function.update s.pendingTasks id none := by
  simp only [cancelTask]; split <;> rfl

theorem fst_cancelTask : (s.cancelTask id).1 = (s.pendingTasks id).isSome := rfl

theorem mem_cancelledTasks_cancelTask {id' : TaskId} : id' ∈ (s.cancelTask id).2.cancelledTasks ↔
    id' ∈ s.cancelledTasks ∨ id' = id ∧ s.pendingTasks id ≠ none := by
  rw [← Option.isSome_iff_ne_none]
  simp only [cancelTask]
  split
  · rename_i h
    simp [h, or_comm]
  · rename_i h
    simp [h]

end

/-- The first half of `execute_task`: it runs the task if it is pending and not marked. -/
theorem beginTask_cases (id : TaskId) :
    (∃ task, id ∉ s.cancelledTasks ∧ s.pendingTasks id = some task ∧ s.beginTask id = (some task, { s with
      pendingTasks := Function.update s.pendingTasks id none, executingTaskId := some id })) ∨
    s.beginTask id = (none, { s with cancelledTasks := s.cancelledTasks.erase id }) := by
  by_cases h : id ∈ s.cancelledTasks
  · exact .inr (by simp only [beginTask, if_pos h])
  · cases hp : s.pendingTasks id with
    | none => exact .inr (by simp only [beginTask, if_neg h, hp, Finset.erase_eq_of_notMem h])
    | some task => exact .inl ⟨task, h, rfl, by simp only [beginTask, if_neg h, hp]⟩

/-- The second half of `execute_task` changes the executing id and the results only. -/
theorem endTask_eq (id : TaskId) (previous : Option TaskId) (result : Option ρ) :
    s.endTask id previous result = { s with
      executingTaskId := previous
      completedTaskResults := (s.endTask id previous result).completedTaskResults } := by
  simp only [endTask]
  split
  · rfl
  · cases result <;> rfl

@[simp] theorem pendingTasks_endTask (id : TaskId) (previous : Option TaskId) (result : Option ρ) :
    (s.endTask id previous result).pendingTasks = s.pendingTasks := by
  rw [endTask_eq]

@[simp] theorem events_endTask (id : TaskId) (previous : Option TaskId) (result : Option ρ) :
    (s.endTask id previous result).events = s.events := by
  rw [endTask_eq]

/-! ## More events -/

/-- `s'` has the events of `s` and more, that are not in the past and have new numbers; the clock
stands still. -/
structure Adds (s s' : Scheduler ε τ ρ) : Prop where
  clock : s'.clock = s.clock
  nextEventId : s.nextEventId ≤ s'.nextEventId
  events : ∃ l, s'.events.toList.Perm (l ++ s.events.toList) ∧
    ∀ e ∈ l, s.clock ≤ e.time ∧ s.nextEventId < e.seq

variable {s}

/-- Changes of other fields. -/
theorem adds_of_eq {s' : Scheduler ε τ ρ} (hc : s'.clock = s.clock) (hn : s'.nextEventId = s.nextEventId)
    (he : s'.events = s.events) : Adds s s' :=
  ⟨hc, hn.ge, [], by rw [he]; rfl, List.forall_mem_nil _⟩

theorem Adds.refl (s : Scheduler ε τ ρ) : Adds s s := adds_of_eq rfl rfl rfl

theorem Adds.trans {s₁ s₂ s₃ : Scheduler ε τ ρ} (h₁ : Adds s₁ s₂) (h₂ : Adds s₂ s₃) : Adds s₁ s₃ := by
  obtain ⟨l₁, hp₁, hl₁⟩ := h₁.events
  obtain ⟨l₂, hp₂, hl₂⟩ := h₂.events
  refine ⟨h₂.clock.trans h₁.clock, h₁.nextEventId.trans h₂.nextEventId, l₂ ++ l₁, ?_, fun e he => ?_⟩
  · rw [List.append_assoc]
    exact hp₂.trans (hp₁.append_left l₂)
  · rcases List.mem_append.mp he with he | he
    · obtain ⟨ht, hs⟩ := hl₂ e he
      exact ⟨h₁.clock ▸ ht, h₁.nextEventId.trans_lt hs⟩
    · exact hl₁ e he

/-- One event is pushed, with the next number. -/
theorem adds_push {s' : Scheduler ε τ ρ} {e : EventEntry ε} (hc : s'.clock = s.clock)
    (hn : s'.nextEventId = s.nextEventId + 1) (he : s'.events = s.events.push e) (ht : s.clock ≤ e.time)
    (hs : e.seq = s.nextEventId + 1) : Adds s s' := by
  refine ⟨hc, hn ▸ Nat.le_succ _, [e], ?_, fun x hx => ?_⟩
  · rw [he]
    exact BinaryHeap.push_perm ..
  · rw [List.mem_singleton.mp hx, hs]
    exact ⟨ht, Nat.lt_succ_self _⟩

theorem adds_schedule (t : SimTime) (c : Uuid) (v : ε) : Adds s (s.schedule t c v) :=
  adds_push rfl rfl rfl (SimTime.le_add ..) rfl

theorem adds_scheduleTaskAt {t : SimTime} (ht : s.clock ≤ t) (id : TaskId) (task : τ) :
    Adds s (s.scheduleTaskAt t id task) :=
  adds_push rfl rfl rfl ht rfl

theorem adds_scheduleTask (delay : SimTime) (task : τ) : Adds s (s.scheduleTask delay task).2 :=
  adds_push rfl rfl rfl (SimTime.le_add ..) rfl

theorem adds_cancelTask (id : TaskId) : Adds s (s.cancelTask id).2 :=
  adds_of_eq (clock_cancelTask ..) (nextEventId_cancelTask ..) (events_cancelTask ..)

section
variable {s' : Scheduler ε τ ρ} (h : Adds s s')
include h

theorem Adds.held {e : EventEntry ε} (he : e ∈ s.events.toList) : e ∈ s'.events.toList := by
  obtain ⟨l, hp, -⟩ := h.events
  exact hp.mem_iff.mpr (List.mem_append_right _ he)

theorem Adds.added {e : EventEntry ε} (he : e ∈ s'.events.toList) :
    e ∈ s.events.toList ∨ s.clock ≤ e.time := by
  obtain ⟨l, hp, hl⟩ := h.events
  rcases List.mem_append.mp (hp.mem_iff.mp he) with he | he
  · exact .inr (hl e he).1
  · exact .inl he

/-- Nothing comes before an event that is due and already has its number. -/
theorem Adds.countP_before {e : EventEntry ε} (ht : e.time ≤ s.clock) (hs : e.seq ≤ s.nextEventId) :
    s'.events.toList.countP (EventEntry.Before · e) = s.events.toList.countP (EventEntry.Before · e) := by
  obtain ⟨l, hp, hl⟩ := h.events
  rw [hp.countP_eq, List.countP_append, List.countP_eq_zero.mpr fun x hx => ?_, Nat.zero_add]
  obtain ⟨hx₁, hx₂⟩ := hl x hx
  rw [decide_eq_true_iff]
  rintro (hb | ⟨-, hb⟩)
  · exact absurd hb (ht.trans hx₁).not_gt
  · exact absurd (hb.trans hs) hx₂.not_ge

end

end DesCartes.Scheduler
