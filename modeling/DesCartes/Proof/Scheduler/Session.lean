import DesCartes.Impl.Session
import DesCartes.Framework.Machine
import DesCartes.Proof.Ids
import DesCartes.Proof.Scheduler.Basic
import DesCartes.Proof.Scheduler.Pop

/-!
# What holds in every sequence of scheduler operations

`Session.Wf` ties the heap, the pending tasks, the marks of cancelled tasks, the tasks that are
running and the clock together: no event is in the past, a task has at most one event in the
heap, a marked task is neither pending nor running, and a running task has no event at all. A task
whose cancellation succeeded is `Dead` from then on: its event is dropped when a pop sees it, and it
never gets another one.

`Session.Kept` is the account of the events: each one scheduled is in the heap, or was returned,
or belongs to a task whose cancellation succeeded, and none is there twice.

What an operation does to all three is `Stepped`, and every operation keeps them (`Wf.stepped`).
-/

namespace DesCartes

namespace Scheduler

variable {ε τ ρ : Type}

/-- An id that `schedule_task` has given out. -/
def Allocated (s : Scheduler ε τ ρ) (id : TaskId) : Prop :=
  ∃ n, n ≤ s.nextTaskId ∧ id = taskIdAt s.idSeed n

/-- The ids of one scheduler are distinct. -/
theorem taskIdAt_inj {seed : BitVec 64} {m n : Nat} (hm : m ≤ u64Max) (hn : n ≤ u64Max)
    (h : taskIdAt seed m = taskIdAt seed n) : m = n :=
  Ids.ofNat_inj hm hn (Ids.deterministicUuid_inj (TaskId.mk.inj h))

/-- The next id to be given out is a new one. -/
theorem not_allocated_next {s : Scheduler ε τ ρ} (h : s.nextTaskId < u64Max) :
    ¬ s.Allocated (taskIdAt s.idSeed (s.nextTaskId + 1)) := by
  intro ⟨n, hn, e⟩
  have := taskIdAt_inj (Nat.succ_le_of_lt h) (by omega) e
  omega

end Scheduler

namespace Session

variable {ε τ ρ φ : Type}

open Scheduler

/-- The ids of the tasks that are running. -/
def running (r : Session ε τ ρ) : List TaskId := r.frames.map (·.1)

/-- Each frame restores the id of the frame below it. -/
def Linked : List (TaskId × Option TaskId) → Prop
  | [] => True
  | f :: fs => f.2 = fs.head?.map (·.1) ∧ Linked fs

/-- The invariant of the operations. -/
structure Wf (r : Session ε τ ρ) : Prop where
  future : ∀ e ∈ r.scheduler.events.toList, r.scheduler.clock ≤ e.time
  one : (r.scheduler.events.toList.filterMap EventEntry.taskId).Nodup
  bound : r.scheduler.nextTaskId ≤ u64Max
  events_known : ∀ e ∈ r.scheduler.events.toList, ∀ id, e.taskId = some id → r.scheduler.Allocated id
  pending_known : ∀ id, r.scheduler.pendingTasks id ≠ none → r.scheduler.Allocated id
  running_known : ∀ id ∈ r.running, r.scheduler.Allocated id
  marked : ∀ id ∈ r.scheduler.cancelledTasks,
    r.scheduler.Allocated id ∧ r.scheduler.pendingTasks id = none ∧ id ∉ r.running
  running_out : ∀ id ∈ r.running,
    r.scheduler.pendingTasks id = none ∧ ∀ e ∈ r.scheduler.events.toList, e.taskId ≠ some id
  running_nodup : r.running.Nodup
  executing : r.scheduler.executingTaskId = r.running.head?
  linked : Linked r.frames

/-- A task that will not run again: what is left of it in the heap is marked. -/
structure Dead (r : Session ε τ ρ) (id : TaskId) : Prop where
  known : r.scheduler.Allocated id
  pending : r.scheduler.pendingTasks id = none
  running : id ∉ r.running
  marked : ∀ e ∈ r.scheduler.events.toList, e.taskId = some id → id ∈ r.scheduler.cancelledTasks

/-- Where the events are that have been scheduled, after the answers `os`. -/
structure Kept (r : Session ε τ ρ) (os : List (Answer ε)) : Prop where
  seq_le : ∀ e, .scheduled e ∈ os → e.seq ≤ r.scheduler.nextEventId
  held_scheduled : ∀ e ∈ r.scheduler.events.toList, .scheduled e ∈ os
  popped_scheduled : ∀ e, .popped (some e) ∈ os → .scheduled e ∈ os
  nodup : ((r.scheduler.events.toList ++ os.filterMap Answer.popped?).map EventEntry.seq).Nodup
  kept : ∀ e, .scheduled e ∈ os → e ∈ r.scheduler.events.toList ∨ .popped (some e) ∈ os ∨
    ∃ id, e.taskId = some id ∧ .cancelled id true ∈ os
  marks : ∀ id ∈ r.scheduler.cancelledTasks, .cancelled id true ∈ os
  dead : ∀ id, .cancelled id true ∈ os → r.Dead id

/-! ## Adding an event -/

theorem nodup_push {h : BinaryHeap (EventEntry ε)} {e : EventEntry ε}
    (hn : (h.toList.filterMap EventEntry.taskId).Nodup)
    (he : ∀ id, e.taskId = some id → ∀ x ∈ h.toList, x.taskId ≠ some id) :
    ((h.push e).toList.filterMap EventEntry.taskId).Nodup := by
  refine (((BinaryHeap.push_perm h e).filterMap _).nodup_iff).mpr ?_
  rw [List.filterMap_cons]
  cases hid : e.taskId with
  | none => exact hn
  | some id =>
    refine List.nodup_cons.mpr ⟨fun hmem => ?_, hn⟩
    obtain ⟨x, hx, hxid⟩ := List.mem_filterMap.mp hmem
    exact he id hid x hx hxid

theorem Kept.push {r r' : Session ε τ ρ} {os : List (Answer ε)} {e : EventEntry ε} (h : r.Kept os)
    (hn : r'.scheduler.nextEventId = r.scheduler.nextEventId + 1) (he : e.seq = r.scheduler.nextEventId + 1)
    (hev : r'.scheduler.events = r.scheduler.events.push e)
    (hc : r'.scheduler.cancelledTasks = r.scheduler.cancelledTasks)
    (hd : ∀ id, r.Dead id → r'.Dead id) : r'.Kept (os ++ [Answer.scheduled e]) where
  seq_le x hx := by
    rw [hn]
    rcases List.mem_append.mp hx with hx | hx
    · exact (h.seq_le x hx).trans (Nat.le_succ _)
    · cases List.mem_singleton.mp hx
      exact he.le
  held_scheduled x hx := by
    rw [hev] at hx
    rcases BinaryHeap.mem_push.mp hx with rfl | hx
    · exact List.mem_append_right _ (List.mem_singleton_self _)
    · exact List.mem_append_left _ (h.held_scheduled x hx)
  popped_scheduled x hx := by
    rcases List.mem_append.mp hx with hx | hx
    · exact List.mem_append_left _ (h.popped_scheduled x hx)
    · cases List.mem_singleton.mp hx
  nodup := by
    rw [hev, List.filterMap_append, show [Answer.scheduled e].filterMap Answer.popped? = [] from rfl,
      List.append_nil]
    refine ((((BinaryHeap.push_perm _ e).append_right _).map _).nodup_iff).mpr ?_
    rw [List.cons_append, List.map_cons]
    refine List.nodup_cons.mpr ⟨fun hmem => ?_, h.nodup⟩
    obtain ⟨x, hx, hseq⟩ := List.mem_map.mp hmem
    have hx' : .scheduled x ∈ os := by
      rcases List.mem_append.mp hx with hx | hx
      · exact h.held_scheduled x hx
      · obtain ⟨o, ho, hox⟩ := List.mem_filterMap.mp hx
        cases o <;> simp only [Answer.popped?, reduceCtorEq] at hox
        subst hox
        exact h.popped_scheduled x ho
    have := h.seq_le x hx'
    omega
  kept x hx := by
    rw [hev]
    rcases List.mem_append.mp hx with hx | hx
    · rcases h.kept x hx with hx | hx | ⟨id, hid, hx⟩
      · exact .inl (BinaryHeap.mem_push.mpr (.inr hx))
      · exact .inr (.inl (List.mem_append_left _ hx))
      · exact .inr (.inr ⟨id, hid, List.mem_append_left _ hx⟩)
    · cases List.mem_singleton.mp hx
      exact .inl (BinaryHeap.mem_push.mpr (.inl rfl))
  marks id hid := List.mem_append_left _ (h.marks id (hc ▸ hid))
  dead id hid := by
    rcases List.mem_append.mp hid with hid | hid
    · exact hd id (h.dead id hid)
    · cases List.mem_singleton.mp hid

theorem Allocated.mono {s s' : Scheduler ε τ ρ} {id : TaskId} (h : s.Allocated id)
    (hn : s.nextTaskId ≤ s'.nextTaskId) (hs : s'.idSeed = s.idSeed) : s'.Allocated id := by
  obtain ⟨n, hle, e⟩ := h
  exact ⟨n, hle.trans hn, by rw [hs]; exact e⟩

theorem Wf.schedule {r : Session ε τ ρ} (h : r.Wf) (delay : SimTime) (c : Uuid) (v : ε) :
    Wf { r with scheduler := r.scheduler.schedule delay c v } where
  future e he := by
    rcases BinaryHeap.mem_push.mp he with rfl | he
    · exact SimTime.le_add _ _
    · exact h.future e he
  one := nodup_push h.one nofun
  bound := h.bound
  events_known e he id hid := by
    rcases BinaryHeap.mem_push.mp he with rfl | he
    · cases hid
    · exact h.events_known e he id hid
  pending_known := h.pending_known
  running_known := h.running_known
  marked := h.marked
  running_out id hid := by
    refine ⟨(h.running_out id hid).1, fun e he => ?_⟩
    rcases BinaryHeap.mem_push.mp he with rfl | he
    · exact nofun
    · exact (h.running_out id hid).2 e he
  running_nodup := h.running_nodup
  executing := h.executing
  linked := h.linked

theorem Dead.schedule {r : Session ε τ ρ} {id : TaskId} (h : r.Dead id) (delay : SimTime) (c : Uuid) (v : ε) :
    Dead { r with scheduler := r.scheduler.schedule delay c v } id where
  known := h.known
  pending := h.pending
  running := h.running
  marked e he hid := by
    rcases BinaryHeap.mem_push.mp he with rfl | he
    · cases hid
    · exact h.marked e he hid

/-! ## Adding a task -/

/-- A task whose id is neither marked nor in the heap becomes pending, with an event of its own. -/
theorem Wf.scheduleTaskAt {r : Session ε τ ρ} (h : r.Wf) {t : SimTime} (ht : r.scheduler.clock ≤ t)
    {id : TaskId} (hk : r.scheduler.Allocated id) (hrun : id ∉ r.running)
    (hmark : id ∉ r.scheduler.cancelledTasks)
    (hout : ∀ e ∈ r.scheduler.events.toList, e.taskId ≠ some id) (task : τ) :
    Wf { r with scheduler := r.scheduler.scheduleTaskAt t id task } where
  future e he := by
    rcases BinaryHeap.mem_push.mp he with rfl | he
    · exact ht
    · exact h.future e he
  one := nodup_push h.one fun id' hid' => by cases hid'; exact hout
  bound := h.bound
  events_known e he id' hid' := by
    rcases BinaryHeap.mem_push.mp he with rfl | he
    · cases hid'; exact hk
    · exact h.events_known e he id' hid'
  pending_known id' hid' := by
    by_cases e : id' = id
    · exact e ▸ hk
    · exact h.pending_known id' (by simpa [Scheduler.scheduleTaskAt, Function.update_of_ne e] using hid')
  running_known := h.running_known
  marked id' hid' := by
    have e : id' ≠ id := fun e => hmark (e ▸ hid')
    obtain ⟨h₁, h₂, h₃⟩ := h.marked id' hid'
    exact ⟨h₁, by simpa [Scheduler.scheduleTaskAt, Function.update_of_ne e] using h₂, h₃⟩
  running_out id' hid' := by
    have e : id' ≠ id := fun e => hrun (e ▸ hid')
    obtain ⟨h₁, h₂⟩ := h.running_out id' hid'
    refine ⟨by simpa [Scheduler.scheduleTaskAt, Function.update_of_ne e] using h₁, fun x hx => ?_⟩
    rcases BinaryHeap.mem_push.mp hx with rfl | hx
    · exact fun he => e (Option.some.inj he).symm
    · exact h₂ x hx
  running_nodup := h.running_nodup
  executing := h.executing
  linked := h.linked

theorem Dead.scheduleTaskAt {r : Session ε τ ρ} {id' : TaskId} (h : r.Dead id') (t : SimTime) {id : TaskId}
    (hne : id' ≠ id) (task : τ) : Dead { r with scheduler := r.scheduler.scheduleTaskAt t id task } id' where
  known := h.known
  pending := by
    simpa [Scheduler.scheduleTaskAt, Function.update_of_ne hne] using h.pending
  running := h.running
  marked e he hid := by
    rcases BinaryHeap.mem_push.mp he with rfl | he
    · exact absurd (Option.some.inj hid).symm hne
    · exact h.marked e he hid

/-- `schedule_task` counts the id it gives out. -/
def counted (r : Session ε τ ρ) : Session ε τ ρ :=
  { r with scheduler := { r.scheduler with nextTaskId := r.scheduler.nextTaskId + 1 } }

theorem allocated_counted {r : Session ε τ ρ} {id : TaskId} (h : r.scheduler.Allocated id) :
    r.counted.scheduler.Allocated id :=
  Allocated.mono h (Nat.le_succ _) rfl

theorem Wf.counted {r : Session ε τ ρ} (h : r.Wf) (hn : r.scheduler.nextTaskId < u64Max) : r.counted.Wf where
  future := h.future
  one := h.one
  bound := hn
  events_known e he id hid := allocated_counted (h.events_known e he id hid)
  pending_known id hid := allocated_counted (h.pending_known id hid)
  running_known id hid := allocated_counted (h.running_known id hid)
  marked id hid := ⟨allocated_counted (h.marked id hid).1, (h.marked id hid).2⟩
  running_out := h.running_out
  running_nodup := h.running_nodup
  executing := h.executing
  linked := h.linked

theorem Dead.counted {r : Session ε τ ρ} {id : TaskId} (h : r.Dead id) : r.counted.Dead id :=
  ⟨allocated_counted h.known, h.pending, h.running, h.marked⟩

/-! ## Cancelling a task -/

theorem Wf.cancelTask {r : Session ε τ ρ} (h : r.Wf) (id : TaskId) :
    Wf { r with scheduler := (r.scheduler.cancelTask id).2 } := by
  have hp : ∀ id', r.scheduler.pendingTasks id' = none →
      Function.update r.scheduler.pendingTasks id none id' = none := by
    intro id' h'
    rw [Function.update_apply, h', ite_self]
  have ha : ∀ id', r.scheduler.Allocated id' → (r.scheduler.cancelTask id).2.Allocated id' :=
    fun id' h' => Allocated.mono h' (nextTaskId_cancelTask ..).ge (idSeed_cancelTask ..)
  refine ⟨?_, ?_, ?_, ?_, fun id' hid' => ?_, fun id' hid' => ha id' (h.running_known id' hid'),
    fun id' hid' => ?_,
    fun id' hid' => ?_, h.running_nodup, ?_, h.linked⟩
  · simpa using h.future
  · simpa using h.one
  · simpa using h.bound
  · intro e he id' hid'
    exact ha id' (h.events_known e (by simpa using he) id' hid')
  · refine ha id' (h.pending_known id' fun h' => hid' ?_)
    simpa using hp id' h'
  · rcases (mem_cancelledTasks_cancelTask _ _).mp hid' with h' | ⟨rfl, h'⟩
    · obtain ⟨h₁, h₂, h₃⟩ := h.marked id' h'
      exact ⟨ha id' h₁, by simpa using hp id' h₂, h₃⟩
    · exact ⟨ha id' (h.pending_known id' h'), by simp, fun hr => h' (h.running_out id' hr).1⟩
  · obtain ⟨h₁, h₂⟩ := h.running_out id' hid'
    exact ⟨by simpa using hp id' h₁, by simpa using h₂⟩
  · exact (executingTaskId_cancelTask ..).trans h.executing

theorem Dead.cancelTask {r : Session ε τ ρ} {id' : TaskId} (h : r.Dead id') (id : TaskId) :
    Dead { r with scheduler := (r.scheduler.cancelTask id).2 } id' where
  known := Allocated.mono h.known (nextTaskId_cancelTask ..).ge (idSeed_cancelTask ..)
  pending := by simp [Function.update_apply, h.pending]
  running := h.running
  marked e he hid := (mem_cancelledTasks_cancelTask _ _).mpr (.inl (h.marked e (by simpa using he) hid))

/-- A cancellation that succeeds leaves the task dead. -/
theorem Wf.dead_cancelTask {r : Session ε τ ρ} (h : r.Wf) {id : TaskId}
    (hc : (r.scheduler.cancelTask id).1 = true) :
    Dead { r with scheduler := (r.scheduler.cancelTask id).2 } id := by
  have hp : r.scheduler.pendingTasks id ≠ none := Option.isSome_iff_ne_none.mp hc
  exact ⟨Allocated.mono (h.pending_known id hp) (nextTaskId_cancelTask ..).ge (idSeed_cancelTask ..), by simp,
    fun hr => hp (h.running_out id hr).1,
    fun _ _ _ => (mem_cancelledTasks_cancelTask _ _).mpr (.inr ⟨rfl, hp⟩)⟩

theorem Kept.cancelTask {r : Session ε τ ρ} {os : List (Answer ε)} (h : r.Kept os) (hr : r.Wf) (id : TaskId) :
    Kept { r with scheduler := (r.scheduler.cancelTask id).2 }
      (os ++ [Answer.cancelled id (r.scheduler.cancelTask id).1]) := by
  have hs : ∀ e, .scheduled e ∈ os ++ [Answer.cancelled id (r.scheduler.cancelTask id).1] ↔
    .scheduled e ∈ os := by simp
  have hpop : ∀ e, .popped e ∈ os ++ [Answer.cancelled id (r.scheduler.cancelTask id).1] ↔
    .popped e ∈ os := by simp
  refine ⟨fun e he => ?_, fun e he => ?_, fun e he => ?_, ?_, fun e he => ?_, fun id' hid' => ?_,
    fun id' hid' => ?_⟩
  · simpa using h.seq_le e ((hs e).mp he)
  · exact (hs e).mpr (h.held_scheduled e (by simpa using he))
  · exact (hs e).mpr (h.popped_scheduled e ((hpop _).mp he))
  · rw [List.filterMap_append, show [Answer.cancelled id
      (r.scheduler.cancelTask id).1].filterMap Answer.popped? =
      ([] : List (EventEntry ε)) from rfl, List.append_nil]
    simpa using h.nodup
  · rcases h.kept e ((hs e).mp he) with h' | h' | ⟨id', h', h''⟩
    · exact .inl (by simpa using h')
    · exact .inr (.inl ((hpop _).mpr h'))
    · exact .inr (.inr ⟨id', h', List.mem_append_left _ h''⟩)
  · rcases (mem_cancelledTasks_cancelTask _ _).mp hid' with h' | ⟨rfl, h'⟩
    · exact List.mem_append_left _ (h.marks id' h')
    · refine List.mem_append_right _ (List.mem_singleton.mpr ?_)
      rw [fst_cancelTask, Option.isSome_iff_ne_none.mpr h']
  · rcases List.mem_append.mp hid' with hid' | hid'
    · exact (h.dead id' hid').cancelTask id
    · obtain ⟨rfl, hc⟩ := Answer.cancelled.inj (List.mem_singleton.mp hid')
      exact hr.dead_cancelTask hc.symm

/-! ## Popping -/

/-- A dropped event is the only one of its task. -/
theorem Wf.only {r : Session ε τ ρ} (h : r.Wf) {s' : Scheduler ε τ ρ} {d l : List (EventEntry ε)}
    (ht : Took r.scheduler s' d l) {id : TaskId} (hd : some id ∈ d.map EventEntry.taskId) {e : EventEntry ε}
    (he : e ∈ l ++ s'.events.toList) : e.taskId ≠ some id := by
  intro hid
  obtain ⟨x, hx, hxid⟩ := List.mem_map.mp hd
  have hn := ((ht.perm.filterMap EventEntry.taskId).nodup_iff).mp h.one
  rw [List.append_assoc, List.filterMap_append] at hn
  exact (List.disjoint_of_nodup_append hn) (List.mem_filterMap.mpr ⟨x, hx, hxid⟩)
    (List.mem_filterMap.mpr ⟨e, he, hid⟩)

theorem Wf.took {r : Session ε τ ρ} (h : r.Wf) {s' : Scheduler ε τ ρ} {d l : List (EventEntry ε)}
    (ht : Took r.scheduler s' d l) : Wf { r with scheduler := s' } := by
  have hsub : ∀ e ∈ s'.events.toList, e ∈ r.scheduler.events.toList :=
    fun e he => ht.perm.mem_iff.mpr (List.mem_append_right _ he)
  have hk := ht.keep
  refine ⟨fun e he => ?_, ?_, ?_, fun e he id hid => ?_, fun id hid => ?_, fun id hid => ?_, fun id hid => ?_,
    fun id hid => ?_, h.running_nodup, ?_, h.linked⟩
  · rw [ht.clock]; exact h.future e (hsub e he)
  · have hn := ((ht.perm.filterMap EventEntry.taskId).nodup_iff).mp h.one
    rw [List.filterMap_append] at hn
    exact hn.of_append_right
  · rw [hk]; exact h.bound
  · rw [hk]; exact h.events_known e (hsub e he) id hid
  · rw [hk] at hid ⊢; exact h.pending_known id hid
  · rw [hk]; exact h.running_known id hid
  · rw [hk]; exact h.marked id ((ht.cancelled id).mp hid).1
  · refine ⟨?_, fun e he => (h.running_out id hid).2 e (hsub e he)⟩
    rw [hk]; exact (h.running_out id hid).1
  · rw [hk]; exact h.executing

/-- What is taken of a dead task is dropped, and what is left stays marked. -/
theorem Dead.took {r : Session ε τ ρ} {id : TaskId} (hr : r.Wf) (h : r.Dead id) {s' : Scheduler ε τ ρ}
    {d l : List (EventEntry ε)} (ht : Took r.scheduler s' d l) :
    Dead { r with scheduler := s' } id ∧ ∀ e ∈ l, e.taskId ≠ some id := by
  have hm : ∀ e ∈ l ++ s'.events.toList, e.taskId = some id → id ∈ s'.cancelledTasks := by
    intro e he hid
    refine (ht.cancelled id).mpr ⟨h.marked e (ht.perm.mem_iff.mpr ?_) hid, fun hd => hr.only ht hd he hid⟩
    rw [List.append_assoc]
    exact List.mem_append_right _ he
  refine ⟨⟨?_, ?_, h.running, fun e he => hm e (List.mem_append_right _ he)⟩, fun e he hid => ?_⟩
  · rw [ht.keep]; exact h.known
  · rw [ht.keep]; exact h.pending
  · exact ht.live e he id hid (hm e (List.mem_append_left _ he) hid)

theorem Kept.took {r : Session ε τ ρ} {os : List (Answer ε)} (h : r.Kept os) (hr : r.Wf)
    {s' : Scheduler ε τ ρ} {d : List (EventEntry ε)} {o : Option (EventEntry ε)}
    (ht : Took r.scheduler s' d o.toList) :
    Kept { r with scheduler := s' } (os ++ [Answer.popped o]) := by
  have hs : ∀ e, .scheduled e ∈ os ++ [Answer.popped o] ↔ .scheduled e ∈ os := by simp
  have hc : ∀ id, .cancelled id true ∈ os ++ [Answer.popped o] ↔ .cancelled id true ∈ os := by simp
  have hpop : ∀ e, .popped (some e) ∈ os ++ [Answer.popped o] ↔ .popped (some e) ∈ os ∨ e ∈ o.toList := by
    intro e
    cases o <;> simp
  have hmem : ∀ e, e ∈ r.scheduler.events.toList ↔ e ∈ d ∨ e ∈ o.toList ∨ e ∈ s'.events.toList := by
    intro e
    rw [ht.perm.mem_iff, List.append_assoc, List.mem_append, List.mem_append]
  have hn : s'.nextEventId = r.scheduler.nextEventId := by rw [ht.keep]
  refine ⟨fun e he => ?_, fun e he => ?_, fun e he => ?_, ?_, fun e he => ?_, fun id hid => ?_,
    fun id hid => ?_⟩
  · rw [hn]; exact h.seq_le e ((hs e).mp he)
  · exact (hs e).mpr (h.held_scheduled e ((hmem e).mpr (.inr (.inr he))))
  · refine (hs e).mpr ?_
    rcases (hpop e).mp he with he | he
    · exact h.popped_scheduled e he
    · exact h.held_scheduled e ((hmem e).mpr (.inr (.inl he)))
  · have hf : [Answer.popped o].filterMap Answer.popped? = o.toList := by cases o <;> rfl
    rw [List.filterMap_append, hf]
    have hp : (d ++ (s'.events.toList ++ (os.filterMap Answer.popped? ++ o.toList))).Perm
        (r.scheduler.events.toList ++ os.filterMap Answer.popped?) := by
      refine List.Perm.trans ?_ (ht.perm.symm.append_right _)
      simp only [List.append_assoc]
      refine List.Perm.append_left d ?_
      rw [← List.append_assoc]
      exact List.perm_append_comm
    have hnd := ((hp.map EventEntry.seq).nodup_iff).mpr h.nodup
    rw [List.map_append] at hnd
    exact hnd.of_append_right
  · rcases h.kept e ((hs e).mp he) with h' | h' | ⟨id, h', h''⟩
    · rcases (hmem e).mp h' with h' | h' | h'
      · obtain ⟨id, hid, e'⟩ := ht.dropped e h'
        exact .inr (.inr ⟨id, e', (hc id).mpr (h.marks id hid)⟩)
      · exact .inr (.inl ((hpop e).mpr (.inr h')))
      · exact .inl h'
    · exact .inr (.inl ((hpop e).mpr (.inl h')))
    · exact .inr (.inr ⟨id, h', (hc id).mpr h''⟩)
  · exact (hc id).mpr (h.marks id ((ht.cancelled id).mp hid).1)
  · exact (Dead.took hr (h.dead id ((hc id).mp hid)) ht).1

/-- The clock is set to the event that was popped. -/
theorem Wf.setClock {r : Session ε τ ρ} (h : r.Wf) {t : SimTime}
    (ht : ∀ e ∈ r.scheduler.events.toList, t ≤ e.time) :
    Wf { r with scheduler := { r.scheduler with clock := t } } :=
  ⟨ht, h.one, h.bound, h.events_known, h.pending_known, h.running_known, h.marked, h.running_out,
    h.running_nodup,
    h.executing, h.linked⟩

theorem Dead.setClock {r : Session ε τ ρ} {id : TaskId} (h : r.Dead id) (t : SimTime) :
    Dead { r with scheduler := { r.scheduler with clock := t } } id :=
  ⟨h.known, h.pending, h.running, h.marked⟩

theorem Kept.setClock {r : Session ε τ ρ} {os : List (Answer ε)} (h : r.Kept os) (t : SimTime) :
    Kept { r with scheduler := { r.scheduler with clock := t } } os :=
  ⟨h.seq_le, h.held_scheduled, h.popped_scheduled, h.nodup, h.kept, h.marks,
    fun id hid => (h.dead id hid).setClock t⟩

/-- What an operation answering `o` leads to: the invariants hold, nothing of a dead task is
returned, and the clock is moved by the event returned only. -/
structure Stepped (r r' : Session ε τ ρ) (o : Answer ε) : Prop where
  wf : r'.Wf
  dead : ∀ id, r.Dead id → r'.Dead id ∧ ∀ e, o = .popped (some e) → e.taskId ≠ some id
  kept : ∀ os, r.Kept os → r'.Kept (os ++ [o])
  clock : r'.scheduler.clock = o.popped?.elim r.scheduler.clock EventEntry.time
  le : r.scheduler.clock ≤ r'.scheduler.clock

theorem Wf.exhausted {r : Session ε τ ρ} (h : r.Wf) {s' : Scheduler ε τ ρ} {d : List (EventEntry ε)}
    (he : Exhausted r.scheduler s' d) : Stepped r { r with scheduler := s' } (.popped none) where
  wf := h.took he.took
  dead _ hid := ⟨(hid.took h he.took).1, nofun⟩
  kept _ hos := hos.took h he.took
  clock := he.took.clock
  le := he.took.clock.ge

theorem Wf.popped {r : Session ε τ ρ} (h : r.Wf) {s' : Scheduler ε τ ρ} {d : List (EventEntry ε)}
    {e : EventEntry ε} (hp : Popped r.scheduler s' d e) :
    Stepped r { r with scheduler := s' } (.popped (some e)) := by
  have hs : s' = { ({ s' with clock := r.scheduler.clock } : Scheduler ε τ ρ) with clock := e.time } := by
    rw [← hp.clock]
  refine ⟨?_, fun id hid => ?_, fun os hos => ?_, hp.clock, ?_⟩
  · rw [hs]; exact (h.took hp.took).setClock hp.least
  · obtain ⟨h₁, h₂⟩ := hid.took h hp.took
    refine ⟨?_, fun x hx => ?_⟩
    · rw [hs]; exact h₁.setClock e.time
    · cases hx
      exact h₂ e (List.mem_singleton_self _)
  · rw [hs]; exact (hos.took h (o := some e) hp.took).setClock e.time
  · rw [hp.clock]
    exact h.future e (hp.perm.mem_iff.mpr (List.mem_append_right _ List.mem_cons_self))

theorem Wf.pop {r : Session ε τ ρ} (h : r.Wf) :
    Stepped r { r with scheduler := r.scheduler.pop.2 } (.popped r.scheduler.pop.1) := by
  obtain ⟨d, hp⟩ := pop_spec r.scheduler
  generalize r.scheduler.pop = q at hp
  obtain ⟨_ | e, s'⟩ := q
  · exact h.exhausted hp
  · exact h.popped hp.1

theorem Wf.popWithPolicy [EventFrontierPolicy φ] {r : Session ε τ ρ} (h : r.Wf) (policy : φ) :
    Stepped r { r with scheduler := (r.scheduler.popWithPolicy policy).2.1 }
      (.popped (r.scheduler.popWithPolicy policy).1) := by
  obtain ⟨d, hp⟩ := popWithPolicy_spec r.scheduler policy
  generalize r.scheduler.popWithPolicy policy = q at hp
  obtain ⟨_ | e, s', p⟩ := q
  · exact h.exhausted hp
  · exact h.popped hp.1

/-! ## Running a task -/

/-- A task whose event has just been popped: it has no other event and is not running. -/
structure Startable (r : Session ε τ ρ) (id : TaskId) : Prop where
  known : r.scheduler.Allocated id
  idle : id ∉ r.running
  out : ∀ e ∈ r.scheduler.events.toList, e.taskId ≠ some id

theorem Wf.startable {r : Session ε τ ρ} (h : r.Wf) {s' : Scheduler ε τ ρ} {d : List (EventEntry ε)} {i : Nat}
    {t : SimTime} {id : TaskId} (hp : Popped r.scheduler s' d (.task i t id)) :
    Startable { r with scheduler := s' } id := by
  have he : .task i t id ∈ r.scheduler.events.toList :=
    hp.perm.mem_iff.mpr (List.mem_append_right _ List.mem_cons_self)
  refine ⟨?_, fun hr => (h.running_out id hr).2 _ he rfl, fun e hm hid => ?_⟩
  · rw [hp.keep]; exact h.events_known _ he id rfl
  · have hn := ((hp.perm.filterMap EventEntry.taskId).nodup_iff).mp h.one
    rw [List.filterMap_append] at hn
    exact (List.nodup_cons.mp hn.of_append_right).1 (List.mem_filterMap.mpr ⟨e, hm, hid⟩)

theorem Wf.start {r : Session ε τ ρ} (h : r.Wf) {id : TaskId} (hs : r.Startable id) (i : Nat) (t : SimTime) :
    (r.start (some (.task i t id))).Wf := by
  simp only [Session.start]
  rcases beginTask_cases r.scheduler id with ⟨task, hm, -, e⟩ | e
  · rw [e]
    have hp : ∀ id', r.scheduler.pendingTasks id' = none →
        Function.update r.scheduler.pendingTasks id none id' = none := by
      intro id' h'
      rw [Function.update_apply, h', ite_self]
    refine ⟨h.future, h.one, h.bound, h.events_known, fun id' hid' => ?_, fun id' hid' => ?_,
      fun id' hid' => ?_,
      fun id' hid' => ?_, List.nodup_cons.mpr ⟨hs.idle, h.running_nodup⟩, rfl, ⟨?_, h.linked⟩⟩
    · exact h.pending_known id' fun h' => hid' (hp id' h')
    · rcases List.mem_cons.mp hid' with rfl | hid'
      · exact hs.known
      · exact h.running_known id' hid'
    · obtain ⟨h₁, h₂, h₃⟩ := h.marked id' hid'
      refine ⟨h₁, hp id' h₂, fun hr => ?_⟩
      rcases List.mem_cons.mp hr with rfl | hr
      · exact hm hid'
      · exact h₃ hr
    · rcases List.mem_cons.mp hid' with rfl | hid'
      · exact ⟨Function.update_self .., hs.out⟩
      · exact ⟨hp id' (h.running_out id' hid').1, (h.running_out id' hid').2⟩
    · rw [h.executing, running, List.head?_map]
  · rw [e]
    exact ⟨h.future, h.one, h.bound, h.events_known, h.pending_known, h.running_known,
      fun id' hid' => h.marked id' (Finset.mem_of_mem_erase hid'), h.running_out, h.running_nodup,
      h.executing, h.linked⟩

theorem Dead.start {r : Session ε τ ρ} {id' : TaskId} (h : r.Dead id') {id : TaskId}
    (hs : r.Startable id) (i : Nat) (t : SimTime) : (r.start (some (.task i t id))).Dead id' := by
  simp only [Session.start]
  rcases beginTask_cases r.scheduler id with ⟨task, -, hp, e⟩ | e
  · rw [e]
    have hne : id' ≠ id := by
      intro e'
      rw [← e', h.pending] at hp
      cases hp
    refine ⟨h.known, ?_, fun hr => ?_, h.marked⟩
    · simp only [Function.update_of_ne hne, h.pending]
    · rcases List.mem_cons.mp hr with e' | hr
      · exact hne e'
      · exact h.running hr
  · rw [e]
    refine ⟨h.known, h.pending, h.running, fun x hx hid => Finset.mem_erase.mpr
      ⟨fun e' => ?_, h.marked x hx hid⟩⟩
    exact hs.out x hx (e' ▸ hid)

theorem Kept.start {r : Session ε τ ρ} {os : List (Answer ε)} (h : r.Kept os) {id : TaskId}
    (hs : r.Startable id) (i : Nat) (t : SimTime) : (r.start (some (.task i t id))).Kept os := by
  have hd := fun id' (hid' : Answer.cancelled id' true ∈ os) => (h.dead id' hid').start hs i t
  simp only [Session.start] at hd ⊢
  rcases beginTask_cases r.scheduler id with ⟨task, -, -, e⟩ | e
  · rw [e] at hd ⊢
    exact ⟨h.seq_le, h.held_scheduled, h.popped_scheduled, h.nodup, h.kept, h.marks, hd⟩
  · rw [e] at hd ⊢
    exact ⟨h.seq_le, h.held_scheduled, h.popped_scheduled, h.nodup, h.kept,
      fun id' hid' => h.marks id' (Finset.mem_of_mem_erase hid'), hd⟩

theorem clock_start (r : Session ε τ ρ) (o : Option (EventEntry ε)) :
    (r.start o).scheduler.clock = r.scheduler.clock := by
  rcases o with _ | ⟨i, t, c, v⟩ | ⟨i, t, id⟩
  · rfl
  · rfl
  · simp only [Session.start]
    rcases beginTask_cases r.scheduler id with ⟨task, -, -, e⟩ | e <;> rw [e]

theorem Wf.execute [EventFrontierPolicy φ] {r : Session ε τ ρ} (h : r.Wf) (policy : φ) :
    Stepped r ({ r with scheduler := (r.scheduler.popWithPolicy policy).2.1 }.start
      (r.scheduler.popWithPolicy policy).1) (.popped (r.scheduler.popWithPolicy policy).1) := by
  obtain ⟨d, hp⟩ := popWithPolicy_spec r.scheduler policy
  generalize r.scheduler.popWithPolicy policy = q at hp
  obtain ⟨_ | e, s', p⟩ := q
  · exact h.exhausted hp
  · have hpop := h.popped hp.1
    cases e with
    | component i t c v => exact hpop
    | task i t id =>
      have hs := h.startable hp.1
      refine ⟨hpop.wf.start hs i t, fun id' hid' => ?_, fun os hos => (hpop.kept os hos).start hs i t, ?_, ?_⟩
      · exact ⟨(hpop.dead id' hid').1.start hs i t, (hpop.dead id' hid').2⟩
      · rw [clock_start]; exact hpop.clock
      · rw [clock_start]; exact hpop.le

section
variable {r : Session ε τ ρ} {id : TaskId} {previous : Option TaskId} {fs : List (TaskId × Option TaskId)}
  (hf : r.frames = (id, previous) :: fs) (c : TaskId → Option ρ)
include hf

theorem Wf.leave (h : r.Wf) :
    Wf ⟨{ r.scheduler with executingTaskId := previous, completedTaskResults := c }, fs⟩ := by
  have hsub : ∀ id' ∈ fs.map (·.1), id' ∈ r.running := fun id' hid' => by
    rw [running, hf]; exact List.mem_cons_of_mem _ hid'
  have hl := h.linked
  rw [hf] at hl
  refine ⟨h.future, h.one, h.bound, h.events_known, h.pending_known,
    fun id' hid' => h.running_known id' (hsub id' hid'),
    fun id' hid' => ?_, fun id' hid' => h.running_out id' (hsub id' hid'), ?_, ?_, hl.2⟩
  · obtain ⟨h₁, h₂, h₃⟩ := h.marked id' hid'
    exact ⟨h₁, h₂, fun hr => h₃ (hsub id' hr)⟩
  · have := h.running_nodup
    rw [running, hf] at this
    exact (List.nodup_cons.mp this).2
  · rw [running, List.head?_map]; exact hl.1

theorem Dead.leave {id' : TaskId} (h : r.Dead id') :
    Dead ⟨{ r.scheduler with executingTaskId := previous, completedTaskResults := c }, fs⟩ id' :=
  ⟨h.known, h.pending, fun hr => h.running
    (by rw [Session.running, hf]; exact List.mem_cons_of_mem _ hr), h.marked⟩

theorem Kept.leave {os : List (Answer ε)} (h : r.Kept os) :
    Kept ⟨{ r.scheduler with executingTaskId := previous, completedTaskResults := c }, fs⟩ os :=
  ⟨h.seq_le, h.held_scheduled, h.popped_scheduled, h.nodup, h.kept, h.marks,
    fun id' hid' => (h.dead id' hid').leave hf c⟩

/-- The task that returns is neither marked nor in the heap, so it can be scheduled again. -/
theorem Wf.again (h : r.Wf) (delay : SimTime) (task : τ) :
    Stepped r ⟨Scheduler.scheduleTaskAt
        { r.scheduler with executingTaskId := previous, completedTaskResults := c }
          (r.scheduler.clock + delay) id task, fs⟩
      (.scheduled (.task (r.scheduler.nextEventId + 1) (r.scheduler.clock + delay) id)) := by
  have hid : id ∈ r.running := by rw [running, hf]; exact List.mem_cons_self
  have hn := h.running_nodup
  rw [running, hf] at hn
  have hd : ∀ id', r.Dead id' → id' ≠ id := fun id' h' e => h'.running (e ▸ hid)
  have hd' := fun id' (h' : r.Dead id') => (h'.leave hf c).scheduleTaskAt (r.scheduler.clock + delay)
    (hd id' h') task
  refine ⟨(h.leave hf c).scheduleTaskAt (SimTime.le_add _ _) (h.running_known id hid)
    (List.nodup_cons.mp hn).1
    (fun hm => (h.marked id hm).2.2 hid) (h.running_out id hid).2 task, fun id' h' => ⟨hd' id' h', nofun⟩,
    fun os hos => ?_, rfl, le_rfl⟩
  exact hos.push rfl rfl rfl rfl hd'

end

/-- An answer that is not about an event or a successful cancellation. -/
theorem Kept.finished {r : Session ε τ ρ} {os : List (Answer ε)} (h : r.Kept os) :
    r.Kept (os ++ [Answer.finished]) := by
  have hs : ∀ o, o ∈ os ++ [Answer.finished] ↔ o ∈ os ∨ o = .finished := by simp
  refine ⟨fun e he => ?_, fun e he => ?_, fun e he => ?_, ?_, fun e he => ?_, fun id hid => ?_,
    fun id hid => ?_⟩
  · exact h.seq_le e (((hs _).mp he).resolve_right nofun)
  · exact (hs _).mpr (.inl (h.held_scheduled e he))
  · exact (hs _).mpr (.inl (h.popped_scheduled e (((hs _).mp he).resolve_right nofun)))
  · rw [List.filterMap_append, show [Answer.finished].filterMap Answer.popped? =
      ([] : List (EventEntry ε)) from rfl,
      List.append_nil]
    exact h.nodup
  · rcases h.kept e (((hs _).mp he).resolve_right nofun) with h' | h' | ⟨id, h', h''⟩
    · exact .inl h'
    · exact .inr (.inl ((hs _).mpr (.inl h')))
    · exact .inr (.inr ⟨id, h', (hs _).mpr (.inl h'')⟩)
  · exact (hs _).mpr (.inl (h.marks id hid))
  · exact h.dead id (((hs _).mp hid).resolve_right nofun)

/-! ## Every operation -/

/-- Every operation keeps the invariants. -/
theorem Wf.stepped [EventFrontierPolicy φ] {r r' : Session ε τ ρ} {o : Answer ε} {op : Op ε τ ρ φ} (h : r.Wf)
    (hs : r.step op = some (r', o)) : Stepped r r' o := by
  cases op with
  | schedule delay component event =>
    simp only [Session.step] at hs
    split at hs <;> cases hs
    have hd := fun id (hid : r.Dead id) => hid.schedule delay component event
    exact ⟨h.schedule delay component event, fun id hid => ⟨hd id hid, nofun⟩,
      fun os hos => hos.push rfl rfl rfl rfl hd, rfl, le_rfl⟩
  | scheduleTask delay task =>
    simp only [Session.step] at hs
    split at hs <;> cases hs
    rename_i hn
    have hnew := not_allocated_next hn.1
    have hd : ∀ id, r.Dead id → id ≠ taskIdAt r.scheduler.idSeed (r.scheduler.nextTaskId + 1) :=
      fun id hid e => hnew (e ▸ hid.known)
    have hd' := fun id (hid : r.Dead id) => hid.counted.scheduleTaskAt (r.scheduler.clock + delay)
      (hd id hid) task
    refine ⟨(h.counted hn.1).scheduleTaskAt (SimTime.le_add _ _) ⟨_, le_rfl, rfl⟩
      (fun hr => hnew (h.running_known _ hr))
      (fun hm => hnew (h.marked _ hm).1) (fun e he hid => hnew (h.events_known e he _ hid)) task,
      fun id hid => ⟨hd' id hid, nofun⟩, fun os hos => ?_, rfl, le_rfl⟩
    exact hos.push rfl rfl rfl rfl hd'
  | cancelTask id =>
    cases hs
    exact ⟨h.cancelTask id, fun id' hid' => ⟨hid'.cancelTask id, nofun⟩, fun os hos => hos.cancelTask h id,
      clock_cancelTask .., (clock_cancelTask ..).ge⟩
  | pop => cases hs; exact h.pop
  | popWithPolicy policy => cases hs; exact h.popWithPolicy policy
  | execute policy => cases hs; exact h.execute policy
  | finish again result =>
    simp only [Session.step] at hs
    split at hs
    · cases hs
    rename_i id previous fs hf
    cases again with
    | none =>
      cases hs
      rw [endTask_eq]
      exact ⟨h.leave hf _, fun id' hid' => ⟨hid'.leave hf _, nofun⟩,
        fun os hos => (hos.leave hf _).finished, rfl, le_rfl⟩
    | some again =>
      obtain ⟨delay, task⟩ := again
      have he : r.scheduler.executingTaskId = some id := by rw [h.executing, running, hf]; rfl
      simp only [reschedule, he, Option.map_eq_some_iff, Prod.mk.injEq] at hs
      obtain ⟨q, hq, rfl, rfl⟩ := hs
      split at hq <;> cases hq
      rw [endTask_eq]
      exact h.again hf _ delay task

theorem wf_fresh (seed : BitVec 64) : (fresh seed : Session ε τ ρ).Wf where
  future := nofun
  one := List.nodup_nil
  bound := Nat.zero_le _
  events_known := nofun
  pending_known _ h := absurd rfl h
  running_known := nofun
  marked _ h := absurd h (Finset.notMem_empty _)
  running_out := nofun
  running_nodup := List.nodup_nil
  executing := rfl
  linked := trivial

theorem kept_fresh (seed : BitVec 64) : (fresh seed : Session ε τ ρ).Kept [] :=
  ⟨nofun, nofun, nofun, List.nodup_nil, nofun, fun _ h => absurd h (Finset.notMem_empty _), nofun⟩

end Session

end DesCartes
