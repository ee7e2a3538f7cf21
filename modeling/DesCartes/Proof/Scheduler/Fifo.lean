import DesCartes.Proof.Scheduler.Contract

/-!
# The default order of events

`pop` and `pop_with_policy` under `FifoFrontierPolicy` leave different heaps and different marks
behind, since the latter drops every cancelled event of the frontier and pushes the rest back. What
they agree on is the queue of the live events (`Scheduler.live`), in the order of time and
sequence number: both take its head (`pop_live`, `popWithPolicy_live`). Two schedulers with the same
live events, counters, clock and pending tasks (`Same`) answer alike in every run.

* `Wf.live_perm`: what a pop takes is gone from the live events, and nothing else;
* `agree_step`: the operations keep `Same`, a `pop` on one side and a FIFO pop on the other;
* `run_pop_eq_run_fifo`: the runs.
-/

namespace DesCartes

namespace Scheduler

variable {ε τ ρ : Type}

open EventEntry (Before)

/-- Not the event of a task that is marked as cancelled. -/
def Live (s : Scheduler ε τ ρ) (e : EventEntry ε) : Prop := ∀ id ∈ e.taskId, id ∉ s.cancelledTasks

instance (s : Scheduler ε τ ρ) (e : EventEntry ε) : Decidable (s.Live e) :=
  inferInstanceAs (Decidable (∀ id ∈ e.taskId, id ∉ s.cancelledTasks))

/-- The events of the heap that are not cancelled, in the order of time and sequence number. -/
def live (s : Scheduler ε τ ρ) : List (EventEntry ε) := s.events.toList.filter (s.Live ·)

theorem live_sorted (s : Scheduler ε τ ρ) : s.live.Pairwise Before :=
  (s.events.sorted.imp EventEntry.isLE_compare.mp).sublist List.filter_sublist

theorem live_subset {s : Scheduler ε τ ρ} {e : EventEntry ε} (h : e ∈ s.live) : e ∈ s.events.toList :=
  List.mem_of_mem_filter h

theorem seq_eq_of_before {a b : EventEntry ε} (hab : Before a b) (hba : Before b a) : a.seq = b.seq := by
  rcases hab with hab | ⟨hab, h₁⟩ <;> rcases hba with hba | ⟨hba, h₂⟩
  · exact absurd hab hba.not_gt
  · exact absurd hab hba.not_gt
  · exact absurd hba hab.not_gt
  · omega

/-- Sorted lists of the same events are the same when no two events have one sequence number. -/
theorem eq_of_sorted {l l' : List (EventEntry ε)} (hp : l.Perm l') (hl : l.Pairwise Before)
    (hl' : l'.Pairwise Before) (hn : (l.map EventEntry.seq).Nodup) : l = l' := by
  refine List.Perm.eq_of_pairwise (fun a b ha hb hab hba => ?_) hl hl' hp
  exact List.inj_on_of_nodup_map hn ha (hp.mem_iff.mpr hb) (seq_eq_of_before hab hba)

/-- An event that is added and not cancelled is live. -/
theorem live_push {s s' : Scheduler ε τ ρ} {e : EventEntry ε} (he : s'.events = s.events.push e)
    (hc : s'.cancelledTasks = s.cancelledTasks) (hl : s.Live e) : s'.live.Perm (e :: s.live) := by
  have hL : ∀ x, s'.Live x ↔ s.Live x := fun x => by rw [Live, Live, hc]
  have hp := (BinaryHeap.push_perm s.events e).filter (s.Live ·)
  rw [List.filter_cons, if_pos (decide_eq_true hl)] at hp
  rw [live, live, he]
  simpa only [hL] using hp

/-- Cancelling a task takes its event from the live ones. -/
theorem live_cancelTask (s : Scheduler ε τ ρ) (id : TaskId) : (s.cancelTask id).2.live =
    s.live.filter fun e => s.pendingTasks id = none ∨ e.taskId ≠ some id := by
  rw [live, live, events_cancelTask, List.filter_filter]
  refine List.filter_congr fun e _ => ?_
  rw [← Bool.decide_and, decide_eq_decide, Live, Live]
  simp only [mem_cancelledTasks_cancelTask, not_or, not_and, not_not]
  refine ⟨fun h => ⟨?_, fun id' h' => (h id' h').1⟩, fun h id' h' => ⟨h.2 id' h', fun e' => ?_⟩⟩
  · by_cases he : e.taskId = some id
    · exact .inl ((h id he).2 rfl)
    · exact .inr he
  · rcases h.1 with h | h
    · exact h
    · exact absurd (e' ▸ h' : e.taskId = some id) h

/-- `FifoFrontierPolicy` picks an event with the least sequence number. -/
theorem fifo_index_spec {frontier : List FrontierEvent} (h : frontier ≠ []) :
    ∃ x, frontier[FifoFrontierPolicy.index frontier]? = some x ∧ ∀ y ∈ frontier, x.seq ≤ y.seq := by
  obtain ⟨p, hp⟩ : ∃ p, frontier.zipIdx.argmin (fun p => p.1.seq) = some p := by
    refine Option.ne_none_iff_exists'.mp fun hn => h ?_
    exact List.zipIdx_eq_nil_iff.mp (List.argmin_eq_none.mp hn)
  refine ⟨p.1, ?_, fun y hy => ?_⟩
  · rw [FifoFrontierPolicy.index, hp]
    exact List.mem_zipIdx_iff_getElem?.mp (List.argmin_mem hp)
  · obtain ⟨i, hi⟩ := List.mem_iff_getElem?.mp hy
    exact List.le_of_mem_argmin (f := fun p : FrontierEvent × Nat => p.1.seq)
      (List.mem_zipIdx_iff_getElem?.mpr hi : (y, i) ∈ frontier.zipIdx) hp

/-- The policy chooses as `FifoFrontierPolicy` does. -/
def ChoosesFirst (φ : Type) [EventFrontierPolicy φ] : Prop :=
  ∀ (policy : φ) now frontier,
    (EventFrontierPolicy.choose policy now frontier).1 = FifoFrontierPolicy.index frontier

theorem choosesFirst_fifo : ChoosesFirst FifoFrontierPolicy := fun _ _ _ => rfl

/-- The event chosen under FIFO comes before everything left. -/
theorem Chosen.before_fifo {φ : Type} [EventFrontierPolicy φ] (hfifo : ChoosesFirst φ)
    {s' : Scheduler ε τ ρ} {policy : φ} {e : EventEntry ε} {entries : List (EventEntry ε)}
    (h : Chosen s' policy e entries) : ∀ x ∈ s'.events.toList, Before e x := by
  intro x hx
  rcases h.left x hx with hx | hx
  · refine .inr ⟨(h.time x hx).symm, ?_⟩
    have hc := h.chosen
    simp only [chooseIndex] at hc
    split at hc
    · -- There is only one entry.
      rename_i hlen
      obtain ⟨y, rfl⟩ : ∃ y, entries = [y] :=
        List.length_eq_one_iff.mp (le_antisymm hlen (List.length_pos_iff.mpr (List.ne_nil_of_mem hx)))
      cases hc
      rw [List.mem_singleton.mp hx]
    · have hne : entries.map EventEntry.toFrontierEvent ≠ [] := by simpa using List.ne_nil_of_mem hx
      obtain ⟨y, hy, hle⟩ := fifo_index_spec hne
      have hi := (List.getElem?_eq_some_iff.mp hy).1
      rw [List.length_map] at hi
      rw [hfifo, min_eq_left (by omega)] at hc
      rw [List.getElem?_map, hc] at hy
      cases hy
      simpa using hle _ (List.mem_map_of_mem hx)
  · exact .inl hx

/-- An event that is popped comes before everything left. -/
theorem pop_first {s s' : Scheduler ε τ ρ} {e : EventEntry ε} (h : s.pop = (some e, s')) :
    ∀ x ∈ s'.events.toList, Before e x := by
  obtain ⟨d, hp⟩ := pop_spec s
  rw [h] at hp
  intro x hx
  have hs := s.events.sorted
  rw [hp.2] at hs
  exact EventEntry.isLE_compare.mp (List.rel_of_pairwise_cons (List.pairwise_append.mp hs).2.1 hx)

/-- So does one that is popped under FIFO. -/
theorem popWithPolicy_first {φ : Type} [EventFrontierPolicy φ] (hfifo : ChoosesFirst φ)
    {s s' : Scheduler ε τ ρ} {policy policy' : φ} {e : EventEntry ε}
    (h : s.popWithPolicy policy = (some e, s', policy')) : ∀ x ∈ s'.events.toList, Before e x := by
  obtain ⟨d, hp⟩ := popWithPolicy_spec s policy
  rw [h] at hp
  obtain ⟨-, entries, hc⟩ := hp
  exact hc.before_fifo hfifo

end Scheduler

namespace Session

variable {ε τ ρ : Type} {r r₁ r₂ : Session ε τ ρ}

open Scheduler
open EventEntry (Before)

/-- The invariants of a session that a run from a fresh scheduler has led to. -/
structure Reached (r : Session ε τ ρ) : Prop where
  wf : r.Wf
  kept : ∃ os, r.Kept os

theorem Reached.step {φ : Type} [EventFrontierPolicy φ] {r' : Session ε τ ρ} {o : Answer ε} (h : r.Reached)
    (op : Op ε τ ρ φ) (hs : r.step op = some (r', o)) : r'.Reached := by
  obtain ⟨os, hk⟩ := h.kept
  exact ⟨(h.wf.stepped hs).wf, _, (h.wf.stepped hs).kept os hk⟩

theorem Reached.seq_nodup (h : r.Reached) : (r.scheduler.live.map EventEntry.seq).Nodup := by
  obtain ⟨os, hk⟩ := h.kept
  have hn := hk.nodup
  rw [List.map_append] at hn
  exact hn.of_append_left.sublist (List.filter_sublist.map _)

/-- What is taken is gone from the live events, and nothing else. -/
theorem Wf.live_perm (h : r.Wf) {s' : Scheduler ε τ ρ} {d l : List (EventEntry ε)}
    (ht : Took r.scheduler s' d l) :
    r.scheduler.live.Perm (l ++ s'.live) := by
  have hL : ∀ e ∈ l ++ s'.events.toList, r.scheduler.Live e ↔ s'.Live e := by
    intro e he
    refine forall₂_congr fun id hid => not_congr ?_
    rw [ht.cancelled]
    exact ⟨fun hc => ⟨hc, fun hd => h.only ht hd he hid⟩, And.left⟩
  have hd : d.filter (r.scheduler.Live ·) = [] := by
    refine List.filter_eq_nil_iff.mpr fun e he hl => ?_
    obtain ⟨id, hid, e'⟩ := ht.dropped e he
    exact of_decide_eq_true hl id e' hid
  have hl : l.filter (r.scheduler.Live ·) = l := by
    refine List.filter_eq_self.mpr fun e he => decide_eq_true ?_
    exact (hL e (List.mem_append_left _ he)).mpr fun id hid => ht.live e he id hid
  have hp := ht.perm.filter (r.scheduler.Live ·)
  rw [List.filter_append, List.filter_append, hd, hl, List.nil_append] at hp
  refine hp.trans (List.Perm.append_left l (List.Perm.of_eq ?_))
  exact List.filter_congr fun e he => decide_eq_decide.mpr (hL e (List.mem_append_right _ he))

/-- An event that is popped and comes before everything left is the head of the live events. -/
theorem Reached.live_popped (h : r.Reached) {s' : Scheduler ε τ ρ} {d : List (EventEntry ε)}
    {e : EventEntry ε} (hp : Popped r.scheduler s' d e) (hb : ∀ x ∈ s'.events.toList, Before e x) :
    r.scheduler.live = e :: s'.live := by
  refine eq_of_sorted (h.wf.live_perm hp.took) (live_sorted _) ?_ h.seq_nodup
  exact List.pairwise_cons.mpr ⟨fun x hx => hb x (live_subset hx), live_sorted _⟩

theorem Reached.live_exhausted (h : r.Reached) {s' : Scheduler ε τ ρ} {d : List (EventEntry ε)}
    (he : Exhausted r.scheduler s' d) : r.scheduler.live = [] ∧ s'.live = [] := by
  have hs : s'.live = [] := by rw [live, he.nil]; rfl
  have hp := h.wf.live_perm he.took
  rw [hs] at hp
  exact ⟨List.perm_nil.mp hp, hs⟩

/-- `s'` is `s` after the head of its live events has been popped and answered. -/
structure TookHead (s s' : Scheduler ε τ ρ) (o : Option (EventEntry ε)) : Prop where
  answer : o = s.live.head?
  live : s'.live = s.live.tail
  clock : s'.clock = o.elim s.clock EventEntry.time
  pending : s'.pendingTasks = s.pendingTasks
  nextEventId : s'.nextEventId = s.nextEventId
  nextTaskId : s'.nextTaskId = s.nextTaskId
  idSeed : s'.idSeed = s.idSeed

theorem Reached.tookHead_exhausted (h : r.Reached) {s' : Scheduler ε τ ρ} {d : List (EventEntry ε)}
    (he : Exhausted r.scheduler s' d) : TookHead r.scheduler s' none := by
  obtain ⟨h₁, h₂⟩ := h.live_exhausted he
  have hk := he.took.keep
  exact ⟨by rw [h₁]; rfl, by rw [h₁, h₂]; rfl, he.took.clock, by rw [hk], by rw [hk], by rw [hk], by rw [hk]⟩

theorem Reached.tookHead_popped (h : r.Reached) {s' : Scheduler ε τ ρ} {d : List (EventEntry ε)}
    {e : EventEntry ε} (hp : Popped r.scheduler s' d e) (hb : ∀ x ∈ s'.events.toList, Before e x) :
    TookHead r.scheduler s' (some e) := by
  have hl := h.live_popped hp hb
  have hk := hp.keep
  exact ⟨by rw [hl]; rfl, by rw [hl]; rfl, hp.clock, by rw [hk], by rw [hk], by rw [hk], by rw [hk]⟩

/-- `pop` takes the head of the live events. -/
theorem Reached.pop_live (h : r.Reached) : TookHead r.scheduler r.scheduler.pop.2 r.scheduler.pop.1 := by
  obtain ⟨d, hp⟩ := pop_spec r.scheduler
  generalize hq : r.scheduler.pop = q at hp ⊢
  obtain ⟨_ | e, s'⟩ := q
  · exact h.tookHead_exhausted hp
  · exact h.tookHead_popped hp.1 (pop_first hq)

/-- So does `pop_with_policy` under FIFO. -/
theorem Reached.popWithPolicy_live (h : r.Reached) (policy : FifoFrontierPolicy) :
    TookHead r.scheduler (r.scheduler.popWithPolicy policy).2.1 (r.scheduler.popWithPolicy policy).1 := by
  obtain ⟨d, hp⟩ := popWithPolicy_spec r.scheduler policy
  generalize hq : r.scheduler.popWithPolicy policy = q at hp ⊢
  obtain ⟨_ | e, s', p⟩ := q
  · exact h.tookHead_exhausted hp
  · exact h.tookHead_popped hp.1 (popWithPolicy_first choosesFirst_fifo hq)

/-- Two schedulers that answer alike. -/
structure Same (s₁ s₂ : Scheduler ε τ ρ) : Prop where
  live : s₁.live = s₂.live
  clock : s₁.clock = s₂.clock
  pending : s₁.pendingTasks = s₂.pendingTasks
  nextEventId : s₁.nextEventId = s₂.nextEventId
  nextTaskId : s₁.nextTaskId = s₂.nextTaskId
  idSeed : s₁.idSeed = s₂.idSeed

theorem Same.tookHead {s₁ s₂ s₁' s₂' : Scheduler ε τ ρ} {o₁ o₂ : Option (EventEntry ε)} (h : Same s₁ s₂)
    (h₁ : TookHead s₁ s₁' o₁) (h₂ : TookHead s₂ s₂' o₂) : Same s₁' s₂' ∧ o₁ = o₂ := by
  have ho : o₁ = o₂ := by rw [h₁.answer, h₂.answer, h.live]
  refine ⟨⟨?_, ?_, ?_, ?_, ?_, ?_⟩, ho⟩
  · rw [h₁.live, h₂.live, h.live]
  · rw [h₁.clock, h₂.clock, h.clock, ho]
  · rw [h₁.pending, h₂.pending, h.pending]
  · rw [h₁.nextEventId, h₂.nextEventId, h.nextEventId]
  · rw [h₁.nextTaskId, h₂.nextTaskId, h.nextTaskId]
  · rw [h₁.idSeed, h₂.idSeed, h.idSeed]

/-- The live events stay the same when the same event is added on both sides. -/
theorem Same.live_push {s₁ s₂ : Scheduler ε τ ρ} (h : Same s₁ s₂) {s₁' s₂' : Scheduler ε τ ρ}
    {e : EventEntry ε} (h₁ : s₁'.live.Perm (e :: s₁.live)) (h₂ : s₂'.live.Perm (e :: s₂.live))
    (hn : (s₁'.live.map EventEntry.seq).Nodup) : s₁'.live = s₂'.live := by
  rw [← h.live] at h₂
  exact eq_of_sorted (h₁.trans h₂.symm) (live_sorted _) (live_sorted _) hn

/-- The operations of a scheduler's owner, with a pop yet to be chosen. -/
inductive QueueOp (ε τ : Type) where
  | schedule (delay : SimTime) (component : Uuid) (event : ε)
  | scheduleTask (delay : SimTime) (task : τ)
  | cancelTask (taskId : TaskId)
  | pop

/-- The operation on the scheduler, which pops with `popOp`. -/
def QueueOp.op {φ : Type} (popOp : Op ε τ ρ φ) : QueueOp ε τ → Op ε τ ρ φ
  | .schedule delay c event => .schedule delay c event
  | .scheduleTask delay task => .scheduleTask delay task
  | .cancelTask id => .cancelTask id
  | .pop => popOp

/-- The relation that the operations keep. -/
structure Agree (r₁ r₂ : Session ε τ ρ) : Prop where
  reached₁ : r₁.Reached
  reached₂ : r₂.Reached
  same : Same r₁.scheduler r₂.scheduler

/-- A task's event under a new id is not cancelled. -/
theorem Wf.live_next (h : r.Wf) (hn : r.scheduler.nextTaskId < u64Max) (i : Nat) (t : SimTime) :
    r.scheduler.Live (.task i t (taskIdAt r.scheduler.idSeed (r.scheduler.nextTaskId + 1))) := by
  intro id hid hm
  cases hid
  exact not_allocated_next hn (h.marked _ hm).1

theorem Same.schedule {s₁ s₂ : Scheduler ε τ ρ} (h : Same s₁ s₂) (delay : SimTime) (c : Uuid) (v : ε)
    (hn : ((s₁.schedule delay c v).live.map EventEntry.seq).Nodup) :
    Same (s₁.schedule delay c v) (s₂.schedule delay c v) ∧
    s₁.scheduledEvent delay c v = s₂.scheduledEvent delay c v := by
  have he : s₁.scheduledEvent delay c v = s₂.scheduledEvent delay c v := by
    rw [scheduledEvent, scheduledEvent, h.clock, h.nextEventId]
  refine ⟨⟨h.live_push (Scheduler.live_push rfl rfl nofun) ?_ hn, h.clock, h.pending, ?_, h.nextTaskId,
    h.idSeed⟩, he⟩
  · rw [he]; exact Scheduler.live_push rfl rfl nofun
  · exact congrArg (· + 1) h.nextEventId

theorem Same.scheduleTask (h : Same r₁.scheduler r₂.scheduler) (h₁ : r₁.Wf) (h₂ : r₂.Wf)
    (delay : SimTime) (task : τ) (ht : r₁.scheduler.nextTaskId < u64Max)
    (hn : ((r₁.scheduler.scheduleTask delay task).2.live.map EventEntry.seq).Nodup) :
    Same (r₁.scheduler.scheduleTask delay task).2 (r₂.scheduler.scheduleTask delay task).2 ∧
      (r₁.scheduler.scheduleTask delay task).1 = (r₂.scheduler.scheduleTask delay task).1 := by
  have hl₁ := h₁.live_next ht (r₁.scheduler.nextEventId + 1) (r₁.scheduler.clock + delay)
  have hl₂ := h₂.live_next (h.nextTaskId ▸ ht) (r₂.scheduler.nextEventId + 1) (r₂.scheduler.clock + delay)
  have hp₂ : (r₂.scheduler.scheduleTask delay task).2.live.Perm (_ :: _) := Scheduler.live_push rfl rfl hl₂
  rw [← h.idSeed, ← h.nextTaskId, ← h.nextEventId, ← h.clock] at hp₂
  refine ⟨⟨h.live_push (Scheduler.live_push rfl rfl hl₁) hp₂ hn, h.clock, ?_, ?_, ?_, h.idSeed⟩, ?_⟩
  · simp only [Scheduler.scheduleTask, pendingTasks_scheduleTaskAt, h.pending, h.idSeed, h.nextTaskId]
  · exact congrArg (· + 1) h.nextEventId
  · exact congrArg (· + 1) h.nextTaskId
  · simp only [Scheduler.scheduleTask, h.idSeed, h.nextTaskId]

theorem Same.cancelTask {s₁ s₂ : Scheduler ε τ ρ} (h : Same s₁ s₂) (id : TaskId) :
    Same (s₁.cancelTask id).2 (s₂.cancelTask id).2 ∧ (s₁.cancelTask id).1 = (s₂.cancelTask id).1 := by
  refine ⟨⟨?_, ?_, ?_, ?_, ?_, ?_⟩, ?_⟩
  · rw [live_cancelTask, live_cancelTask, h.live, h.pending]
  · simpa using h.clock
  · simp only [pendingTasks_cancelTask, h.pending]
  · simpa using h.nextEventId
  · simpa using h.nextTaskId
  · simpa using h.idSeed
  · rw [fst_cancelTask, fst_cancelTask, h.pending]

theorem Agree.answer {φ : Type} [EventFrontierPolicy φ] (h : Agree r₁ r₂) {op₁ op₂ : Op ε τ ρ φ}
    {s₁ s₂ : Scheduler ε τ ρ} (hs : Same s₁ s₂) {o₁ o₂ : Answer ε} (ho : o₁ = o₂)
    (e₁ : r₁.step op₁ = some (⟨s₁, r₁.frames⟩, o₁)) (e₂ : r₂.step op₂ = some (⟨s₂, r₂.frames⟩, o₂)) :
    Machine.Alike Agree (r₁.step op₁) (r₂.step op₂) := by
  subst ho
  rw [e₁, e₂]
  exact .answer ⟨h.reached₁.step op₁ e₁, h.reached₂.step op₂ e₂, hs⟩

/-- Every operation keeps the relation, a `pop` on one side and a FIFO pop on the other. -/
theorem agree_step (op : QueueOp ε τ) (h : Agree r₁ r₂) :
    Machine.Alike Agree (r₁.step (op.op (φ := FifoFrontierPolicy) .pop))
      (r₂.step (op.op (.popWithPolicy (φ := FifoFrontierPolicy) {}))) := by
  have hs := h.same
  cases op with
  | schedule delay c v =>
    by_cases hn : r₁.scheduler.nextEventId < u64Max
    · have hr := h.reached₁.step (Op.schedule (φ := FifoFrontierPolicy) delay c v) (if_pos hn)
      obtain ⟨h₁, h₂⟩ := hs.schedule delay c v hr.seq_nodup
      exact h.answer h₁ (congrArg _ h₂) (if_pos hn) (if_pos (hs.nextEventId ▸ hn))
    · simp only [QueueOp.op, Session.step, ← hs.nextEventId, if_neg hn]
      exact .panic
  | scheduleTask delay task =>
    by_cases hn : r₁.scheduler.nextTaskId < u64Max ∧ r₁.scheduler.nextEventId < u64Max
    · have hr := h.reached₁.step (Op.scheduleTask (φ := FifoFrontierPolicy) delay task) (if_pos hn)
      obtain ⟨h₁, h₂⟩ := hs.scheduleTask h.reached₁.wf h.reached₂.wf delay task hn.1 hr.seq_nodup
      have ho : Answer.scheduled (.task (r₁.scheduler.nextEventId + 1) (r₁.scheduler.clock + delay)
          (r₁.scheduler.scheduleTask delay task).1) = Answer.scheduled (ε := ε)
          (.task (r₂.scheduler.nextEventId + 1)
          (r₂.scheduler.clock + delay) (r₂.scheduler.scheduleTask delay task).1) := by
        rw [h₂, hs.nextEventId, hs.clock]
      exact h.answer h₁ ho (if_pos hn) (if_pos (hs.nextTaskId ▸ hs.nextEventId ▸ hn))
    · simp only [QueueOp.op, Session.step, ← hs.nextEventId, ← hs.nextTaskId, if_neg hn]
      exact .panic
  | cancelTask id =>
    obtain ⟨h₁, h₂⟩ := hs.cancelTask id
    exact h.answer h₁ (congrArg _ h₂) rfl rfl
  | pop =>
    obtain ⟨h₁, h₂⟩ := hs.tookHead h.reached₁.pop_live (h.reached₂.popWithPolicy_live {})
    exact h.answer h₁ (congrArg _ h₂) rfl rfl

/-- From every state of a scheduler, the same operations with `pop` and with `pop_with_policy` under
FIFO panic alike or give the same answers, in particular the same events, and the same clock; and
the next event either pop gives is the first live one, in the order of time and sequence number. -/
theorem run_pop_eq_run_fifo {φ : Type} [EventFrontierPolicy φ] (idSeed : BitVec 64) (ops₀ : List (Op ε τ ρ φ))
    {r : Session ε τ ρ} {os₀ : List (Answer ε)} (h : Machine.run step (fresh idSeed) ops₀ = some (r, os₀))
    (ops : List (QueueOp ε τ)) :
    Machine.Alike (fun r₁ r₂ : Session ε τ ρ => r₁.scheduler.clock = r₂.scheduler.clock ∧
        r₁.scheduler.live = r₂.scheduler.live ∧ r₁.scheduler.live.Pairwise Before ∧
        r₁.scheduler.pop.1 = r₁.scheduler.live.head? ∧
        (r₂.scheduler.popWithPolicy (φ := FifoFrontierPolicy) {}).1 = r₁.scheduler.live.head?)
      (Machine.run step r (ops.map (·.op (φ := FifoFrontierPolicy) .pop)))
      (Machine.run step r (ops.map (·.op (.popWithPolicy (φ := FifoFrontierPolicy) {})))) := by
  have hr : r.Reached := ⟨(wf_fresh idSeed).run h, _, Kept.run (wf_fresh idSeed) (kept_fresh idSeed) h⟩
  have hrun := Machine.run_related
    (f := (QueueOp.op (φ := FifoFrontierPolicy) .pop : QueueOp ε τ → Op ε τ ρ _))
    (fun _ _ op h => agree_step op h) ⟨hr, hr, rfl, rfl, rfl, rfl, rfl, rfl⟩ ops
  refine hrun.mono fun r₁ r₂ h' => ⟨h'.same.clock, h'.same.live, live_sorted _,
    h'.reached₁.pop_live.answer, ?_⟩
  rw [h'.same.live]
  exact (h'.reached₂.popWithPolicy_live {}).answer

/-- Of three events of one time the task is cancelled, which the FIFO pop notices at once. -/
theorem run_pop_eq_run_fifo_cancelled : ∃ (r r₁ r₂ : Session Unit Unit Unit) (os₀ os : List (Answer Unit)),
    Machine.run step (fresh 7) [Op.schedule (φ := FifoFrontierPolicy) (.saturate 1) 0 (), .scheduleTask (.saturate 1) (),
      .schedule (.saturate 1) 1 (), .cancelTask (taskIdAt 7 1)] = some (r, os₀) ∧
    Machine.run step r ([.pop, .pop].map (QueueOp.op (φ := FifoFrontierPolicy) .pop)) = some (r₁, os) ∧
    Machine.run step r ([.pop, .pop].map (QueueOp.op (.popWithPolicy (φ := FifoFrontierPolicy) {}))) =
      some (r₂, os) ∧
    r₁.scheduler.clock = r₂.scheduler.clock := by
  refine ⟨_, _, _, _, _, rfl, rfl, rfl, ?_⟩
  have h := run_pop_eq_run_fifo (φ := FifoFrontierPolicy) (ε := Unit) (τ := Unit) (ρ := Unit) 7
    [.schedule (.saturate 1) 0 (), .scheduleTask (.saturate 1) (), .schedule (.saturate 1) 1 (),
      .cancelTask (taskIdAt 7 1)] rfl [.pop, .pop]
  cases h with
  | answer h => exact h.1

end Session

end DesCartes
