import DesCartes.Framework.Machine
import DesCartes.Impl.Task

/-!
# Waking who joins a task

`run_joined`: in a run the waker of a `JoinHandle` whose poll was pending has been woken whenever
the task has completed or been cancelled, if and only if no `AbortHandle` is used while such a waker
has not been woken.

`AbortHandle::abort` sets the flag, but leaves the waker alone (`abortDetached_hangs`).
-/

namespace DesCartes.Tasks

variable {τ ω : Type}

/-- The task has completed or been cancelled, or its future is gone. -/
def Spawned.Ended (q : Spawned τ ω) : Prop :=
  q.state.completed = true ∨ q.state.cancelled = true ∨ q.future = .gone

/-- When the last poll of the handle was pending and the task has ended, the poll's waker has been woken. -/
def Spawned.Joined (q : Spawned τ ω) : Prop :=
  q.holder ≠ .nobody → q.pending ≠ none → q.Ended → q.woken = true

/-- Whoever waits for a task that has ended has been woken. -/
def Joined (s : Tasks τ ω) : Prop := ∀ t q, s.tasks.get t = some q → q.Joined

/-- No `AbortHandle` is used while a poll of the task's handle is pending and its waker has not been woken. -/
def Considerate (s : Tasks τ ω) : Op τ ω → Prop
  | .abortDetached t => ∀ q, s.tasks.get t = some q → q.holder ≠ .nobody → q.pending ≠ none → q.woken = true
  | _ => True

/-- What holds of a task: its handle's waker is registered until it is woken. -/
structure Spawned.Good (q : Spawned τ ω) : Prop where
  registered : ∀ w, q.pending = some w → q.woken = false → q.state.waker = some w
  ended : q.future = .gone → q.state.completed = true ∨ q.state.cancelled = true
  joined : q.Joined

/-- What every operation keeps that is considerate. -/
structure Kept (s : Tasks τ ω) : Prop where
  good : ∀ t q, s.tasks.get t = some q → q.Good
  known : ∀ t ∈ s.cancels, t < s.tasks.next
  cancels : ∀ t q, t ∈ s.cancels → s.tasks.get t = some q → q.state.cancelled = true

section
variable {s s' : Tasks τ ω} {t : Nat} {q q' : Spawned τ ω}

/-- A poll of which nothing is pending. -/
theorem Spawned.good_of_pending_eq_none (hp : q.pending = none)
    (he : q.future = .gone → q.state.completed = true ∨ q.state.cancelled = true) : q.Good :=
  ⟨fun w hw => absurd (hp.symm.trans hw) (by simp), he, fun _ hn => absurd hp hn⟩

theorem Kept.set (h : s.Kept) (ht : s.tasks.get t = some q) (hG : q'.Good)
    (hc : q.state.cancelled = true → q'.state.cancelled = true) {sets : Table (List Nat)} {cancels : List Nat}
    (hcancels : ∀ u ∈ cancels, u ∈ s.cancels ∨ u = t ∧ q'.state.cancelled = true) :
    Kept ⟨s.tasks.set t q', sets, cancels⟩ := by
  refine ⟨fun u r hr => ?_, fun u hu => ?_, fun u r hu hr => ?_⟩
  · rcases (Table.get_set_eq_some ht).mp hr with ⟨rfl, rfl⟩ | ⟨hut, hr⟩
    · exact hG
    · exact h.good u r hr
  · rcases hcancels u hu with hu | ⟨rfl, -⟩
    · exact h.known u hu
    · exact Table.lt_next (t := s.tasks) ht
  · rcases (Table.get_set_eq_some ht).mp hr with ⟨rfl, rfl⟩ | ⟨hut, hr⟩
    · rcases hcancels u hu with hu | ⟨-, hu⟩
      · exact hc (h.cancels u q hu ht)
      · exact hu
    · rcases hcancels u hu with hu | ⟨rfl, -⟩
      · exact h.cancels u r hu hr
      · exact absurd rfl hut

theorem Kept.spawn (h : s.Kept) (holder : Holder) : (s.spawn holder).Kept := by
  refine ⟨fun u r hr => ?_, fun u hu => (h.known u hu).trans (Nat.lt_succ_self _), fun u r hu hr => ?_⟩
  · rcases Table.get_insert_eq_some.mp hr with ⟨-, rfl⟩ | hr
    · exact Spawned.good_of_pending_eq_none rfl fun e => by cases e
    · exact h.good u r hr
  · rcases Table.get_insert_eq_some.mp hr with ⟨rfl, -⟩ | hr
    · exact absurd (h.known _ hu) (Nat.lt_irrefl _)
    · exact h.cancels u r hu hr

theorem Kept.dropHandle (h : s.Kept) (t : Nat) : (s.dropHandle t).Kept := by
  simp only [Tasks.dropHandle]
  split
  · exact h
  · rename_i q ht
    have hq := h.good t q ht
    refine h.set ht ?_ ?_ ?_
    · exact Spawned.good_of_pending_eq_none rfl hq.ended
    · exact id
    · exact fun u hu => .inl hu

theorem Kept.pollHandle (h : s.Kept) {waker : ω} {result : Poll (Except JoinError τ)}
    (hs : s.pollHandle t waker = some (s', result)) : s'.Kept := by
  simp only [Tasks.pollHandle] at hs
  split at hs
  · cases hs
  · rename_i q ht
    have hq := h.good t q ht
    simp only [Option.map_eq_some_iff] at hs
    obtain ⟨⟨state, r⟩, hpoll, hs⟩ := hs
    simp only [JoinState.poll] at hpoll
    split at hpoll
    · cases hpoll
      cases hs
      refine h.set ht ?_ ?_ ?_
      · exact Spawned.good_of_pending_eq_none rfl hq.ended
      · exact id
      · exact fun u hu => .inl hu
    · rename_i hcancelled
      split at hpoll
      · obtain ⟨value, -, e⟩ := Option.map_eq_some_iff.mp hpoll
        cases e
        cases hs
        refine h.set ht ?_ ?_ ?_
        · exact Spawned.good_of_pending_eq_none rfl hq.ended
        · exact id
        · exact fun u hu => .inl hu
      · rename_i hcompleted
        cases hpoll
        cases hs
        have hno : ¬ (q.state.completed = true ∨ q.state.cancelled = true) := by simp [hcompleted, hcancelled]
        refine h.set ht ?_ ?_ ?_
        · refine ⟨fun w hw _ => hw, hq.ended, fun _ _ he => ?_⟩
          rcases he with he | he | he
          · exact absurd (.inl he) hno
          · exact absurd (.inr he) hno
          · exact absurd (hq.ended he) hno
        · exact id
        · exact fun u hu => .inl hu

theorem Kept.pollSet {waker : ω} {n : Nat} {handles handles' : List Nat}
    {result : Poll (Option (Except JoinError τ))} (h : s.Kept)
    (hs : pollSet waker n s handles = some (s', handles', result)) : s'.Kept := by
  induction n generalizing s handles with
  | zero =>
    cases hs
    exact h
  | succ n ih =>
    cases handles with
    | nil => cases hs
    | cons t handles =>
      simp only [Tasks.pollSet] at hs
      split at hs
      · cases hs
      · rename_i hpoll
        cases hs
        exact h.pollHandle hpoll
      · rename_i hpoll
        exact ih (h.pollHandle hpoll) hs

/-- The kept facts do not depend on the sets. -/
theorem Kept.sets (h : s.Kept) (sets : Table (List Nat)) :
    Kept { s with sets } := ⟨h.good, h.known, h.cancels⟩

theorem Kept.abortDetached (h : s.Kept)
    (hc : ∀ q, s.tasks.get t = some q → q.holder ≠ .nobody → q.pending ≠ none → q.woken = true) :
    (s.abortDetached t).Kept := by
  simp only [Tasks.abortDetached]
  split
  · exact h
  · rename_i q ht
    have hq := h.good t q ht
    refine h.set ht ?_ (fun _ => rfl) fun u hu => ?_
    · exact ⟨hq.registered, fun _ => .inr rfl, fun hh hp _ => hc q ht hh hp⟩
    · exact (List.mem_append.mp hu).imp_right fun e => ⟨List.mem_singleton.mp e, rfl⟩

@[simp] theorem state_remove (q : Spawned τ ω) : q.remove.state = q.state := by
  simp only [Spawned.remove]
  split <;> rfl

@[simp] theorem state_install (q : Spawned τ ω) : q.install.state = q.state := by
  simp only [Spawned.install]
  split <;> rfl

/-- The spawn queues are drained. -/
theorem Kept.drainSpawnQueues (h : s.Kept) : s.drainSpawnQueues.Kept := by
  refine ⟨fun u r hr => ?_, h.known, fun u r hu hr => ?_⟩
  · obtain ⟨r₀, hr₀, rfl⟩ := Table.get_map_eq_some.mp hr
    have hq := h.good u r₀ hr₀
    simp only [Spawned.install]
    split
    · refine ⟨hq.registered, by rintro ⟨⟩, fun hh hp he => hq.joined hh hp ?_⟩
      rcases he with he | he | he
      · exact .inl he
      · exact .inr (.inl he)
      · cases he
    · exact hq
  · obtain ⟨r₀, hr₀, rfl⟩ := Table.get_map_eq_some.mp hr
    rw [state_install]
    exact h.cancels u r₀ hu hr₀

theorem Kept.cancel (h : s.Kept) (t : Nat) : (s.cancel t).Kept := by
  simp only [Tasks.cancel]
  split
  · exact h
  · rename_i q ht
    split
    · rename_i hmem
      have hq := h.good t q ht
      have hcancelled := h.cancels t q hmem ht
      refine h.set ht ?_ ?_ ?_
      · simp only [Spawned.remove]
        split
        · exact ⟨hq.registered, fun _ => .inr hcancelled,
            fun hh hp _ => hq.joined hh hp (.inr (.inl hcancelled))⟩
        · exact hq
      · exact (congrArg JoinState.cancelled (state_remove q)).trans
      · exact fun u hu => .inl (List.mem_of_mem_erase hu)
    · exact h

section
variable [DecidableEq ω]

/-- A task after a wake. -/
theorem get_wake {wakers : List ω} {u : Nat} {r : Spawned τ ω} : (s.wake wakers).tasks.get u = some r ↔
    ∃ r₀, s.tasks.get u = some r₀ ∧
    (if ∃ w ∈ wakers, r₀.pending = some w then { r₀ with woken := true } else r₀) = r :=
  Table.get_map_eq_some

theorem Spawned.Good.wake (h : q.Good) (wakers : List ω) :
    Spawned.Good (if ∃ w ∈ wakers, q.pending = some w then { q with woken := true } else q) := by
  split
  · exact ⟨fun _ _ e => (by cases e), h.ended, fun _ _ _ => rfl⟩
  · exact h

theorem cancelled_wake {wakers : List ω} {u : Nat} {r : Spawned τ ω}
    (hr : (s.wake wakers).tasks.get u = some r) :
    ∃ r₀, s.tasks.get u = some r₀ ∧ r.state = r₀.state := by
  obtain ⟨r₀, hr₀, rfl⟩ := get_wake.mp hr
  refine ⟨r₀, hr₀, ?_⟩
  split <;> rfl

theorem Kept.wake (h : s.Kept) (wakers : List ω) : (s.wake wakers).Kept := by
  refine ⟨fun u r hr => ?_, h.known, fun u r hu hr => ?_⟩
  · obtain ⟨r₀, hr₀, rfl⟩ := get_wake.mp hr
    exact (h.good u r₀ hr₀).wake wakers
  · obtain ⟨r₀, hr₀, e⟩ := cancelled_wake hr
    rw [e]
    exact h.cancels u r₀ hu hr₀

/-- A task ends, and the waker that is registered is woken. -/
theorem Kept.notify (h : s.Kept) (ht : s.tasks.get t = some q) {state : JoinState τ ω} {future : Place}
    (he : future = .gone → state.completed = true ∨ state.cancelled = true)
    (hc : q.state.cancelled = true → state.cancelled = true) {cancels : List Nat}
    (hcancels : ∀ u ∈ cancels, u ∈ s.cancels ∨ u = t ∧ state.cancelled = true) :
    (Tasks.wake { s with tasks := s.tasks.set t { q with state, future }, cancels } q.state.waker.toList).Kept := by
  have hq := h.good t q ht
  refine ⟨fun u r hr => ?_, fun u hu => ?_, fun u r hu hr => ?_⟩
  · obtain ⟨r₀, hr₀, rfl⟩ := get_wake.mp hr
    rcases (Table.get_set_eq_some ht).mp hr₀ with ⟨rfl, rfl⟩ | ⟨-, hr₀⟩
    · split
      · exact ⟨fun _ _ e => (by cases e), he, fun _ _ _ => rfl⟩
      · -- its waker is not the one that is registered, so it has been woken
        rename_i hno
        have hwoken : ∀ w, q.pending = some w → q.woken = true := by
          intro w hw
          by_contra hf
          exact hno ⟨w, by simp [hq.registered w hw (by simpa using hf)], hw⟩
        refine ⟨fun w hw hf => absurd (hwoken w hw) (by simpa using hf), he, fun _ hp _ => ?_⟩
        obtain ⟨w, hw⟩ := Option.ne_none_iff_exists'.mp hp
        exact hwoken w hw
    · exact (h.good u r₀ hr₀).wake _
  · rcases hcancels u hu with hu | ⟨rfl, -⟩
    · exact h.known u hu
    · exact Table.lt_next (t := s.tasks) ht
  · obtain ⟨r₀, hr₀, e⟩ := cancelled_wake hr
    rw [e]
    rcases (Table.get_set_eq_some ht).mp hr₀ with ⟨rfl, rfl⟩ | ⟨hut, hr₀⟩
    · rcases hcancels u hu with hu | ⟨-, hu⟩
      · exact hc (h.cancels u q hu ht)
      · exact hu
    · rcases hcancels u hu with hu | ⟨rfl, -⟩
      · exact h.cancels u r₀ hu hr₀
      · exact absurd rfl hut

theorem Kept.abort (h : s.Kept) (t : Nat) : (s.abort t).Kept := by
  simp only [Tasks.abort]
  split
  · exact h
  · rename_i q ht
    refine h.notify ht ?_ ?_ ?_
    · exact fun _ => .inr rfl
    · exact fun _ => rfl
    · exact fun u hu => (List.mem_append.mp hu).imp_right fun e => ⟨List.mem_singleton.mp e, rfl⟩

theorem Kept.complete (h : s.Kept) (t : Nat) (value : τ) : (s.complete t value).Kept := by
  simp only [Tasks.complete]
  split
  · exact h
  · rename_i q ht
    split
    · refine h.notify ht ?_ ?_ fun u hu => .inl hu
      · exact fun _ => .inl rfl
      · exact id
    · exact h

omit [DecidableEq ω] in
/-- What a loop over handles keeps. -/
theorem Kept.foldl {f : Tasks τ ω → Nat → Tasks τ ω} (hf : ∀ s t, Kept s → Kept (f s t))
    (h : s.Kept) (handles : List Nat) :
    (handles.foldl f s).Kept := by
  induction handles generalizing s with
  | nil => exact h
  | cons t handles ih => exact ih (hf s t h)

omit [DecidableEq ω] in
theorem ofCaller_cases {β : Type} {f otherwise : β} {P : β → Prop} (hf : P f) (ho : P otherwise) :
    P (s.ofCaller t f otherwise) := by
  simp only [ofCaller]
  split
  · exact hf
  · exact ho

theorem Kept.step (h : s.Kept) {op : Op τ ω} (hc : s.Considerate op) {ans : Answer τ}
    (hs : s.step op = some (s', ans)) :
    s'.Kept := by
  have hset : ∀ {k : Nat} {f : List Nat → Option (Tasks τ ω × Answer τ)}, s.ofSet k f = some (s', ans) →
      (∀ handles, f handles = some (s', ans) → s'.Kept) → s'.Kept := by
    intro k f hs hf
    simp only [ofSet] at hs
    split at hs
    · cases hs
      exact h
    · exact hf _ hs
  cases op with
  | spawn => cases hs; exact h.spawn _
  | poll t waker =>
    simp only [Tasks.step] at hs
    revert hs
    refine ofCaller_cases (P := fun x => x = some (s', ans) → s'.Kept) (fun hs => ?_) fun hs => ?_
    · obtain ⟨⟨s'', result⟩, hpoll, e⟩ := Option.map_eq_some_iff.mp hs
      cases e
      exact h.pollHandle hpoll
    · cases hs
      exact h
  | abort t => cases hs; exact ofCaller_cases (h.abort t) h
  | abortDetached t => cases hs; exact h.abortDetached hc
  | dropHandle t => cases hs; exact ofCaller_cases (h.dropHandle t) h
  | newSet => cases hs; exact h.sets _
  | spawnInto k =>
    refine hset hs fun handles hs => ?_
    cases hs
    exact (h.spawn _).sets _
  | pollJoinNext k waker =>
    refine hset hs fun handles hs => ?_
    simp only [pollJoinNext] at hs
    split at hs
    · cases hs
      exact h
    · obtain ⟨⟨s'', handles', result⟩, hpoll, e⟩ := Option.map_eq_some_iff.mp hs
      cases e
      exact (h.pollSet hpoll).sets _
  | abortAll k =>
    refine hset hs fun handles hs => ?_
    cases hs
    exact h.foldl (fun s t hs => hs.abort t) handles
  | detachAll k =>
    refine hset hs fun handles hs => ?_
    cases hs
    exact (h.foldl (fun s t hs => hs.dropHandle t) handles).sets _
  | dropSet k =>
    refine hset hs fun handles hs => ?_
    cases hs
    exact ((h.foldl (fun s t hs => hs.abort t) handles).foldl (fun s t hs => hs.dropHandle t) handles).sets _
  | drainSpawnQueues => cases hs; exact h.drainSpawnQueues
  | complete t value => cases hs; exact h.complete t value
  | cancel t => cases hs; exact h.cancel t
  | wake waker => cases hs; exact h.wake _

/-- After an `AbortHandle` is used, who joins the task has been woken only if that was so before. -/
theorem considerate_of_joined {op : Op τ ω} {ans : Answer τ} (hs : s.step op = some (s', ans))
    (hj : s'.Joined) :
    s.Considerate op := by
  cases op with
  | abortDetached t =>
    intro q ht hh hp
    cases hs
    simp only [Tasks.abortDetached, ht] at hj
    exact hj t { q with state := { q.state with cancelled := true } } (Table.get_set_self ht) hh hp
      (.inr (.inl rfl))
  | _ => trivial

end

end

/-! ## Runs -/

section
variable [DecidableEq ω]

omit [DecidableEq ω] in
theorem kept_empty : (empty : Tasks τ ω).Kept :=
  ⟨fun _ _ h => (by cases h), fun _ h => (by cases h), fun _ _ h => by cases h⟩

/-- Whoever waits for a task that has ended has been woken, in all states of a run, if and only if
no `AbortHandle` is used on a task for which someone waits who has not been woken. -/
theorem run_joined {s : Tasks τ ω} {ops : List (Op τ ω)} {answers : List (Answer τ)}
    (h : Machine.run step .empty ops = some (s, answers)) :
    (∀ pre s' answers', pre <+: ops → Machine.run step .empty pre = some (s', answers') → s'.Joined) ↔
      Machine.Along Considerate step .empty ops :=
  (Machine.along_iff (K := Kept) (P := Joined) (fun _ hs t q ht => (hs.good t q ht).joined)
    (fun _ _ _ _ hs hc h => hs.step hc h)
    (fun _ _ _ _ _ h hj => considerate_of_joined h hj) kept_empty h).symm

/-- A task is spawned and joined, and the runtime takes it up. -/
def joining : List (Op Nat Nat) := [.spawn, .poll 0 5, .drainSpawnQueues]

theorem run_joined_abort : ∃ s answers, Machine.run step (.empty : Tasks Nat Nat)
    (joining ++ [.abort 0, .cancel 0]) = some (s, answers) ∧
    s.Joined ∧ ∃ q, s.tasks.get 0 = some q ∧ q.Ended ∧ q.pending = some 5 := by
  have h : Machine.run step (.empty : Tasks Nat Nat) (joining ++ [.abort 0, .cancel 0]) = some (_, _) := rfl
  refine ⟨_, _, h, (run_joined h).mpr ?_ _ _ _ List.prefix_rfl h, _, rfl, .inr (.inl rfl), rfl⟩
  exact ⟨trivial, fun _ _ _ => ⟨trivial, fun _ _ _ => ⟨trivial, fun _ _ _ =>
    ⟨trivial, fun _ _ _ => ⟨trivial, fun _ _ _ => trivial⟩⟩⟩⟩⟩

/-- The task is cancelled through an `AbortHandle`, and who joins it is never woken. -/
theorem abortDetached_hangs : ∃ s answers,
    Machine.run step (.empty : Tasks Nat Nat) (joining ++ [.abortDetached 0, .cancel 0]) = some (s, answers) ∧ ¬ s.Joined := by
  have h : Machine.run step (.empty : Tasks Nat Nat) (joining ++ [.abortDetached 0, .cancel 0]) = some
    (_, _) := rfl
  refine ⟨_, _, h, fun hj => ?_⟩
  cases hj 0 _ rfl (by decide) (by decide) (.inr (.inl rfl))

end

end DesCartes.Tasks
