import DesCartes.Proof.Task

/-!
# What a `JoinHandle` says of its task

`run_truthful_iff`: a handle that is polled after its task has completed gives the task's value, and
one that says that the task was cancelled is right for good, exactly as long as no handle is polled
of a task that has both completed and been aborted, and no task completes whose handle has been
polled after the task was aborted (`Prompt`).

`poll` looks at the flag that `abort` sets before it looks at the result, and `abort` does not ask
whether there is one (`not_truthful_lateAbort`), nor does the runtime when it completes the task
(`not_truthful_lateCompletion`); and a `RuntimeEvent::Cancel` does nothing to a future that is still
in a spawn queue (`not_truthful_earlyCancel`).
-/

namespace DesCartes.Tasks

variable {τ ω : Type}

/-- A poll of a `JoinHandle`. -/
structure HandlePoll (τ : Type) where
  task : Nat
  /-- What the task had completed with before. -/
  completed : Option τ
  /-- Whether the task had been aborted before. -/
  aborted : Bool
  result : Poll (Except JoinError τ)
deriving DecidableEq

/-- The tasks, and what has happened to them. -/
structure Observed (τ ω : Type) where
  tasks : Tasks τ ω
  /-- The tasks that have completed, and with what. -/
  completions : List (Nat × τ)
  /-- The polls of handles. -/
  polls : List (HandlePoll τ)

/-- The polls of the loop of `poll_join_next`. -/
def setPolls (waker : ω) : Nat → Tasks τ ω → List Nat → List (Nat × Poll (Except JoinError τ))
  | n + 1, s, t :: handles =>
    match s.pollHandle t waker with
    | none => []
    | some (_, .ready result) => [(t, .ready result)]
    | some (s, .pending) => (t, .pending) :: setPolls waker n s (handles ++ [t])
  | _, _, _ => []

/-- The polls of handles that an operation makes. -/
def handlePolls (s : Tasks τ ω) : Op τ ω → List (Nat × Poll (Except JoinError τ))
  | .poll t waker => s.ofCaller t ((s.pollHandle t waker).map fun r => (t, r.2)).toList []
  | .pollJoinNext k waker => (s.sets.get k).elim [] fun handles => setPolls waker handles.length s handles
  | _ => []

/-- The task that an operation completes. -/
def completions (s : Tasks τ ω) : Op τ ω → List (Nat × τ)
  | .complete t value => if (s.tasks.get t).any (·.future = .installed) then [(t, value)] else []
  | _ => []

/-- Whether the task has been aborted. -/
def aborted (s : Tasks τ ω) (t : Nat) : Bool := (s.tasks.get t).any (·.state.cancelled)

namespace Observed

/-- What the task has completed with. -/
def completed (o : Observed τ ω) (t : Nat) : Option τ := (o.completions.find? (·.1 = t)).map (·.2)

/-- After an operation that leads to `s`. -/
def next (o : Observed τ ω) (op : Op τ ω) (s : Tasks τ ω) : Observed τ ω where
  tasks := s
  completions := o.completions ++ o.tasks.completions op
  polls := o.polls ++ (o.tasks.handlePolls op).map fun e => ⟨e.1, o.completed e.1, o.tasks.aborted e.1, e.2⟩

/-- One operation; none where it panics. -/
def step [DecidableEq ω] (o : Observed τ ω) (op : Op τ ω) : Option (Observed τ ω × Answer τ) :=
  (o.tasks.step op).map fun (s, answer) => (o.next op s, answer)

/-- Before a task is spawned. -/
def new : Observed τ ω := ⟨.empty, [], []⟩

/-- A handle that was polled after its task had completed with a value returned that value, and if
one said that its task was cancelled the task has not completed. -/
structure Truthful (o : Observed τ ω) : Prop where
  value : ∀ p ∈ o.polls, ∀ value, p.completed = some value → p.result = .ready (.ok value)
  cancelled : ∀ p ∈ o.polls, ∀ e, p.result = .ready (.error e) → o.completed p.task = none

end Observed

/-- The task has completed, and has been aborted. -/
def Spawned.Both (q : Spawned τ ω) : Prop := q.state.completed = true ∧ q.state.cancelled = true

/-- The task has completed or been aborted, which its handle tells. -/
def ended (s : Tasks τ ω) (t : Nat) : Bool := (s.tasks.get t).any fun q => q.state.completed || q.state.cancelled

/-- The first of the handles whose task has completed or been aborted. -/
def firstEnded (s : Tasks τ ω) (handles : List Nat) : Option Nat :=
  handles.find? s.ended

/-- The handle that answers is not that of a task that has both completed and been aborted; and no
task completes whose handle has been polled after the task was aborted. -/
def Observed.Prompt (o : Observed τ ω) : Op τ ω → Prop
  | .poll t _ => ∀ q, o.tasks.tasks.get t = some q → q.holder = .caller → ¬ q.Both
  | .pollJoinNext k _ => ∀ handles, o.tasks.sets.get k = some handles → ∀ t q, o.tasks.firstEnded handles = some t →
      o.tasks.tasks.get t = some q → ¬ q.Both
  | .complete t _ => ∀ q, o.tasks.tasks.get t = some q → q.future = .installed → ∀ p ∈ o.polls, p.task = t →
      p.aborted = false
  | _ => True

/-! ## Polls of handles -/

/-- What a poll of the handle of the task answers. -/
inductive Spawned.Answers (q : Spawned τ ω) : Poll (Except JoinError τ) → Prop where
  | cancelled (hc : q.state.cancelled = true) : Answers q (.ready (.error .cancelled))
  | completed {value : τ} (hc : q.state.cancelled = false) (hd : q.state.completed = true) (hr : q.state.result = some value) :
      Answers q (.ready (.ok value))
  | pending (hc : q.state.cancelled = false) (hd : q.state.completed = false) : Answers q .pending

/-- No task completes: a result may be taken, a future be dropped, and a task be spawned. -/
structure Spared (s s' : Tasks τ ω) : Prop where
  next : s.tasks.next ≤ s'.tasks.next
  get : ∀ t q', s'.tasks.get t = some q' →
    (∃ q, s.tasks.get t = some q ∧ q'.state.completed = q.state.completed ∧
      (∀ value, q'.state.result = some value → q.state.result = some value) ∧ (q.future = .gone → q'.future = .gone)) ∨
    (s.tasks.next ≤ t ∧ q'.state.completed = false ∧ q'.state.result = none)

section
variable {s s' s'' : Tasks τ ω} {t : Nat} {q : Spawned τ ω} {waker : ω} {result : Poll (Except JoinError τ)}

theorem Spared.refl (s : Tasks τ ω) : s.Spared s := ⟨le_rfl, fun _ q h => .inl ⟨q, h, rfl, fun _ => id, id⟩⟩

theorem Spared.trans (h : s.Spared s') (h' : s'.Spared s'') : s.Spared s'' := by
  refine ⟨h.next.trans h'.next, fun t q'' ht => ?_⟩
  rcases h'.get t q'' ht with ⟨q', ht', hd', hr', hrun'⟩ | ⟨hle, hnew⟩
  · rcases h.get t q' ht' with ⟨q, ht, hd, hr, hrun⟩ | ⟨hle, hd, hr⟩
    · exact .inl ⟨q, ht, hd'.trans hd, fun v hv => hr v (hr' v hv), fun hv => hrun' (hrun hv)⟩
    · refine .inr ⟨hle, hd'.trans hd, ?_⟩
      cases hv : q''.state.result with
      | none => rfl
      | some v => rw [← hr' v hv, hr]
  · exact .inr ⟨h.next.trans hle, hnew⟩

theorem Spared.set (ht : s.tasks.get t = some q) {q' : Spawned τ ω}
    (hd : q'.state.completed = q.state.completed)
    (hr : ∀ value, q'.state.result = some value → q.state.result = some value)
    (hrun : q.future = .gone → q'.future = .gone) (sets : Table (List Nat)) (cancels : List Nat) :
    s.Spared ⟨s.tasks.set t q', sets, cancels⟩ := by
  refine ⟨le_rfl, fun u r hu => .inl ?_⟩
  rcases (Table.get_set_eq_some ht).mp hu with ⟨rfl, rfl⟩ | ⟨-, hu⟩
  · exact ⟨q, ht, hd, hr, hrun⟩
  · exact ⟨r, hu, rfl, fun _ => id, id⟩

theorem Spared.sets (h : s.Spared s') (sets : Table (List Nat)) : s.Spared { s' with sets } := ⟨h.next, h.get⟩

theorem spared_spawn (s : Tasks τ ω) (holder : Holder) : s.Spared (s.spawn holder) := by
  refine ⟨Nat.le_succ _, fun t q' ht => ?_⟩
  rcases Table.get_insert_eq_some.mp ht with ⟨rfl, rfl⟩ | ht
  · exact .inr ⟨le_rfl, rfl, rfl⟩
  · exact (Spared.refl s).get t q' ht

theorem spared_dropHandle (s : Tasks τ ω) (t : Nat) : s.Spared (s.dropHandle t) := by
  simp only [dropHandle]
  split
  · exact .refl s
  · rename_i q ht
    refine .set ht ?_ ?_ ?_ _ _
    exacts [rfl, fun _ => id, id]

theorem spared_abortDetached (s : Tasks τ ω) (t : Nat) : s.Spared (s.abortDetached t) := by
  simp only [abortDetached]
  split
  · exact .refl s
  · rename_i q ht
    refine .set ht ?_ ?_ ?_ _ _
    exacts [rfl, fun _ => id, id]

theorem spared_cancel (s : Tasks τ ω) (t : Nat) : s.Spared (s.cancel t) := by
  simp only [cancel]
  split
  · exact .refl s
  · rename_i q ht
    split
    · refine .set ht ?_ ?_ ?_ _ _
      · rw [state_remove]
      · rw [state_remove]
        exact fun _ => id
      · intro hgone
        simp [Spawned.remove, hgone]
    · exact .refl s

theorem spared_drainSpawnQueues (s : Tasks τ ω) : s.Spared s.drainSpawnQueues := by
  refine ⟨le_rfl, fun t q' ht => .inl ?_⟩
  obtain ⟨q, hq, rfl⟩ := Table.get_map_eq_some.mp ht
  refine ⟨q, hq, ?_⟩
  rw [state_install]
  refine ⟨rfl, fun _ => id, fun hgone => ?_⟩
  simp [Spawned.install, hgone]

/-- A poll of a handle: what it answers, and what it leaves when it is pending. -/
theorem pollHandle_spec (hs : s.pollHandle t waker = some (s', result)) : s.Spared s' ∧
    ∃ q, s.tasks.get t = some q ∧ q.Answers result ∧
      (result = .pending → ∃ q', s'.tasks = s.tasks.set t q' ∧
        q'.state = { q.state with waker := some waker }) := by
  simp only [pollHandle] at hs
  split at hs
  · cases hs
  · rename_i q ht
    obtain ⟨⟨state, r⟩, hpoll, hs⟩ := Option.map_eq_some_iff.mp hs
    simp only [JoinState.poll] at hpoll
    split at hpoll
    · rename_i hc
      cases hpoll
      cases hs
      refine ⟨.set ht ?_ ?_ ?_ _ _, q, ht, .cancelled hc, by rintro ⟨⟩⟩
      exacts [rfl, fun _ => id, id]
    · rename_i hc
      have hc : q.state.cancelled = false := by simpa using hc
      split at hpoll
      · rename_i hd
        obtain ⟨value, hv, e⟩ := Option.map_eq_some_iff.mp hpoll
        cases e
        cases hs
        refine ⟨.set ht ?_ ?_ ?_ _ _, q, ht, .completed hc hd hv, by rintro ⟨⟩⟩
        exacts [rfl, by rintro _ ⟨⟩, id]
      · rename_i hd
        cases hpoll
        cases hs
        refine ⟨.set ht ?_ ?_ ?_ _ _, q, ht, .pending hc (by simpa using hd), fun _ => ⟨_, rfl, rfl⟩⟩
        exacts [rfl, fun _ => id, id]

theorem ended_iff (ht : s.tasks.get t = some q) (ha : q.Answers result) :
    s.ended t = true ↔ result ≠ .pending := by
  simp only [ended, ht, Option.any_some, Bool.or_eq_true]
  cases ha with
  | cancelled hc => simp [hc]
  | completed hc hd hr => simp [hd]
  | pending hc hd => simp [hc, hd]

/-- What a pending poll leaves of the tasks. -/
theorem get_of_waker {q' : Spawned τ ω} (ht : s.tasks.get t = some q) (hs : s'.tasks = s.tasks.set t q')
    (hq : q'.state = { q.state with waker := some waker }) (u : Nat) :
    (∀ r', s'.tasks.get u = some r' → ∃ r, s.tasks.get u = some r ∧ ∀ result,
      r'.Answers result → r.Answers result) ∧
      s'.ended u = s.ended u := by
  have hsame : ∀ result, q'.Answers result → q.Answers result := by
    rintro _ (hc | ⟨hc, hd, hr⟩ | ⟨hc, hd⟩) <;> rw [hq] at *
    · exact .cancelled hc
    · exact .completed hc hd hr
    · exact .pending hc hd
  by_cases hu : u = t
  · subst hu
    have hget : s'.tasks.get u = some q' := by
      rw [hs]
      exact Table.get_set_self ht
    refine ⟨fun r' hr' => ?_, ?_⟩
    · rw [hget] at hr'
      cases hr'
      exact ⟨q, ht, hsame⟩
    · simp only [ended, hget, ht, Option.any_some, hq]
  · have hget : s'.tasks.get u = s.tasks.get u := by
      rw [hs]
      simp only [Table.set, if_neg hu]
    exact ⟨fun r' hr' => ⟨r', hget ▸ hr', fun _ => id⟩, by simp only [ended, hget]⟩

theorem firstEnded_congr (h : ∀ u, s'.ended u = s.ended u) (handles : List Nat) :
    s'.firstEnded handles = s.firstEnded handles :=
  congrArg (handles.find? ·) (funext h)

/-- The loop of `poll_join_next` polls handles until one answers, which is the first whose task has ended. -/
theorem pollSet_spec {n : Nat} {handles handles' : List Nat} {answer : Poll (Option (Except JoinError τ))}
    (hn : n ≤ handles.length) (hs : pollSet waker n s handles = some (s', handles', answer)) : s.Spared s' ∧
    (∀ e ∈ setPolls waker n s handles, ∃ q, s.tasks.get e.1 = some q ∧ q.Answers e.2 ∧
      (e.2 ≠ .pending → s.firstEnded (handles.take n) = some e.1)) ∧
    ∀ t q, s.firstEnded (handles.take n) = some t → s.tasks.get t = some q →
      ∃ r, q.Answers r ∧ (t, r) ∈ setPolls waker n s handles := by
  induction n generalizing s handles with
  | zero =>
    cases hs
    exact ⟨.refl _, by simp [setPolls], by simp [firstEnded]⟩
  | succ n ih =>
    cases handles with
    | nil => cases hs
    | cons t handles =>
      simp only [pollSet] at hs
      rw [List.take_succ_cons]
      split at hs
      · cases hs
      · rename_i s₁ r hpoll
        cases hs
        obtain ⟨hspared, q, ht, ha, -⟩ := pollHandle_spec hpoll
        have hfirst : s.firstEnded (t :: handles'.take n) = some t :=
          List.find?_cons_of_pos ((ended_iff ht ha).mpr (by rintro ⟨⟩))
        have hpolls : setPolls waker (n + 1) s (t :: handles') = [(t, .ready r)] := by
          simp only [setPolls, hpoll]
        rw [hpolls, hfirst]
        refine ⟨hspared, fun e he => ?_, fun u q' hu hq' => ?_⟩
        · rw [List.mem_singleton.mp he]
          exact ⟨q, ht, ha, fun _ => rfl⟩
        · cases hu
          rw [ht] at hq'
          cases hq'
          exact ⟨_, ha, List.mem_singleton_self _⟩
      · rename_i s₁ hpoll
        obtain ⟨hspared, q, ht, ha, hleft⟩ := pollHandle_spec hpoll
        obtain ⟨q', htasks, hstate⟩ := hleft rfl
        have hget := get_of_waker ht htasks hstate
        have hle : n ≤ handles.length := Nat.le_of_succ_le_succ hn
        -- the handle goes to the end, where the loop does not come
        have hfirst : s.firstEnded (t :: handles.take n) = s₁.firstEnded ((handles ++ [t]).take n) := by
          rw [firstEnded_congr fun u => (hget u).2, List.take_append_of_le_length hle]
          refine List.find?_cons_of_neg fun he => ?_
          exact (ended_iff ht ha).mp he rfl
        have hpolls : setPolls waker (n + 1) s (t :: handles) = (t, .pending) :: setPolls waker n s₁
            (handles ++ [t]) := by
          simp only [setPolls, hpoll]
        obtain ⟨hspared', hanswers, hanswered⟩ := ih (by rw [List.length_append]; omega) hs
        rw [hpolls, hfirst]
        refine ⟨hspared.trans hspared', fun e he => ?_, fun u r hu hr => ?_⟩
        · rcases List.mem_cons.mp he with rfl | he
          · exact ⟨q, ht, ha, fun hne => absurd rfl hne⟩
          · obtain ⟨r₁, hr₁, hans, he⟩ := hanswers e he
            obtain ⟨r, hr, hsame⟩ := (hget e.1).1 r₁ hr₁
            exact ⟨r, hr, hsame _ hans, he⟩
        · have hended : s₁.ended u = true := List.find?_some hu
          cases hr₁ : s₁.tasks.get u with
          | none => simp [ended, hr₁] at hended
          | some r₁ =>
            obtain ⟨result, hans, hmem⟩ := hanswered u r₁ hu hr₁
            obtain ⟨r', hr', hsame⟩ := (hget u).1 r₁ hr₁
            rw [hr] at hr'
            cases hr'
            exact ⟨result, hsame _ hans, List.mem_cons_of_mem _ hmem⟩

/-! ## Operations -/

/-- The operation polls handles. -/
def Op.polls : Op τ ω → Bool
  | .poll .. => true
  | .pollJoinNext .. => true
  | _ => false

/-- What the operation's polls of handles answer. -/
structure Polled (s : Tasks τ ω) (op : Op τ ω) : Prop where
  answers : ∀ e ∈ s.handlePolls op, ∃ q, s.tasks.get e.1 = some q ∧ q.Answers e.2 ∧
    (e.2 ≠ .pending → (∃ waker, op = .poll e.1 waker ∧ q.holder = .caller) ∨
      ∃ k waker handles, op = .pollJoinNext k waker ∧ s.sets.get k = some handles ∧ s.firstEnded handles = some e.1)
  caller : ∀ t waker q, op = .poll t waker → s.tasks.get t = some q → q.holder = .caller →
    ∃ r, q.Answers r ∧ (t, r) ∈ s.handlePolls op
  set : ∀ k waker handles t q, op = .pollJoinNext k waker → s.sets.get k = some handles → s.firstEnded handles = some t →
    s.tasks.get t = some q → ∃ r, q.Answers r ∧ (t, r) ∈ s.handlePolls op

/-- An operation that polls no handle. -/
theorem polled_of_nil {op : Op τ ω} (h : s.handlePolls op = []) (hpolls : op.polls = false) :
    s.Polled op := by
  refine ⟨fun _ he => absurd he (h ▸ List.not_mem_nil), ?_, ?_⟩
  · rintro t waker _ rfl
    cases hpolls
  · rintro k waker _ _ _ rfl
    cases hpolls

section
variable [DecidableEq ω]

theorem spared_wake (s : Tasks τ ω) (wakers : List ω) : s.Spared (s.wake wakers) := by
  refine ⟨le_rfl, fun t q' ht => .inl ?_⟩
  obtain ⟨q, hq, rfl⟩ := get_wake.mp ht
  refine ⟨q, hq, ?_⟩
  split <;> exact ⟨rfl, fun _ => id, id⟩

theorem spared_abort (s : Tasks τ ω) (t : Nat) : s.Spared (s.abort t) := by
  simp only [abort]
  split
  · exact .refl s
  · rename_i q ht
    refine .trans (.set ht ?_ ?_ ?_ _ _) (spared_wake _ _)
    exacts [rfl, fun _ => id, id]

omit [DecidableEq ω] in
/-- A loop over handles. -/
theorem spared_foldl {f : Tasks τ ω → Nat → Tasks τ ω} (hf : ∀ (s : Tasks τ ω) t, s.Spared (f s t))
    (s : Tasks τ ω) (handles : List Nat) : s.Spared (handles.foldl f s) := by
  induction handles generalizing s with
  | nil => exact .refl s
  | cons t handles ih => exact (hf s t).trans (ih (f s t))

theorem step_poll {t : Nat} {waker : ω} {ans : Answer τ} (hs : s.step (.poll t waker) = some (s', ans)) :
    s.Polled (.poll t waker) ∧ s.Spared s' := by
  simp only [Tasks.step, ofCaller] at hs
  split at hs
  · rename_i hcaller
    obtain ⟨⟨s₁, result⟩, hpoll, e⟩ := Option.map_eq_some_iff.mp hs
    cases e
    obtain ⟨hspared, q, ht, ha, -⟩ := pollHandle_spec hpoll
    have hpolls : s.handlePolls (.poll t waker) = [(t, result)] := by
      simp only [handlePolls, ofCaller, if_pos hcaller, hpoll]
      rfl
    have hholder : q.holder = .caller := by simpa [ht] using hcaller
    refine ⟨⟨fun e he => ?_, fun u waker' r e hr _ => ?_, by rintro _ _ _ _ _ ⟨⟩⟩, hspared⟩
    · rw [hpolls] at he
      rw [List.mem_singleton.mp he]
      exact ⟨q, ht, ha, fun _ => .inl ⟨waker, rfl, hholder⟩⟩
    · cases e
      rw [ht] at hr
      cases hr
      exact ⟨result, ha, hpolls ▸ List.mem_singleton_self _⟩
  · rename_i hcaller
    cases hs
    have hpolls : s.handlePolls (.poll t waker) = [] := by simp only [handlePolls, ofCaller, if_neg hcaller]
    refine ⟨⟨fun e he => ?_, fun u waker' r e hr hh => ?_, by rintro _ _ _ _ _ ⟨⟩⟩, .refl s⟩
    · rw [hpolls] at he
      cases he
    · cases e
      exact absurd (by simp [hr, hh]) hcaller

theorem step_pollJoinNext {k : Nat} {waker : ω} {ans : Answer τ}
    (hs : s.step (.pollJoinNext k waker) = some (s', ans)) :
    s.Polled (.pollJoinNext k waker) ∧ s.Spared s' := by
  simp only [Tasks.step, ofSet] at hs
  split at hs
  · rename_i hk
    cases hs
    have hpolls : s.handlePolls (.pollJoinNext k waker) = [] := by
      simp only [handlePolls, hk, Option.elim_none]
    refine ⟨⟨fun e he => ?_, by rintro _ _ _ ⟨⟩, fun k' waker' handles t q e hk' => ?_⟩, .refl s⟩
    · rw [hpolls] at he
      cases he
    · cases e
      rw [hk] at hk'
      cases hk'
  · rename_i handles hk
    have hpolls : s.handlePolls (.pollJoinNext k waker) = setPolls waker handles.length s handles := by
      simp only [handlePolls, hk, Option.elim_some]
    simp only [pollJoinNext] at hs
    split at hs
    · rename_i hnil
      cases hs
      rw [hnil] at hk hpolls
      refine ⟨⟨fun e he => ?_, by rintro _ _ _ ⟨⟩, fun k' waker' handles' t q e hk' hfirst => ?_⟩, .refl s⟩
      · rw [hpolls] at he
        cases he
      · cases e
        rw [hk] at hk'
        cases hk'
        cases hfirst
    · obtain ⟨⟨s₁, handles', answer⟩, hpoll, e⟩ := Option.map_eq_some_iff.mp hs
      cases e
      obtain ⟨hspared, hanswers, hanswered⟩ := pollSet_spec le_rfl hpoll
      rw [List.take_length] at hanswers hanswered
      refine ⟨⟨fun e he => ?_, by rintro _ _ _ ⟨⟩, fun k' waker' handles' t q e hk' hfirst ht => ?_⟩,
        hspared.sets _⟩
      · rw [hpolls] at he
        obtain ⟨q, hq, ha, hfirst⟩ := hanswers e he
        exact ⟨q, hq, ha, fun hne => .inr ⟨k, waker, handles, rfl, hk, hfirst hne⟩⟩
      · cases e
        rw [hk] at hk'
        cases hk'
        rw [hpolls]
        exact hanswered t q hfirst ht

theorem step_spec {op : Op τ ω} {ans : Answer τ} (hs : s.step op = some (s', ans)) :
    s.Polled op ∧ ((∀ t value, op ≠ .complete t value) → s.Spared s') := by
  have hset : ∀ {k : Nat} {f : List Nat → Option (Tasks τ ω × Answer τ)}, s.ofSet k f = some (s', ans) →
      (∀ handles, s.sets.get k = some handles → f handles = some (s', ans) → s.Spared s') → s.Spared s' := by
    intro k f hs hf
    simp only [ofSet] at hs
    split at hs
    · cases hs
      exact .refl s
    · rename_i handles hk
      exact hf handles hk hs
  cases op with
  | poll t waker => exact (step_poll hs).imp_right fun hspared _ => hspared
  | pollJoinNext k waker => exact (step_pollJoinNext hs).imp_right fun hspared _ => hspared
  | complete t value =>
    exact ⟨polled_of_nil rfl rfl, fun hne => absurd rfl (hne t value)⟩
  | spawn =>
    cases hs
    exact ⟨polled_of_nil rfl rfl, fun _ => spared_spawn s _⟩
  | abort t =>
    cases hs
    exact ⟨polled_of_nil rfl rfl, fun _ => ofCaller_cases (spared_abort s t) (.refl s)⟩
  | abortDetached t =>
    cases hs
    exact ⟨polled_of_nil rfl rfl, fun _ => spared_abortDetached s t⟩
  | dropHandle t =>
    cases hs
    exact ⟨polled_of_nil rfl rfl, fun _ => ofCaller_cases (spared_dropHandle s t) (.refl s)⟩
  | newSet =>
    cases hs
    exact ⟨polled_of_nil rfl rfl, fun _ => .sets (.refl s) _⟩
  | spawnInto k =>
    refine ⟨polled_of_nil rfl rfl, fun _ => hset hs fun handles _ hs => ?_⟩
    cases hs
    exact .sets (spared_spawn s _) _
  | abortAll k =>
    refine ⟨polled_of_nil rfl rfl, fun _ => hset hs fun handles _ hs => ?_⟩
    cases hs
    exact spared_foldl spared_abort s handles
  | detachAll k =>
    refine ⟨polled_of_nil rfl rfl, fun _ => hset hs fun handles _ hs => ?_⟩
    cases hs
    exact .sets (spared_foldl spared_dropHandle s handles) _
  | dropSet k =>
    refine ⟨polled_of_nil rfl rfl, fun _ => hset hs fun handles _ hs => ?_⟩
    cases hs
    exact .sets ((spared_foldl spared_abort s handles).trans (spared_foldl spared_dropHandle _ handles)) _
  | cancel t =>
    cases hs
    exact ⟨polled_of_nil rfl rfl, fun _ => spared_cancel s t⟩
  | drainSpawnQueues =>
    cases hs
    exact ⟨polled_of_nil rfl rfl, fun _ => spared_drainSpawnQueues s⟩
  | wake waker =>
    cases hs
    exact ⟨polled_of_nil rfl rfl, fun _ => spared_wake s _⟩

end

end

/-! ## The invariant -/

namespace Observed

/-- Between two operations. -/
structure Known (o : Observed τ ω) : Prop where
  completed : ∀ t q, o.tasks.tasks.get t = some q → (q.state.completed = true ↔ o.completed t ≠ none)
  result : ∀ t q value, o.tasks.tasks.get t = some q → q.state.result = some value → o.completed t = some value
  there : ∀ t q, o.tasks.tasks.get t = some q → q.future ≠ .gone → q.state.completed = false
  fresh : ∀ t, o.tasks.tasks.next ≤ t → o.completed t = none
  aborted : ∀ p ∈ o.polls, p.aborted = true ↔ p.result = .ready (.error .cancelled)
  truthful : o.Truthful

section
variable [DecidableEq ω] {o : Observed τ ω} {s' : Tasks τ ω} {op : Op τ ω} {ans : Answer τ}

omit [DecidableEq ω] in
theorem known_new : (new : Observed τ ω).Known := by
  refine ⟨fun t q ht => ?_, fun t q _ ht => ?_, fun t q ht => ?_, fun t _ => rfl, fun p hp => ?_,
    fun p hp => ?_, fun p hp => ?_⟩
  all_goals first | cases ht | cases hp

omit [DecidableEq ω] in
theorem completed_next_of_nil (h : o.tasks.completions op = []) (t : Nat) :
    (o.next op s').completed t = o.completed t := by
  simp only [completed, next, h, List.append_nil]

omit [DecidableEq ω] in
/-- A handle answers that its task was cancelled exactly if that had been aborted. -/
theorem Known.aborted_next (h : o.Known) (hp : o.tasks.Polled op) :
    ∀ p ∈ (o.next op s').polls, p.aborted = true ↔ p.result = .ready (.error .cancelled) := by
  intro p hmem
  rcases List.mem_append.mp hmem with hmem | hmem
  · exact h.aborted p hmem
  · obtain ⟨⟨t, result⟩, he, rfl⟩ := List.mem_map.mp hmem
    obtain ⟨q, hq, ha, -⟩ := hp.answers _ he
    replace hq : o.tasks.tasks.get t = some q := hq
    simp only [Tasks.aborted, hq, Option.any_some]
    cases ha with
    | cancelled hc => simp [hc]
    | completed hc hd hr => simp [hc]
    | pending hc hd => simp [hc]

omit [DecidableEq ω] in
/-- The polls of an operation after which nothing of the past is told otherwise. -/
theorem Known.truthful_next (h : o.Known) (hp : o.tasks.Polled op) (hC : o.Prompt op)
    (hcompleted : ∀ p ∈ o.polls, ∀ e, p.result = .ready (.error e) → (o.next op s').completed p.task = none)
    (hnil : o.tasks.handlePolls op ≠ [] → o.tasks.completions op = []) : (o.next op s').Truthful := by
  have hanswer : ∀ e ∈ o.tasks.handlePolls op, ∀ q, o.tasks.tasks.get e.1 = some q → e.2 ≠ .pending →
      ¬ q.Both := by
    intro e he q hq hne
    obtain ⟨q', hq', -, hwho⟩ := hp.answers e he
    rw [hq] at hq'
    cases hq'
    rcases hwho hne with ⟨waker, rfl, hholder⟩ | ⟨k, waker, handles, rfl, hk, hfirst⟩
    · exact hC q hq hholder
    · exact hC handles hk e.1 q hfirst hq
  refine ⟨fun p hmem value hv => ?_, fun p hmem e he => ?_⟩
  · rcases List.mem_append.mp hmem with hmem | hmem
    · exact h.truthful.value p hmem value hv
    · obtain ⟨⟨t, result⟩, he, rfl⟩ := List.mem_map.mp hmem
      obtain ⟨q, hq, ha, -⟩ := hp.answers _ he
      replace hv : o.completed t = some value := hv
      have hdone : q.state.completed = true := (h.completed t q hq).mpr (by rw [hv]; rintro ⟨⟩)
      cases ha with
      | cancelled hc => exact absurd ⟨hdone, hc⟩ (hanswer _ he q hq (by rintro ⟨⟩))
      | completed hc hd hr =>
        rw [h.result t q _ hq hr] at hv
        cases hv
        rfl
      | pending hc hd =>
        rw [hd] at hdone
        cases hdone
  · rcases List.mem_append.mp hmem with hmem | hmem
    · exact hcompleted p hmem e he
    · obtain ⟨⟨t, result⟩, hpoll, rfl⟩ := List.mem_map.mp hmem
      obtain ⟨q, hq, ha, -⟩ := hp.answers _ hpoll
      replace he : result = .ready (.error e) := he
      have hnot : ¬ q.state.completed = true := fun hd => by
        have hboth := hanswer _ hpoll q hq (by rw [he]; rintro ⟨⟩)
        cases ha with
        | cancelled hc => exact hboth ⟨hd, hc⟩
        | completed hc hd hr => cases he
        | pending hc hd' => cases he
      rw [completed_next_of_nil (hnil (List.ne_nil_of_mem hpoll))]
      by_contra hne
      exact hnot ((h.completed t q hq).mpr hne)

omit [DecidableEq ω] in
/-- No task completes. -/
theorem Known.spared (h : o.Known) (hs : o.tasks.Spared s') (hp : o.tasks.Polled op) (hC : o.Prompt op)
    (hnil : o.tasks.completions op = []) : (o.next op s').Known := by
  have hsame : ∀ t, (o.next op s').completed t = o.completed t := completed_next_of_nil hnil
  refine ⟨fun t q' ht => ?_, fun t q' value ht hv => ?_, fun t q' ht hrun => ?_, fun t ht => ?_,
    h.aborted_next hp, ?_⟩
  · rw [hsame]
    rcases hs.get t q' ht with ⟨q, hq, hd, -, -⟩ | ⟨hle, hd, -⟩
    · rw [hd]
      exact h.completed t q hq
    · simp [hd, h.fresh t hle]
  · rw [hsame]
    rcases hs.get t q' ht with ⟨q, hq, -, hr, -⟩ | ⟨-, -, hr⟩
    · exact h.result t q value hq (hr value hv)
    · rw [hr] at hv
      cases hv
  · rcases hs.get t q' ht with ⟨q, hq, hd, -, hr⟩ | ⟨-, hd, -⟩
    · rw [hd]
      exact h.there t q hq (mt hr hrun)
    · exact hd
  · rw [hsame]
    exact h.fresh t (hs.next.trans ht)
  · refine h.truthful_next hp hC (fun p hmem e he => ?_) fun _ => hnil
    rw [hsame]
    exact h.truthful.cancelled p hmem e he

omit [DecidableEq ω] in
theorem completed_next_complete {t : Nat} (hrun : (o.tasks.tasks.get t).any (·.future = .installed) = true) (value : τ)
    (hnone : o.completed t = none) (u : Nat) :
    (o.next (.complete t value) s').completed u = if u = t then some value else o.completed u := by
  simp only [completed, next, Tasks.completions, if_pos hrun, List.find?_append, List.find?_singleton]
  by_cases hu : u = t
  · subst hu
    rw [completed, Option.map_eq_none_iff] at hnone
    simp [hnone]
  · simp [hu, Ne.symm hu]

omit [DecidableEq ω] in
theorem Known.completed_of_installed (h : o.Known) {t : Nat} {q : Spawned τ ω}
    (ht : o.tasks.tasks.get t = some q) (hq : q.future = .installed) : o.completed t = none := by
  by_contra hne
  have hd := (h.completed t q ht).mpr hne
  rw [h.there t q ht (by rw [hq]; rintro ⟨⟩)] at hd
  cases hd

/-- A task completes, if the runtime has its future. -/
theorem Known.complete (h : o.Known) (t : Nat) (value : τ) (hC : o.Prompt (.complete t value)) :
    (o.next (.complete t value) (o.tasks.complete t value)).Known := by
  have hpolled : o.tasks.Polled (.complete t value) := polled_of_nil rfl rfl
  by_cases hrun : (o.tasks.tasks.get t).any (·.future = .installed) = true
  · obtain ⟨q, ht, hq⟩ := (Option.any_eq_true _ _).mp hrun
    have hq : q.future = .installed := of_decide_eq_true hq
    have hnone := h.completed_of_installed ht hq
    have hnext : ∀ u, (o.next (.complete t value) (o.tasks.complete t value)).completed u =
        if u = t then some value else o.completed u := completed_next_complete hrun value hnone
    have hget : ∀ u r, (o.tasks.complete t value).tasks.get u = some r →
        (u = t ∧ r.state.completed = true ∧ r.state.result = some value ∧ r.future = .gone) ∨
        (u ≠ t ∧ ∃ r₀, o.tasks.tasks.get u = some r₀ ∧ r.state = r₀.state ∧ r.future = r₀.future) := by
      intro u r hr
      simp only [Tasks.complete, ht, if_pos hq] at hr
      obtain ⟨r₀, hr₀, rfl⟩ := get_wake.mp hr
      rcases (Table.get_set_eq_some ht).mp hr₀ with ⟨rfl, rfl⟩ | ⟨hu, hr₀⟩
      · left
        split <;> exact ⟨rfl, rfl, rfl, rfl⟩
      · right
        refine ⟨hu, r₀, hr₀, ?_⟩
        split <;> exact ⟨rfl, rfl⟩
    refine ⟨fun u r hr => ?_, fun u r v hr hv => ?_, fun u r hr hthere => ?_, fun u hu => ?_,
      h.aborted_next hpolled, ?_⟩
    · rw [hnext]
      rcases hget u r hr with ⟨rfl, hd, -, -⟩ | ⟨hu, r₀, hr₀, hstate, -⟩
      · simp [hd]
      · rw [if_neg hu, hstate]
        exact h.completed u r₀ hr₀
    · rw [hnext]
      rcases hget u r hr with ⟨rfl, -, hresult, -⟩ | ⟨hu, r₀, hr₀, hstate, -⟩
      · rw [if_pos rfl, ← hresult, hv]
      · rw [if_neg hu]
        exact h.result u r₀ v hr₀ (hstate ▸ hv)
    · rcases hget u r hr with ⟨-, -, -, hgone⟩ | ⟨-, r₀, hr₀, hstate, he⟩
      · exact absurd hgone hthere
      · rw [hstate]
        exact h.there u r₀ hr₀ (he ▸ hthere)
    · have hsize : (o.tasks.complete t value).tasks.next = o.tasks.tasks.next := by
        simp only [Tasks.complete, ht, if_pos hq]
        rfl
      have hu : o.tasks.tasks.next ≤ u := hsize ▸ hu
      have hlt := Table.lt_next (t := o.tasks.tasks) ht
      rw [hnext, if_neg (by omega)]
      exact h.fresh u hu
    · refine h.truthful_next hpolled hC (fun p hmem e he => ?_) fun hne => absurd rfl hne
      have hp : p.task ≠ t := fun hp => by
        have hno := hC q ht hq p hmem hp
        rw [(h.aborted p hmem).mpr he] at hno
        cases hno
      rw [hnext, if_neg hp]
      exact h.truthful.cancelled p hmem e he
  · have hnil : o.tasks.completions (.complete t value) = [] := if_neg hrun
    have hsame : o.tasks.complete t value = o.tasks := by
      simp only [Tasks.complete]
      split
      · rfl
      · rename_i q ht
        rw [if_neg (by simpa [ht] using hrun)]
    rw [hsame]
    exact h.spared (.refl _) hpolled hC hnil

theorem Known.step (h : o.Known) (hC : o.Prompt op) (hs : o.tasks.step op = some (s', ans)) :
    (o.next op s').Known := by
  by_cases hop : ∃ t value, op = .complete t value
  · obtain ⟨t, value, rfl⟩ := hop
    cases hs
    exact h.complete t value hC
  · have hop : ∀ t value, op ≠ .complete t value := fun t value e => hop ⟨t, value, e⟩
    obtain ⟨hpolled, hspared⟩ := step_spec hs
    refine h.spared (hspared hop) hpolled hC ?_
    cases op with
    | complete t value => exact absurd rfl (hop t value)
    | _ => rfl

omit [DecidableEq ω] in
/-- A handle that was polled of a task that had both completed and been aborted did not return its value. -/
theorem Known.not_both (h : o.Known) (hafter : (o.next op s').Truthful) {t : Nat} {q : Spawned τ ω}
    (ht : o.tasks.tasks.get t = some q) {result : Poll (Except JoinError τ)} (ha : q.Answers result)
    (hmem : (t, result) ∈ o.tasks.handlePolls op) : ¬ q.Both := by
  rintro ⟨hd, hc⟩
  obtain ⟨value, hv⟩ := Option.ne_none_iff_exists'.mp ((h.completed t q ht).mp hd)
  have hresult : result = .ready (.ok value) :=
    hafter.value ⟨t, o.completed t, o.tasks.aborted t, result⟩ (List.mem_append_right _ (List.mem_map_of_mem hmem)) value hv
  rw [hresult] at ha
  cases ha with
  | completed hno =>
    rw [hc] at hno
    cases hno

/-- An operation that is not prompt shows. -/
theorem Known.prompt (h : o.Known) (hs : o.tasks.step op = some (s', ans))
    (hafter : (o.next op s').Truthful) : o.Prompt op := by
  obtain ⟨hpolled, -⟩ := step_spec hs
  cases op with
  | poll t waker =>
    intro q ht hh
    obtain ⟨result, ha, hmem⟩ := hpolled.caller t waker q rfl ht hh
    exact h.not_both hafter ht ha hmem
  | pollJoinNext k waker =>
    intro handles hk t q hfirst ht
    obtain ⟨result, ha, hmem⟩ := hpolled.set k waker handles t q rfl hk hfirst ht
    exact h.not_both hafter ht ha hmem
  | complete t value =>
    intro q ht hq p hp hpt
    by_contra hno
    have he := (h.aborted p hp).mp (by simpa using hno)
    have hnone := hafter.cancelled p (List.mem_append_left _ hp) .cancelled he
    rw [completed_next_complete (by simp [ht, hq]) value (h.completed_of_installed ht hq), if_pos hpt] at hnone
    cases hnone
  | _ => trivial

/-! ## Runs -/

/-- In every run: whoever polls the handle of a task that has completed gets its value, and a task
whose handle said that it was cancelled has not completed, in all states on the way, exactly if no
handle is polled of a task that has both completed and been aborted, and no task completes whose
handle has been polled after the task was aborted. -/
theorem run_truthful_iff {o : Observed τ ω} {ops : List (Op τ ω)} {answers : List (Answer τ)}
    (h : Machine.run step new ops = some (o, answers)) :
    Machine.Along Prompt step new ops ↔
      ∀ pre o' answers', pre <+: ops → Machine.run step (new : Observed τ ω) pre = some (o', answers') → o'.Truthful := by
  refine Machine.along_iff (K := Known) (P := Truthful) (fun o h => h.truthful)
    (fun o op o' ans h hC hs => ?_)
    (fun o op o' ans h hs hafter => ?_) known_new h
  · obtain ⟨⟨s', ans'⟩, hstep, e⟩ := Option.map_eq_some_iff.mp hs
    cases e
    exact h.step hC hstep
  · obtain ⟨⟨s', ans'⟩, hstep, e⟩ := Option.map_eq_some_iff.mp hs
    cases e
    exact h.prompt hstep hafter

/-- One task completes and is joined, and aborted only then; another is aborted, joined and dropped
by the runtime. -/
def twoTasks : List (Op Nat Nat) :=
  [.spawn, .drainSpawnQueues, .complete 0 7, .poll 0 5, .abortDetached 0, .spawn, .drainSpawnQueues,
    .abort 1, .poll 1 5, .cancel 1, .complete 1 8]

theorem run_truthful_iff_two : ∃ o answers, Machine.run step (new : Observed Nat Nat) twoTasks = some (o, answers) ∧
    o.polls = [⟨0, some 7, false, .ready (.ok 7)⟩, ⟨1, none, true, .ready (.error .cancelled)⟩] ∧ o.Truthful := by
  have h : Machine.run step (new : Observed Nat Nat) twoTasks = some (_, _) := rfl
  refine ⟨_, _, h, rfl, (run_truthful_iff h).mp ?_ _ _ _ (List.prefix_refl _) h⟩
  iterate 2
    refine ⟨trivial, fun o _ e => ?_⟩
    cases e
  refine ⟨fun q _ _ p hp => absurd hp List.not_mem_nil, fun o _ e => ?_⟩
  cases e
  refine ⟨fun q ht _ hboth => ?_, fun o _ e => ?_⟩
  · cases ht
    cases hboth.2
  cases e
  iterate 4
    refine ⟨trivial, fun o _ e => ?_⟩
    cases e
  refine ⟨fun q ht _ hboth => ?_, fun o _ e => ?_⟩
  · cases ht
    cases hboth.1
  cases e
  refine ⟨trivial, fun o _ e => ?_⟩
  cases e
  -- the runtime has dropped the future, so it does not complete any more
  refine ⟨fun q ht hrun => ?_, fun _ _ _ => trivial⟩
  cases ht
  cases hrun

/-- A task completes, is aborted before its handle is polled, and the value is lost. -/
theorem not_truthful_lateAbort : ∃ o answers, Machine.run step (new : Observed Nat Nat)
      [.spawn, .drainSpawnQueues, .complete 0 7, .abort 0, .poll 0 5] = some (o, answers) ∧
    o.polls = [⟨0, some 7, true, .ready (.error .cancelled)⟩] ∧ ¬ o.Truthful := by
  refine ⟨_, _, rfl, rfl, fun h => ?_⟩
  cases h.value _ (List.mem_singleton_self _) 7 rfl

/-- A task is aborted, its handle says so, and the task completes before the runtime has processed
the cancellation. -/
theorem not_truthful_lateCompletion : ∃ o answers, Machine.run step (new : Observed Nat Nat)
      [.spawn, .drainSpawnQueues, .abort 0, .poll 0 5, .complete 0 7, .cancel 0] = some (o, answers) ∧
    o.polls = [⟨0, none, true, .ready (.error .cancelled)⟩] ∧ o.completed 0 = some 7 ∧ ¬ o.Truthful := by
  refine ⟨_, _, rfl, rfl, rfl, fun h => ?_⟩
  cases h.cancelled _ (List.mem_singleton_self _) .cancelled rfl

/-- The runtime processes the cancellation of a task whose future is still in the spawn queue, takes
the task up afterwards, and it completes. -/
theorem not_truthful_earlyCancel : ∃ o answers, Machine.run step (new : Observed Nat Nat)
      [.spawn, .abort 0, .poll 0 5, .cancel 0, .drainSpawnQueues, .complete 0 7] = some (o, answers) ∧
    o.polls = [⟨0, none, true, .ready (.error .cancelled)⟩] ∧ o.completed 0 = some 7 ∧ ¬ o.Truthful := by
  refine ⟨_, _, rfl, rfl, rfl, fun h => ?_⟩
  cases h.cancelled _ (List.mem_singleton_self _) .cancelled rfl

end

end Observed

end DesCartes.Tasks
