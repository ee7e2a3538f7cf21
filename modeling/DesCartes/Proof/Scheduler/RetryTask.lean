import DesCartes.Proof.Scheduler.TaskChain

/-!
# The attempts of a `RetryTask`

A `RetryTask` that fails is scheduled again under its own id, after a delay that is doubled each
time. The factor is a power of two in a `u64`, so that the 65th retry, the one after 65 failed
attempts, is never scheduled: the power overflows. Where that does not happen the task is what it is
meant to be (`run_retried_iff`).

* `Retrying`: the invariant of the task's executions;
* `Does.records`: what is done to the task keeps it, until the power overflows.
-/

namespace DesCartes.TaskSystem

open Scheduler

variable {ε κ ρ φ : Type} {id : TaskId} {operation : κ} {maxAttempts : Nat} {baseDelay : SimTime}

namespace Observed


/-- Each attempt but the first follows a failed one, after the base delay times the power of two. -/
def Spaced (baseDelay : SimTime) (started : List SimTime) (returned : List (Returned ρ)) : Prop :=
  ∀ k r t, returned[k]? = some r → started[k + 1]? = some t → r.ok = false ∧ t = r.time + baseDelay * 2 ^ k

/-- The result of the last attempt, if there is no other one after it. -/
def lastResult (maxAttempts : Nat) (returned : List (Returned ρ)) : List ρ :=
  match returned.getLast? with
  | some r => if r.ok = true ∨ maxAttempts ≤ returned.length then r.value.toList else []
  | none => []

/-- What a `RetryTask` is meant to have done, and to be about to do. -/
structure Retried (maxAttempts : Nat) (baseDelay : SimTime) (id : TaskId) (c : Observed ε κ ρ) : Prop where
  count : c.started.length ≤ max 1 maxAttempts
  spaced : Spaced baseDelay c.started c.returned
  /-- The attempt after a failed one has been started, or is pending. -/
  retries : c.stopped = false → ∀ r, c.returned.getLast? = some r → r.ok = false → c.returned.length < maxAttempts →
    c.started.length = c.returned.length + 1 ∨
      ∃ task, c.system.At id (.pending (r.time + baseDelay * 2 ^ (c.returned.length - 1)) task)
  results : c.results id = lastResult maxAttempts c.returned
  safe : c.panicked = false

/-! ## The invariant -/

/-- Every attempt has failed, and there is another one. -/
structure Failing (maxAttempts : Nat) (returned : List (Returned ρ)) (results : List ρ) : Prop where
  failed : ∀ r ∈ returned, r.ok = false
  short : returned.length < max 1 maxAttempts
  bound : returned.length ≤ 64
  results : results = []

/-- The task before its next attempt. -/
def nextAttempt (operation : κ) (maxAttempts : Nat) (baseDelay : SimTime) (returned : List (Returned ρ)) : TaskExecution κ :=
  .retry ⟨operation, maxAttempts, returned.length, baseDelay⟩

/-- The record of a task in the phase. -/
def Retrying (operation : κ) (maxAttempts : Nat) (baseDelay : SimTime) (started : List SimTime) (returned : List (Returned ρ))
    (stopped : Bool) (results : List ρ) : Phase κ → Prop
  | .pending due task => started.length = returned.length ∧ Failing maxAttempts returned results ∧
      task = nextAttempt operation maxAttempts baseDelay returned ∧
      ∀ r, returned.getLast? = some r → due = r.time + baseDelay * 2 ^ (returned.length - 1)
  | .lost => started.length = returned.length ∧ Failing maxAttempts returned results ∧ stopped = true
  | .running task => started.length = returned.length + 1 ∧ Failing maxAttempts returned results ∧
      task = nextAttempt operation maxAttempts baseDelay returned
  | .dead => started.length = returned.length ∧ Failing maxAttempts returned results ∧ stopped = true
  | .ended => started.length = returned.length ∧ returned.length ≤ max 1 maxAttempts ∧ returned.length ≤ 65 ∧
      ∃ r, returned.getLast? = some r ∧ (r.ok = true ∨ maxAttempts ≤ returned.length) ∧ results = r.value.toList

/-- The power of two overflowed, after the 65th attempt failed. -/
def Overflowed (maxAttempts : Nat) (returned : List (Returned ρ)) : Prop :=
  65 < maxAttempts ∧ ∃ r, returned[64]? = some r ∧ r.ok = false

section
variable {started : List SimTime} {returned : List (Returned ρ)} {stopped : Bool} {results : List ρ}

/-- Once the operation has returned. -/
theorem execute_nextAttempt (ok : Bool) : (nextAttempt operation maxAttempts baseDelay returned).execute ok =
    if ok = true ∨ maxAttempts ≤ returned.length + 1 then some none
    else if returned.length < 64 then
      some (some (baseDelay * 2 ^ returned.length,
        .retry ⟨operation, maxAttempts, returned.length + 1, baseDelay⟩))
    else none := by
  simp only [nextAttempt, TaskExecution.execute, RetryTask.execute, Nat.add_sub_cancel, ge_iff_le]
  cases ok with
  | true => rfl
  | false =>
    simp only [Bool.false_eq_true, if_false, false_or]
    split
    · rfl
    · split <;> rfl

/-- The next attempt is started when it is due. -/
theorem Spaced.start {due : SimTime} (h : Spaced baseDelay started returned)
    (hlength : started.length = returned.length) (hfailed : ∀ r ∈ returned, r.ok = false)
    (hdue : ∀ r, returned.getLast? = some r → due = r.time + baseDelay * 2 ^ (returned.length - 1)) :
    Spaced baseDelay (started ++ [due]) returned := by
  intro k r t hr ht
  rcases Nat.lt_or_ge (k + 1) started.length with hk | hk
  · rw [List.getElem?_append_left hk] at ht
    exact h k r t hr ht
  · -- the new attempt is the one after the last that returned
    have hlt : k < returned.length := (List.getElem?_eq_some_iff.mp hr).1
    have hk : k = returned.length - 1 := by omega
    rw [List.getElem?_append_right (by omega), hlength, show k + 1 - returned.length = 0 by omega] at ht
    cases ht
    have hlast : returned.getLast? = some r := by
      rw [List.getLast?_eq_getElem?, ← hk]
      exact hr
    refine ⟨hfailed r (List.mem_of_getElem? hr), ?_⟩
    rw [hdue r hlast, hk]

/-- An attempt returns, and no other one has been started. -/
theorem Spaced.finish (h : Spaced baseDelay started returned)
    (hlength : started.length = returned.length + 1) (r : Returned ρ) :
    Spaced baseDelay started (returned ++ [r]) := by
  intro k r' t hr ht
  have hk : k + 1 < started.length := (List.getElem?_eq_some_iff.mp ht).1
  rw [List.getElem?_append_left (by omega)] at hr
  exact h k r' t hr ht

/-! ## Phases -/

section
variable {ph ph' : Phase κ} {task task' : TaskExecution κ} {due delay : SimTime} {r : Returned ρ}

theorem Retrying.gone (h : Retrying operation maxAttempts baseDelay started returned stopped results ph)
    (alive : (∃ due task, ph = .pending due task) ∨ ph = .lost) (gone : ph' = .lost ∨ ph' = .dead) :
    Retrying operation maxAttempts baseDelay started returned true results ph' := by
  have hfailing : started.length = returned.length ∧ Failing maxAttempts returned results := by
    rcases alive with ⟨due, task, rfl⟩ | rfl
    · exact ⟨h.1, h.2.1⟩
    · exact ⟨h.1, h.2.1⟩
  rcases gone with rfl | rfl
  · exact ⟨hfailing.1, hfailing.2, rfl⟩
  · exact ⟨hfailing.1, hfailing.2, rfl⟩

theorem Retrying.executed
    (h : Retrying operation maxAttempts baseDelay started returned stopped results (.pending due task)) :
    Retrying operation maxAttempts baseDelay (started ++ [due]) returned stopped results (.running task) := by
  obtain ⟨hlength, hfailing, htask, -⟩ := h
  refine ⟨?_, hfailing, htask⟩
  rw [List.length_append, List.length_singleton, hlength]

/-- The attempt failed, and is repeated. -/
theorem Retrying.again
    (h : Retrying operation maxAttempts baseDelay started returned stopped results (.running task))
    (execute : task.execute r.ok = some (some (delay, task'))) :
    Retrying operation maxAttempts baseDelay started (returned ++ [r]) stopped results
      (.pending (r.time + delay) task') := by
  obtain ⟨hlength, hfailing, rfl⟩ := h
  rw [execute_nextAttempt] at execute
  split at execute
  · cases execute
  rename_i hagain
  split at execute <;> cases execute
  rename_i hbound
  obtain ⟨hok, hmore⟩ := not_or.mp hagain
  have hreturned : (returned ++ [r]).length = returned.length + 1 := by
    rw [List.length_append, List.length_singleton]
  refine ⟨?_, ⟨?_, ?_, ?_, hfailing.results⟩, ?_, ?_⟩
  · rw [hlength, hreturned]
  · intro r' hr'
    rcases List.mem_append.mp hr' with hr' | hr'
    · exact hfailing.failed r' hr'
    · rw [List.mem_singleton.mp hr']
      exact Bool.not_eq_true _ ▸ hok
  · omega
  · omega
  · rw [nextAttempt, hreturned]
  · intro r' hr'
    rw [List.getLast?_concat] at hr'
    cases hr'
    rw [hreturned, Nat.add_sub_cancel]

/-- The attempt is the last one. -/
theorem Retrying.ended
    (h : Retrying operation maxAttempts baseDelay started returned stopped results (.running task))
    (execute : task.execute r.ok = some none) :
    Retrying operation maxAttempts baseDelay started (returned ++ [r]) stopped
      (task.output r.value).toList .ended := by
  obtain ⟨hlength, hfailing, rfl⟩ := h
  have hshort := hfailing.short
  have hbound := hfailing.bound
  have hreturned : (returned ++ [r]).length = returned.length + 1 := by
    rw [List.length_append, List.length_singleton]
  rw [execute_nextAttempt] at execute
  refine ⟨?_, ?_, ?_, r, List.getLast?_concat, ?_, rfl⟩
  · rw [hlength, hreturned]
  · omega
  · omega
  · rw [hreturned]
    split at execute
    · assumption
    · split at execute <;> cases execute

/-- The attempt failed, and cannot be repeated: it is the 65th. -/
theorem Retrying.overflowed
    (h : Retrying operation maxAttempts baseDelay started returned stopped results (.running task))
    (execute : task.execute r.ok = none) : Overflowed maxAttempts (returned ++ [r]) := by
  obtain ⟨hlength, hfailing, rfl⟩ := h
  have hbound := hfailing.bound
  rw [execute_nextAttempt] at execute
  split at execute
  · cases execute
  rename_i hagain
  split at execute
  · cases execute
  obtain ⟨hok, hmore⟩ := not_or.mp hagain
  have heq : returned.length = 64 := by omega
  refine ⟨by omega, r, ?_, Bool.not_eq_true _ ▸ hok⟩
  rw [List.getElem?_append_right heq.le, heq]
  rfl

end

end

/-! ## Records -/

variable {c c' : Observed ε κ ρ} {ph ph' : Phase κ}

/-- The record of a task in the phase. -/
def Records (operation : κ) (maxAttempts : Nat) (baseDelay : SimTime) (id : TaskId) (c : Observed ε κ ρ) (ph : Phase κ) : Prop :=
  c.panicked = false ∧ Spaced baseDelay c.started c.returned ∧
    Retrying operation maxAttempts baseDelay c.started c.returned c.stopped (c.results id) ph

/-- What is done to the task keeps its record, until the power of two overflows. -/
theorem Does.records (h : Does id c c' ph ph') (hc : c.Records operation maxAttempts baseDelay id ph) :
    c'.Records operation maxAttempts baseDelay id ph' ∨ c'.panicked = true ∧
    Overflowed maxAttempts c'.returned := by
  have hspaced := hc.2.1
  have hretrying := hc.2.2
  unfold Records
  cases h with
  | stays notes hresults =>
    rw [notes.started, notes.returned, notes.stopped, hresults]
    exact .inl ⟨notes.panicked, hspaced, hretrying⟩
  | stopped notes hresults alive gone =>
    rw [notes.started, notes.returned, notes.stopped, hresults]
    exact .inl ⟨notes.panicked, hspaced, hretrying.gone alive gone⟩
  | executed notes hresults clock =>
    rw [notes.started, notes.returned, notes.stopped, hresults]
    have hspaced' := hspaced.start hretrying.1 hretrying.2.1.failed hretrying.2.2.2
    exact .inl ⟨notes.panicked, hspaced', hretrying.executed⟩
  | again notes hresults time execute =>
    rw [notes.started, notes.returned, notes.stopped, hresults]
    exact .inl ⟨notes.panicked, hspaced.finish hretrying.1 _, hretrying.again execute⟩
  | ended notes hresults execute =>
    rw [notes.started, notes.returned, notes.stopped, hresults hretrying.2.1.results]
    exact .inl ⟨notes.panicked, hspaced.finish hretrying.1 _, hretrying.ended execute⟩
  | panicked notes execute =>
    rw [notes.returned]
    exact .inr ⟨notes.panicked, hretrying.overflowed execute⟩

/-- Where the arithmetic has not panicked, the task has done what it is meant to. -/
theorem Records.retried (h : c.Records operation maxAttempts baseDelay id ph) (hat : c.system.At id ph) :
    c.Retried maxAttempts baseDelay id := by
  obtain ⟨hpanicked, hspaced, hretrying⟩ := h
  -- no attempt is the last one as long as every one has failed
  have hnone : Failing maxAttempts c.returned (c.results id) →
      c.results id = lastResult maxAttempts c.returned := by
    intro hfailing
    rw [hfailing.results, lastResult]
    cases hlast : c.returned.getLast? with
    | none => rfl
    | some r =>
      have hmem : r ∈ c.returned := List.mem_of_getLast? hlast
      have hpos : 0 < c.returned.length := List.length_pos_of_mem hmem
      have hshort := hfailing.short
      simp only
      rw [if_neg]
      rintro (hok | hle)
      · rw [hfailing.failed r hmem] at hok
        cases hok
      · omega
  cases ph with
  | pending due task =>
    obtain ⟨hlength, hfailing, -, hdue⟩ := hretrying
    have hshort := hfailing.short
    refine ⟨by omega, hspaced, fun _ r hr _ _ => .inr ⟨task, ?_⟩, hnone hfailing, hpanicked⟩
    rw [← hdue r hr]
    exact hat
  | lost =>
    obtain ⟨hlength, hfailing, hstopped⟩ := hretrying
    have hshort := hfailing.short
    exact ⟨by omega, hspaced, fun h => absurd (h.symm.trans hstopped) Bool.false_ne_true,
      hnone hfailing, hpanicked⟩
  | running task =>
    obtain ⟨hlength, hfailing, -⟩ := hretrying
    have hshort := hfailing.short
    exact ⟨by omega, hspaced, fun _ _ _ _ _ => .inl hlength, hnone hfailing, hpanicked⟩
  | dead =>
    obtain ⟨hlength, hfailing, hstopped⟩ := hretrying
    have hshort := hfailing.short
    exact ⟨by omega, hspaced, fun h => absurd (h.symm.trans hstopped) Bool.false_ne_true,
      hnone hfailing, hpanicked⟩
  | ended =>
    obtain ⟨hlength, hmax, -, r, hlast, hover, hresults⟩ := hretrying
    refine ⟨by omega, hspaced, fun _ r' hr' hok hlt => ?_, ?_, hpanicked⟩
    · cases hlast.symm.trans hr'
      rcases hover with hover | hover
      · rw [hok] at hover
        cases hover
      · omega
    · rw [hresults, lastResult, hlast]
      exact (if_pos hover).symm

/-- Where the arithmetic has not panicked, the 65th attempt is the last one that is allowed, or has
not failed. -/
theorem Records.not_failed (h : c.Records operation maxAttempts baseDelay id ph) :
    maxAttempts ≤ 65 ∨ ∀ r, c.returned[64]? = some r → r.ok = true := by
  obtain ⟨-, -, hretrying⟩ := h
  by_cases hbound : c.returned.length ≤ 64
  · refine .inr fun r hr => ?_
    rw [List.getElem?_eq_none hbound] at hr
    cases hr
  cases ph with
  | pending due task => exact absurd hretrying.2.1.bound hbound
  | lost => exact absurd hretrying.2.1.bound hbound
  | running task => exact absurd hretrying.2.1.bound hbound
  | dead => exact absurd hretrying.2.1.bound hbound
  | ended =>
    obtain ⟨-, -, hle, r, hlast, hover, -⟩ := hretrying
    have hlength : c.returned.length = 65 := by omega
    rw [List.getLast?_eq_getElem?, hlength] at hlast
    rcases hover with hok | hmax
    · refine .inr fun r' hr' => ?_
      cases hlast.symm.trans hr'
      exact hok
    · exact .inl (hlength ▸ hmax)

/-! ## Runs -/

variable [EventFrontierPolicy φ] {ops : List (Op ε κ ρ φ)} {os : List Unit}

/-- After every run the record is that of the task, or the power of two has overflowed. -/
theorem run_records (hs : c.system.session.Wf) (hat : c.system.At id ph)
    (hc : c.Records operation maxAttempts baseDelay id ph)
    (hrun : Machine.run (step id) c ops = some (c', os)) :
    (∃ ph', c'.system.At id ph' ∧ c'.Records operation maxAttempts baseDelay id ph') ∨
      c'.panicked = true ∧ Overflowed maxAttempts c'.returned := by
  refine run_does (C := fun _ => True) (R := Records operation maxAttempts baseDelay id)
    (Q := fun c => c.panicked = true ∧ Overflowed maxAttempts c.returned) ?_ ?_ ?_
    (fun _ _ => trivial) hs hat hc hrun
  · exact fun _ _ h => h.1
  · exact fun _ h => h.1
  · exact fun _ _ _ _ _ _ h _ _ _ hdoes => hdoes.records h

end Observed

open Observed

variable [EventFrontierPolicy φ] {s s₁ : TaskSystem ε κ ρ} {before ops : List (Op ε κ ρ φ)}

/-- In every state that a run leads to, a `RetryTask` that was scheduled has done what it is meant
to exactly when it is allowed at most 65 attempts, or its 65th attempt has not failed. -/
theorem run_retried_iff {idSeed : BitVec 64} {answers : List (Answer ε ρ)}
    (hbefore : Machine.run step (fresh idSeed) before = some (s, answers)) {delay : SimTime} {o : Answer ε ρ}
    (hschedule : s.step (.scheduleTask (φ := φ) delay (.retry (.new operation maxAttempts baseDelay))) = some (s₁, o))
    {c : Observed ε κ ρ} {os : List Unit} (hrun : Machine.run (Observed.step s.nextTask)
      (watch s₁) ops = some (c, os)) :
    c.Retried maxAttempts baseDelay s.nextTask ↔ maxAttempts ≤ 65 ∨ ∀ r,
      c.returned[64]? = some r → r.ok = true := by
  obtain ⟨hs, hat, hstored⟩ := at_scheduleTask hbefore hschedule
  have hwatch : (watch s₁).Records operation maxAttempts baseDelay s.nextTask
      (.pending (s.session.scheduler.clock + delay) (.retry (.new operation maxAttempts baseDelay))) := by
    have hshort : 0 < max 1 maxAttempts := Nat.lt_of_lt_of_le Nat.zero_lt_one (Nat.le_max_left ..)
    refine ⟨rfl, fun k r t hr => ?_, rfl, ⟨by rintro _ ⟨⟩, hshort, Nat.zero_le _, ?_⟩, rfl, by rintro _ ⟨⟩⟩
    · cases hr
    · exact congrArg Option.toList hstored
  rcases run_records hs hat hwatch hrun with ⟨ph, hat', hrecords⟩ | ⟨hpanicked, hmax, r, hr, hfailed⟩
  · exact iff_of_true (hrecords.retried hat') hrecords.not_failed
  · refine iff_of_false (fun h => ?_) ?_
    · rw [h.safe] at hpanicked
      cases hpanicked
    · rintro (hle | hall)
      · omega
      · rw [hall r hr] at hfailed
        cases hfailed

/-- Attempts that fail, one after the other. -/
def failures (n : Nat) : List (Op Unit Nat Nat FifoFrontierPolicy) :=
  (List.replicate n [.execute ⟨⟩, .finish false (some 1)]).flatten

/-- The second of three attempts succeeds. -/
theorem run_retried_iff_secondAttempt :
    ∃ (s₁ : TaskSystem Unit Nat Nat) (o : Answer Unit Nat) (c : Observed Unit Nat Nat) (os : List Unit),
    (fresh 7 : TaskSystem Unit Nat Nat).step (.scheduleTask (φ := FifoFrontierPolicy) .zero (.retry (.new 0 3 (.saturate 5)))) =
      some (s₁, o) ∧
    Machine.run (Observed.step (fresh 7 : TaskSystem Unit Nat Nat).nextTask) (watch s₁)
      (failures 1 ++ [.execute ⟨⟩, .finish true (some 2)]) = some (c, os) ∧
    c.returned.length = 2 ∧ c.Retried 3 (.saturate 5) (fresh 7 : TaskSystem Unit Nat Nat).nextTask := by
  have hruns : (((fresh 7 : TaskSystem Unit Nat Nat).step
      (.scheduleTask (φ := FifoFrontierPolicy) .zero (.retry (.new 0 3 (.saturate 5))))).bind fun r =>
      (Machine.run (Observed.step (fresh 7 : TaskSystem Unit Nat Nat).nextTask) (watch r.1)
        (failures 1 ++ [.execute ⟨⟩, .finish true (some 2)])).map fun q => q.1.returned.length) = some 2 := by
    decide +kernel
  obtain ⟨⟨s₁, o⟩, hschedule, hmap⟩ := Option.bind_eq_some_iff.mp hruns
  obtain ⟨⟨c, os⟩, hrun, hlength⟩ := Option.map_eq_some_iff.mp hmap
  have hbefore : Machine.run step (fresh 7 : TaskSystem Unit Nat Nat)
    ([] : List (Op Unit Nat Nat FifoFrontierPolicy)) =
      some (fresh 7, []) := rfl
  exact ⟨s₁, o, c, os, hschedule, hrun, hlength, (run_retried_iff hbefore hschedule hrun).mpr
    (.inl (by decide))⟩

/-- The power of two overflows after the 65th of 66 attempts. -/
theorem not_retried_sixtyFifthFailure :
    ∃ (s₁ : TaskSystem Unit Nat Nat) (o : Answer Unit Nat) (c : Observed Unit Nat Nat) (os : List Unit),
    (fresh 7 : TaskSystem Unit Nat Nat).step (.scheduleTask (φ := FifoFrontierPolicy) .zero (.retry (.new 0 66 (.saturate 5)))) =
      some (s₁, o) ∧
    Machine.run (Observed.step (fresh 7 : TaskSystem Unit Nat Nat).nextTask) (watch s₁) (failures 65) =
      some (c, os) ∧
    ¬c.Retried 66 (.saturate 5) (fresh 7 : TaskSystem Unit Nat Nat).nextTask := by
  have hruns : (((fresh 7 : TaskSystem Unit Nat Nat).step
      (.scheduleTask (φ := FifoFrontierPolicy) .zero (.retry (.new 0 66 (.saturate 5))))).bind fun r =>
      (Machine.run (Observed.step (fresh 7 : TaskSystem Unit Nat Nat).nextTask) (watch r.1) (failures 65)).map
        fun q => q.1.panicked) = some true := by
    decide +kernel
  obtain ⟨⟨s₁, o⟩, hschedule, hmap⟩ := Option.bind_eq_some_iff.mp hruns
  obtain ⟨⟨c, os⟩, hrun, hpanicked⟩ := Option.map_eq_some_iff.mp hmap
  exact ⟨s₁, o, c, os, hschedule, hrun, fun h => Bool.false_ne_true (h.safe.symm.trans hpanicked)⟩

end DesCartes.TaskSystem
