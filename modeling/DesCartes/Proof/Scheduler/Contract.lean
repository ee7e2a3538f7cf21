import DesCartes.Proof.Scheduler.Session

/-!
# The contract of the scheduler

`run_contract` puts the invariants of `Session` together for a run in two parts, from a fresh
scheduler to `r₁` with the answers `os₁` and on to `r₂` with `os₂`: time does not go back, no
event is lost or duplicated, and a task that was cancelled in the first part neither runs nor
moves the clock in the second.
-/

namespace DesCartes.Session

variable {ε τ ρ φ : Type} [EventFrontierPolicy φ]

section
variable {r r' : Session ε τ ρ} {os : List (Answer ε)} {ops : List (Op ε τ ρ φ)}

theorem Wf.run (h : r.Wf) (hr : Machine.run step r ops = some (r', os)) : r'.Wf :=
  Machine.run_invariant (fun _ _ _ _ hs hu => (hs.stepped hu).wf) h hr

theorem Kept.run (h : r.Wf) {os₀ : List (Answer ε)} (hk : r.Kept os₀)
    (hr : Machine.run step r ops = some (r', os)) : r'.Kept (os₀ ++ os) :=
  (Machine.run_history (P := fun s os => s.Wf ∧ s.Kept os)
    (fun _ _ _ _ os hs hu => ⟨(hs.1.stepped hu).wf, (hs.1.stepped hu).kept os hs.2⟩) ⟨h, hk⟩ hr).2

/-- Nothing of a dead task is returned. -/
theorem Dead.run (h : r.Wf) {id : TaskId} (hd : r.Dead id) (hr : Machine.run step r ops = some (r', os)) :
    ∀ o ∈ os, ∀ e, o = .popped (some e) → e.taskId ≠ some id :=
  Machine.run_answers (P := fun s => s.Wf ∧ s.Dead id)
    (fun _ _ _ _ hs hu => ⟨⟨(hs.1.stepped hu).wf, ((hs.1.stepped hu).dead id hs.2).1⟩,
      ((hs.1.stepped hu).dead id hs.2).2⟩)
    ⟨h, hd⟩ hr

/-- The clock does not go back, and it is where the run found it or at an event returned since. -/
theorem Wf.clock_run (h : r.Wf) (hr : Machine.run step r ops = some (r', os)) :
    r.scheduler.clock ≤ r'.scheduler.clock ∧
      (r'.scheduler.clock = r.scheduler.clock ∨ ∃ e, .popped (some e) ∈ os ∧
        r'.scheduler.clock = e.time) := by
  have hrun := Machine.run_history (P := fun s os => s.Wf ∧ r.scheduler.clock ≤ s.scheduler.clock ∧
    (s.scheduler.clock = r.scheduler.clock ∨ ∃ e, .popped (some e) ∈ os ∧ s.scheduler.clock = e.time))
    (fun s _ u o os hs hu => ?_) (show r.Wf ∧ _ ∧ (_ ∨ ∃ e, _ ∈ [] ∧ _) from ⟨h, le_rfl, .inl rfl⟩) hr
  · exact hrun.2
  obtain ⟨hw, hle, hc⟩ := hs
  have hstep := hw.stepped hu
  refine ⟨hstep.wf, hle.trans hstep.le, ?_⟩
  have hclock := hstep.clock
  rcases ho : o.popped? with _ | e
  · rw [ho, Option.elim_none] at hclock
    rw [hclock]
    rcases hc with hc | ⟨e, he, hc⟩
    · exact .inl hc
    · exact .inr ⟨e, List.mem_append_left _ he, hc⟩
  · rw [ho, Option.elim_some] at hclock
    have : o = .popped (some e) := by
      cases o <;> simp only [Answer.popped?, reduceCtorEq] at ho
      rw [ho]
    exact .inr ⟨e, List.mem_append_right _ (List.mem_singleton.mpr this.symm), hclock⟩

end

/-- For every sequence of operations from a fresh scheduler, cut in two anywhere: the clock does not
go back and only moves to events that are returned; no event left is in the past; the events
left and those returned are all different ones; an event that was scheduled, and whose task was not
cancelled, is either left or was returned; and once a cancellation has succeeded no event of its
task is returned. -/
theorem run_contract (idSeed : BitVec 64) (ops₁ ops₂ : List (Op ε τ ρ φ)) {r₁ r₂ : Session ε τ ρ}
    {os₁ os₂ : List (Answer ε)} (h₁ : Machine.run step (fresh idSeed) ops₁ = some (r₁, os₁))
    (h₂ : Machine.run step r₁ ops₂ = some (r₂, os₂)) :
    r₁.scheduler.clock ≤ r₂.scheduler.clock ∧
    (r₂.scheduler.clock = r₁.scheduler.clock ∨ ∃ e, .popped (some e) ∈ os₂ ∧ r₂.scheduler.clock = e.time) ∧
    (∀ e ∈ r₂.scheduler.events.toList, r₂.scheduler.clock ≤ e.time) ∧
    ((r₂.scheduler.events.toList ++ (os₁ ++ os₂).filterMap Answer.popped?).map EventEntry.seq).Nodup ∧
    (∀ e, .scheduled e ∈ os₁ ++ os₂ → (∀ id, e.taskId = some id → .cancelled id true ∉ os₁ ++ os₂) →
      Xor (e ∈ r₂.scheduler.events.toList) (.popped (some e) ∈ os₁ ++ os₂)) ∧
    (∀ id, .cancelled id true ∈ os₁ → ∀ e, .popped (some e) ∈ os₂ → e.taskId ≠ some id) := by
  have hw₁ : r₁.Wf := (wf_fresh idSeed).run h₁
  have hk₁ : r₁.Kept os₁ := Kept.run (wf_fresh idSeed) (kept_fresh idSeed) h₁
  have hk₂ : r₂.Kept (os₁ ++ os₂) := Kept.run hw₁ hk₁ h₂
  refine ⟨(hw₁.clock_run h₂).1, (hw₁.clock_run h₂).2, (hw₁.run h₂).future, hk₂.nodup, fun e he hc => ?_,
    fun id hid e he => Dead.run hw₁ (hk₁.dead id hid) h₂ _ he e rfl⟩
  have hnot : ¬ (e ∈ r₂.scheduler.events.toList ∧ .popped (some e) ∈ os₁ ++ os₂) := by
    intro ⟨hl, hp⟩
    have hn := hk₂.nodup
    rw [List.map_append] at hn
    exact List.disjoint_of_nodup_append hn (List.mem_map_of_mem hl)
      (List.mem_map_of_mem (List.mem_filterMap.mpr ⟨_, hp, rfl⟩))
  rcases hk₂.kept e he with hl | hp | ⟨id, hid, hx⟩
  · exact .inl ⟨hl, fun hp => hnot ⟨hl, hp⟩⟩
  · exact .inr ⟨hp, fun hl => hnot ⟨hl, hp⟩⟩
  · exact absurd hx (hc id hid)

/-- A policy that always answers one index, in range or not. -/
instance constPolicy : EventFrontierPolicy Nat := ⟨fun i _ _ => (i, i)⟩

/-- Two events and a task at the same time; the task is cancelled, and a policy that answers out of
range is asked for the next event. -/
theorem run_contract_cancelled :
    ∃ (r₁ r₂ : Session Unit Unit Unit) (os₁ os₂ : List (Answer Unit)),
      Machine.run step (fresh 7) [Op.schedule (φ := Nat) (.saturate 1) 0 (), .scheduleTask (.saturate 1) (),
        .schedule (.saturate 1) 1 (), .cancelTask (Scheduler.taskIdAt 7 1)] = some (r₁, os₁) ∧
      Machine.run step r₁ [Op.popWithPolicy 99, .pop] = some (r₂, os₂) ∧
      r₁.scheduler.clock ≤ r₂.scheduler.clock ∧
      os₂ = [.popped (some (.component 3 (.saturate 1) 1 ())), .popped (some (.component 1 (.saturate 1) 0 ()))] :=
  ⟨_, _, _, _, rfl, rfl, (run_contract (φ := Nat) 7
    [.schedule (.saturate 1) 0 (), .scheduleTask (.saturate 1) (), .schedule (.saturate 1) 1 (),
      .cancelTask (Scheduler.taskIdAt 7 1)] [.popWithPolicy 99, .pop] rfl rfl).1, rfl⟩

end DesCartes.Session
