import DesCartes.Proof.Simulation.Step

/-!
# The ready queue of the runtime

`Queued rt q` says that the tasks of the runtime that are marked as queued are those of `q`, that `q`
has none twice, and that the spawn requests are for ids that are not in use yet. Between events `q`
is the ready queue; while a poll cycle runs it is what is left to poll. Every handler keeps it and
polls no task twice (`Cycled`), and every move keeps it (`queued_move`).

* `pollLoop_spec`: a poll cycle polls each live task of its snapshot once;
* `run_ready_queue`: what holds in every run.
-/

namespace DesCartes

open AsyncRuntime

namespace World

variable {ν π φ : Type}

/-- The tasks marked as queued are those of `q`, and the spawn requests are for new ids. -/
structure Queued (rt : DesRuntime π) (q : List AsyncRuntime.TaskId) : Prop where
  nodup : q.Nodup
  queued : ∀ t task, rt.tasks t = some task → (task.queued = true ↔ t ∈ q)
  tasks_lt : ∀ t, rt.tasks t ≠ none → t < rt.nextTaskId
  queue_lt : ∀ t ∈ q, t < rt.nextTaskId
  requests : (rt.spawnQueue ++ rt.spawnQueueLocal).Nodup
  fresh : ∀ t ∈ rt.spawnQueue ++ rt.spawnQueueLocal, t < rt.nextTaskId ∧ rt.tasks t = none ∧ t ∉ q

section
variable {rt : DesRuntime π} {q : List AsyncRuntime.TaskId}

theorem Queued.perm (h : Queued rt q) {q' : List AsyncRuntime.TaskId} (hp : q.Perm q') : Queued rt q' where
  nodup := hp.nodup_iff.mp h.nodup
  queued t task ht := (h.queued t task ht).trans hp.mem_iff
  tasks_lt := h.tasks_lt
  queue_lt t ht := h.queue_lt t (hp.mem_iff.mpr ht)
  requests := h.requests
  fresh t ht := ⟨(h.fresh t ht).1, (h.fresh t ht).2.1, fun hm => (h.fresh t ht).2.2 (hp.mem_iff.mpr hm)⟩

/-- It is about the tasks, the counter and the spawn queues. -/
theorem Queued.congr (h : Queued rt q) {rt' : DesRuntime π} (ht : rt'.tasks = rt.tasks)
    (hn : rt'.nextTaskId = rt.nextTaskId) (hs : rt'.spawnQueue = rt.spawnQueue)
    (hl : rt'.spawnQueueLocal = rt.spawnQueueLocal) : Queued rt' q := by
  refine ⟨h.nodup, ?_, ?_, ?_, ?_, ?_⟩
  · rw [ht]; exact h.queued
  · rw [ht, hn]; exact h.tasks_lt
  · rw [hn]; exact h.queue_lt
  · rw [hs, hl]; exact h.requests
  · rw [hs, hl, hn, ht]; exact h.fresh

/-! ## Calls -/

/-- The next id is asked for. -/
theorem Queued.request (h : Queued rt q) {rt' : DesRuntime π} (ht : rt'.tasks = rt.tasks)
    (hn : rt'.nextTaskId = rt.nextTaskId + 1)
    (hp : (rt'.spawnQueue ++ rt'.spawnQueueLocal).Perm
      (rt.nextTaskId :: (rt.spawnQueue ++ rt.spawnQueueLocal))) :
    Queued rt' q := by
  have hnew : rt.nextTaskId ∉ rt.spawnQueue ++ rt.spawnQueueLocal := fun hm => lt_irrefl _ (h.fresh _ hm).1
  refine ⟨h.nodup, ?_, fun t ht' => ?_, fun t ht' => ?_,
    hp.nodup_iff.mpr (List.nodup_cons.mpr ⟨hnew, h.requests⟩),
    fun t ht' => ?_⟩
  · rw [ht]; exact h.queued
  · rw [ht] at ht'
    rw [hn]; exact (h.tasks_lt t ht').trans (Nat.lt_succ_self _)
  · rw [hn]; exact (h.queue_lt t ht').trans (Nat.lt_succ_self _)
  · rw [hn, ht]
    rcases List.mem_cons.mp (hp.mem_iff.mp ht') with rfl | hm
    · refine ⟨Nat.lt_succ_self _, ?_, fun hq => lt_irrefl _ (h.queue_lt _ hq)⟩
      by_contra hne
      exact lt_irrefl _ (h.tasks_lt _ hne)
    · obtain ⟨h₁, h₂, h₃⟩ := h.fresh t hm
      exact ⟨h₁.trans (Nat.lt_succ_self _), h₂, h₃⟩

/-- Spawn requests are taken back. -/
theorem Queued.withdraw (h : Queued rt q) {rt' : DesRuntime π} (ht : rt'.tasks = rt.tasks)
    (hn : rt'.nextTaskId = rt.nextTaskId)
    (hs : (rt'.spawnQueue ++ rt'.spawnQueueLocal).Sublist (rt.spawnQueue ++ rt.spawnQueueLocal)) :
    Queued rt' q := by
  refine ⟨h.nodup, ?_, ?_, ?_, h.requests.sublist hs, fun t ht' => ?_⟩
  · rw [ht]; exact h.queued
  · rw [ht, hn]; exact h.tasks_lt
  · rw [hn]; exact h.queue_lt
  · rw [ht, hn]; exact h.fresh t (hs.subset ht')

end

/-- What a call does to the runtime. -/
theorem runtime_act (w : World ν π φ) (action : Action ν) :
    (w.act action).runtime = w.runtime ∨
    action = .spawn ∧ (w.act action).runtime = { w.runtime with
      nextTaskId := w.runtime.nextTaskId + 1, spawnQueue := w.runtime.spawnQueue ++ [w.runtime.nextTaskId] } ∨
    action = .spawnLocal ∧ (w.act action).runtime = { w.runtime with
      nextTaskId := w.runtime.nextTaskId + 1, spawnQueueLocal :=
      w.runtime.spawnQueueLocal ++ [w.runtime.nextTaskId] } ∨
    (∃ t, action = .cancel t ∧ (w.act action).runtime =
      { w.runtime with spawnQueue := w.runtime.spawnQueue.filter (· ≠ t) }) ∨
    ∃ t, action = .cancelLocal t ∧ (w.act action).runtime =
      { w.runtime with spawnQueueLocal := w.runtime.spawnQueueLocal.filter (· ≠ t) } := by
  have hite : ∀ {p : Prop} [Decidable p] (w₁ : World ν π φ) (m : Message ν),
      (if p then w₁.deferWake m else w₁).runtime = w₁.runtime := by
    intro p _ w₁ m
    split <;> rfl
  cases action with
  | schedule delay message => exact .inl (runtime_schedule ..)
  | scheduleTask delay => exact .inl rfl
  | cancelTask id => exact .inl rfl
  | deferWakeAfter delay message => exact .inl rfl
  | spawn => exact .inr (.inl ⟨rfl, hite ..⟩)
  | spawnLocal => exact .inr (.inr (.inl ⟨rfl, hite ..⟩))
  | cancel t => exact .inr (.inr (.inr (.inl ⟨t, rfl, hite ..⟩)))
  | cancelLocal t => exact .inr (.inr (.inr (.inr ⟨t, rfl, hite ..⟩)))
  | newSleep sleep => exact .inl rfl
  | pollSleep i =>
    refine .inl ?_
    simp only [act, pollSleep, registerTimerAt]
    split
    · rfl
    · split
      · split
        · rfl
        · split
          · rfl
          · cases w.pollContext <;> rfl
      · rfl
  | dropSleep i =>
    refine .inl ?_
    simp only [act, dropSleep, cancelTimerAt]
    split
    · rfl
    · split
      · split
        · cases h : w.pollContext <;> simp [setSleep, h, deferWake, deferWakeAfter]
        · rfl
      · rfl
  | call n => exact .inl rfl

theorem Queued.act {w : World ν π φ} {q : List AsyncRuntime.TaskId} (h : Queued w.runtime q)
    (action : Action ν) :
    Queued (w.act action).runtime q := by
  rcases runtime_act w action with e | ⟨-, e⟩ | ⟨-, e⟩ | ⟨t, -, e⟩ | ⟨t, -, e⟩ <;> rw [e]
  · exact h
  · refine h.request rfl rfl ?_
    rw [List.append_assoc, List.singleton_append]
    exact List.perm_middle
  · refine h.request rfl rfl ?_
    rw [← List.append_assoc]
    exact List.perm_append_singleton _ _
  · exact h.withdraw rfl rfl (List.filter_sublist.append_right _)
  · exact h.withdraw rfl rfl (List.filter_sublist.append_left _)

theorem Queued.acts {w : World ν π φ} {q : List AsyncRuntime.TaskId} (h : Queued w.runtime q)
    (actions : List (Action ν)) : Queued (w.acts actions).runtime q :=
  acts_rule (P := fun w => Queued w.runtime q) (fun _ a h => h.act a) h actions

/-! ## The runtime's own operations -/

section
variable {rt : DesRuntime π} {q : List AsyncRuntime.TaskId} {t : AsyncRuntime.TaskId}

theorem Queued.removeTask (h : Queued rt q) (t : AsyncRuntime.TaskId) : Queued (rt.removeTask t) q := by
  have hn : ∀ t', rt.tasks t' = none → (rt.removeTask t).tasks t' = none := fun t' ht' => by
    simp only [DesRuntime.removeTask, Function.update_apply, ht', ite_self]
  refine ⟨h.nodup, fun t' task ht' => ?_, fun t' ht' => h.tasks_lt t' fun e => ht' (hn t' e),
    h.queue_lt, h.requests,
    fun t' ht' => ⟨(h.fresh t' ht').1, hn t' (h.fresh t' ht').2.1, (h.fresh t' ht').2.2⟩⟩
  by_cases e : t' = t
  · simp [DesRuntime.removeTask, e] at ht'
  · exact h.queued t' task (by simpa [DesRuntime.removeTask, e] using ht')

/-- The next task to poll is no longer queued. -/
theorem Queued.unqueue (h : Queued rt (t :: q)) {task : Task} (ht : rt.tasks t = some task) :
    Queued (rt.unqueue t task) q := by
  obtain ⟨hnq, hq⟩ := List.nodup_cons.mp h.nodup
  have hne : ∀ t', rt.tasks t' = none → t' ≠ t := fun t' ht' e => by rw [e, ht] at ht'; cases ht'
  refine ⟨hq, fun t' task' ht' => ?_, fun t' ht' => ?_,
    fun t' ht' => h.queue_lt t' (List.mem_cons_of_mem _ ht'),
    h.requests, fun t' ht' => ?_⟩
  · by_cases e : t' = t
    · subst e
      simp only [DesRuntime.unqueue, Function.update_self, Option.some.injEq] at ht'
      subst ht'
      simpa using hnq
    · have := h.queued t' task' (by simpa [DesRuntime.unqueue, e] using ht')
      rw [this, List.mem_cons, or_iff_right e]
  · by_cases e : t' = t
    · exact e ▸ h.queue_lt t List.mem_cons_self
    · exact h.tasks_lt t' (by simpa [DesRuntime.unqueue, e] using ht')
  · obtain ⟨h₁, h₂, h₃⟩ := h.fresh t' ht'
    refine ⟨h₁, ?_, fun hm => h₃ (List.mem_cons_of_mem _ hm)⟩
    simpa [DesRuntime.unqueue, hne t' h₂] using h₂

/-- A task that is gone is skipped. -/
theorem Queued.skip (h : Queued rt (t :: q)) (ht : rt.tasks t = none) : Queued rt q := by
  refine ⟨(List.nodup_cons.mp h.nodup).2, fun t' task ht' => ?_, h.tasks_lt,
    fun t' ht' => h.queue_lt t' (List.mem_cons_of_mem _ ht'), h.requests,
    fun t' ht' => ⟨(h.fresh t' ht').1, (h.fresh t' ht').2.1,
      fun hm => (h.fresh t' ht').2.2 (List.mem_cons_of_mem _ hm)⟩⟩
  have hne : t' ≠ t := fun e => by rw [e, ht] at ht'; cases ht'
  rw [h.queued t' task ht', List.mem_cons, or_iff_right hne]

/-- A task that is not queued becomes so. -/
theorem Queued.enqueue (h : Queued rt q) (ht : t < rt.nextTaskId) (hq : t ∉ q)
    (hs : t ∉ rt.spawnQueue ++ rt.spawnQueueLocal) {rt' : DesRuntime π} {task : Task}
    (hqueued : task.queued = true) (htasks : rt'.tasks = Function.update rt.tasks t (some task))
    (hn : rt'.nextTaskId = rt.nextTaskId) (hs₁ : rt'.spawnQueue = rt.spawnQueue)
    (hs₂ : rt'.spawnQueueLocal = rt.spawnQueueLocal) : Queued rt' (q ++ [t]) := by
  refine ⟨?_, fun t' task' ht' => ?_, fun t' ht' => ?_, fun t' ht' => ?_, ?_, fun t' ht' => ?_⟩
  · exact (List.perm_append_singleton t q).nodup_iff.mpr (List.nodup_cons.mpr ⟨hq, h.nodup⟩)
  · rw [htasks] at ht'
    rw [List.mem_append, List.mem_singleton]
    by_cases e : t' = t
    · rw [e, Function.update_self, Option.some.injEq] at ht'
      simp [← ht', hqueued, e]
    · rw [Function.update_of_ne e] at ht'
      rw [h.queued t' task' ht', or_iff_left e]
  · rw [hn]
    by_cases e : t' = t
    · exact e ▸ ht
    · rw [htasks, Function.update_of_ne e] at ht'
      exact h.tasks_lt t' ht'
  · rw [hn]
    rcases List.mem_append.mp ht' with hm | hm
    · exact h.queue_lt t' hm
    · exact (List.mem_singleton.mp hm) ▸ ht
  · rw [hs₁, hs₂]; exact h.requests
  · rw [hs₁, hs₂] at ht'
    obtain ⟨h₁, h₂, h₃⟩ := h.fresh t' ht'
    have hne : t' ≠ t := fun e => hs (e ▸ ht')
    rw [hn, htasks, Function.update_of_ne hne]
    refine ⟨h₁, h₂, fun hm => ?_⟩
    rcases List.mem_append.mp hm with hm | hm
    · exact h₃ hm
    · exact hne (List.mem_singleton.mp hm)

theorem Queued.wakeTask (h : Queued rt rt.readyQueue) (t : AsyncRuntime.TaskId) :
    Queued (rt.wakeTask t) (rt.wakeTask t).readyQueue := by
  unfold DesRuntime.wakeTask
  split
  · exact h
  · rename_i task ht
    split
    · exact h
    · rename_i hq
      refine h.enqueue (h.tasks_lt t (by simp [ht])) (fun hm => hq ((h.queued t task ht).mpr hm))
        (fun hm => ?_) rfl rfl rfl
        rfl rfl
      have := (h.fresh t hm).2.1
      rw [ht] at this
      cases this

theorem Queued.spawn (h : Queued rt rt.readyQueue) : Queued rt.spawn rt.spawn.readyQueue := by
  have hn : ¬ rt.nextTaskId < rt.nextTaskId := lt_irrefl _
  have h' : Queued { rt with nextTaskId := rt.nextTaskId + 1 } rt.readyQueue := by
    refine ⟨h.nodup, h.queued, fun t ht => (h.tasks_lt t ht).trans (Nat.lt_succ_self _),
      fun t ht => (h.queue_lt t ht).trans (Nat.lt_succ_self _), h.requests, fun t ht => ?_⟩
    exact ⟨(h.fresh t ht).1.trans (Nat.lt_succ_self _), (h.fresh t ht).2⟩
  exact h'.enqueue (Nat.lt_succ_self _) (fun hm => hn (h.queue_lt _ hm))
    (fun hm => hn (h.fresh _ hm).1) rfl rfl rfl rfl rfl

/-- Draining the spawn queues installs their tasks. -/
theorem Queued.drainSpawnQueues (h : Queued rt rt.readyQueue) :
    Queued rt.drainSpawnQueues rt.drainSpawnQueues.readyQueue := by
  rw [drainSpawnQueues_eq]
  refine ⟨?_, fun t task ht => ?_, fun t ht => ?_, fun t ht => ?_, List.nodup_nil, by simp⟩
  · refine h.nodup.append h.requests fun t ht ht' => (h.fresh t ht').2.2 ht
  · by_cases hm : t ∈ rt.spawnQueue ++ rt.spawnQueueLocal
    · simp only [if_pos hm, Option.some.injEq] at ht
      simp only [← ht, true_iff]
      exact List.mem_append_right _ hm
    · simp only [if_neg hm] at ht
      rw [h.queued t task ht, List.mem_append, or_iff_left hm]
  · by_cases hm : t ∈ rt.spawnQueue ++ rt.spawnQueueLocal
    · exact (h.fresh t hm).1
    · simp only [if_neg hm] at ht
      exact h.tasks_lt t ht
  · rcases List.mem_append.mp ht with hm | hm
    · exact h.queue_lt t hm
    · exact (h.fresh t hm).1

end

/-! ## A poll cycle -/

/-- The tasks whose polls are recorded. -/
def polledTasks (w : World ν π φ) : List AsyncRuntime.TaskId := w.trace.filterMap Obs.polled?

theorem polledTasks_drop {w w' : World ν π φ} (h : w.trace <+: w'.trace)
    {ps : List AsyncRuntime.TaskId} (hp : w'.polledTasks = w.polledTasks ++ ps) :
    (w'.trace.drop w.trace.length).filterMap Obs.polled? = ps := by
  obtain ⟨q, hq⟩ := h
  rw [polledTasks, polledTasks, ← hq, List.filterMap_append] at hp
  rw [← hq, List.drop_left]
  exact List.append_cancel_left hp

theorem mem_filterMap_polled? {tr : List Obs} {t : AsyncRuntime.TaskId} :
    t ∈ tr.filterMap Obs.polled? ↔ .polled t ∈ tr := by
  refine List.mem_filterMap.trans ⟨fun ⟨o, ho, hot⟩ => ?_, fun h => ⟨_, h, rfl⟩⟩
  cases o <;> simp only [Obs.polled?, reduceCtorEq, Option.some.injEq] at hot
  exact hot ▸ ho

theorem Acted.polledTasks {w w' : World ν π φ} (h : Acted w w') : w'.polledTasks = w.polledTasks := h.polls

/-- What polling a task that is there does. -/
theorem pollTask_spec {w : World ν π φ} (hk : w.runtime.runtimeKey ≠ none) {t : AsyncRuntime.TaskId}
    (ht : w.runtime.tasks t ≠ none) (script : PollScript ν) :
    (w.pollTask t script).1 = some script.ready ∧ (w.pollTask t script).2.polledTasks = w.polledTasks ++ [t] ∧
      (w.pollTask t script).2.runtime.tasks = w.runtime.tasks ∧
      (w.pollTask t script).2.runtime.readyQueue = w.runtime.readyQueue ∧
      ∀ q, Queued w.runtime q → Queued (w.pollTask t script).2.runtime q := by
  obtain ⟨key, hkey⟩ := Option.ne_none_iff_exists'.mp hk
  obtain ⟨task, htask⟩ := Option.ne_none_iff_exists'.mp ht
  simp only [pollTask, hkey, htask]
  have ha := acted_acts (({ w with pollContext := some t } : World ν π φ).log (.polled t)) script.actions
  refine ⟨trivial, ?_, ha.tasks, ha.readyQueue, fun q hq => ?_⟩
  · refine ha.polledTasks.trans ?_
    simp [polledTasks, log, Obs.polled?]
  · exact Queued.acts (w := ({ w with pollContext := some t } : World ν π φ).log
      (.polled t)) hq script.actions

theorem pollOne_spec {w : World ν π φ} (hk : w.runtime.runtimeKey ≠ none) (t : AsyncRuntime.TaskId)
    (task : Task) (script : PollScript ν) :
    (w.pollOne t task script).polledTasks = w.polledTasks ++ [t] ∧
      (∀ t', t' ≠ t → (w.pollOne t task script).runtime.tasks t' = w.runtime.tasks t') ∧
      (w.pollOne t task script).runtime.readyQueue = w.runtime.readyQueue ∧
      ∀ q, Queued (w.runtime.unqueue t task) q → Queued (w.pollOne t task script).runtime q := by
  have ht : (w.setRuntime (w.runtime.unqueue t task)).runtime.tasks t ≠ none := by
    simp [setRuntime, DesRuntime.unqueue]
  obtain ⟨h₁, h₂, h₃, h₄, h₅⟩ := pollTask_spec (w := w.setRuntime (w.runtime.unqueue t task)) hk ht script
  have htasks : ∀ t', t' ≠ t →
      ((w.setRuntime (w.runtime.unqueue t task)).pollTask t script).2.runtime.tasks t' =
        w.runtime.tasks t' := by
    intro t' hne
    rw [h₃]
    exact Function.update_of_ne hne ..
  unfold pollOne
  simp only
  generalize (w.setRuntime (w.runtime.unqueue t task)).pollTask t script = r at h₁ h₂ h₃ h₄ h₅ htasks
  obtain ⟨result, w₁⟩ := r
  simp only at h₁ h₂ h₃ h₄ h₅ htasks ⊢
  split
  · have ha := acted_acts (w₁.setRuntime (w₁.runtime.removeTask t)) script.drop
    refine ⟨ha.polledTasks.trans h₂, fun t' hne => ?_, ha.readyQueue.trans h₄, fun q hq => ?_⟩
    · rw [ha.tasks, ← htasks t' hne]
      exact Function.update_of_ne hne ..
    · exact Queued.acts (w := w₁.setRuntime (w₁.runtime.removeTask t)) ((h₅ q hq).removeTask t) script.drop
  · exact ⟨h₂, htasks, h₄, h₅⟩

section
variable [ReadyTaskPolicy π]

/-- The loop polls each live task of its snapshot, and no other, once. -/
theorem pollLoop_spec (n : Nat) (polls : Nat → PollScript ν) (pollSet : List AsyncRuntime.TaskId)
    (w : World ν π φ) (hn : pollSet.length = n) (hk : w.runtime.runtimeKey ≠ none)
    (h : Queued w.runtime pollSet) (hr : w.runtime.readyQueue = []) :
    Queued (pollLoop n polls pollSet w).runtime [] ∧ (pollLoop n polls pollSet w).runtime.readyQueue = [] ∧
      ∃ ps, (pollLoop n polls pollSet w).polledTasks = w.polledTasks ++ ps ∧ ps.Nodup ∧
        ∀ t, t ∈ ps ↔ t ∈ pollSet ∧ w.runtime.tasks t ≠ none := by
  induction n generalizing polls pollSet w with
  | zero =>
    rw [List.length_eq_zero_iff.mp hn] at h ⊢
    exact ⟨h, hr, [], (List.append_nil _).symm, List.nodup_nil, by simp⟩
  | succ n ih =>
    have hne : pollSet ≠ [] := fun e => by simp [e] at hn
    have hi : (w.chooseTask pollSet).1 < pollSet.length := by
      have := List.length_pos_iff.mpr hne
      simp only [chooseTask]
      omega
    have hq : Queued (w.chooseTask pollSet).2.runtime pollSet := h.congr rfl rfl rfl rfl
    have hpolled : (w.chooseTask pollSet).2.polledTasks = w.polledTasks := rfl
    have htasks : (w.chooseTask pollSet).2.runtime.tasks = w.runtime.tasks := rfl
    have hr' : (w.chooseTask pollSet).2.runtime.readyQueue = [] := hr
    have hk' : (w.chooseTask pollSet).2.runtime.runtimeKey ≠ none := hk
    simp only [pollLoop]
    generalize w.chooseTask pollSet = r at hi hq hpolled htasks hr' hk'
    obtain ⟨i, w₁⟩ := r
    simp only at hi hq hpolled htasks hr' hk' ⊢
    rw [List.getElem?_eq_getElem hi]
    have hp := Vec.swapRemove_perm (List.getElem?_eq_getElem hi)
    have hlen : (Vec.swapRemove pollSet i).length = n := by
      have := Vec.length_swapRemove hne i
      omega
    generalize Vec.swapRemove pollSet i = rest at hp hlen
    generalize pollSet[i] = t at hp
    have hq' := hq.perm hp.symm
    obtain ⟨htr, -⟩ := List.nodup_cons.mp hq'.nodup
    simp only
    split
    · rename_i hnone
      obtain ⟨h₁, h₂, ps, h₃, h₄, h₅⟩ := ih polls rest w₁ hlen hk' (hq'.skip hnone) hr'
      refine ⟨h₁, h₂, ps, by rw [h₃, hpolled], h₄, fun t' => ?_⟩
      rw [h₅, htasks, ← hp.mem_iff, List.mem_cons]
      refine and_congr_left fun ht' => (or_iff_right fun e => ht' ?_).symm
      rw [e, ← htasks, hnone]
    · rename_i task hsome
      obtain ⟨h₁, h₂, h₃, h₄⟩ := pollOne_spec hk' t task (polls 0)
      have hf := frame_pollOne w₁ hsome (polls 0)
      generalize w₁.pollOne t task (polls 0) = w₂ at h₁ h₂ h₃ h₄ hf
      obtain ⟨g₁, g₂, ps, g₃, g₄, g₅⟩ := ih (fun i => polls (i + 1)) rest w₂ hlen
        (by rw [hf.runtimeKey]; exact hk')
        (h₄ rest (hq'.unqueue hsome)) (h₃.trans hr')
      have hps : ∀ t', t' ∈ ps ↔ t' ∈ rest ∧ w.runtime.tasks t' ≠ none := by
        intro t'
        rw [g₅]
        refine and_congr_right fun ht' => ?_
        rw [h₂ t' fun e => htr (e ▸ ht'), htasks]
      refine ⟨g₁, g₂, t :: ps, by rw [g₃, h₁, hpolled, List.append_assoc, List.singleton_append],
        List.nodup_cons.mpr ⟨fun hm => htr ((hps t).mp hm).1, g₄⟩, fun t' => ?_⟩
      rw [List.mem_cons, hps, ← hp.mem_iff, List.mem_cons, or_and_right]
      refine or_congr_left ⟨fun e => ⟨e, ?_⟩, And.left⟩
      rw [e, ← htasks, hsome]
      simp

/-- A poll cycle polls each live task that was ready or to be spawned, and no other, once. -/
theorem pollReadyTasks_spec {w : World ν π φ} (polls : Nat → PollScript ν) (hk : w.runtime.runtimeKey ≠ none)
    (h : Queued w.runtime w.runtime.readyQueue) :
    Queued (w.pollReadyTasks polls).runtime [] ∧ (w.pollReadyTasks polls).runtime.readyQueue = [] ∧
      ∃ ps, (w.pollReadyTasks polls).polledTasks = w.polledTasks ++ ps ∧ ps.Nodup ∧
        ∀ t, t ∈ ps ↔ t ∈ w.runtime.drainSpawnQueues.readyQueue ∧
        w.runtime.drainSpawnQueues.tasks t ≠ none := by
  have hk' : w.runtime.drainSpawnQueues.runtimeKey ≠ none := by rw [drainSpawnQueues_eq]; exact hk
  exact pollLoop_spec _ polls _ (w.setRuntime { w.runtime.drainSpawnQueues with readyQueue := [] }) rfl hk'
    (h.drainSpawnQueues.congr rfl rfl rfl rfl) rfl

end

/-! ## Handlers -/

/-- `w'` has come of `w` by a handler that polls no task twice. -/
structure Cycled (w w' : World ν π φ) : Prop where
  queued : Queued w'.runtime w'.runtime.readyQueue
  polled : ∃ ps, w'.polledTasks = w.polledTasks ++ ps ∧ ps.Nodup

/-- A change that polls no task. -/
theorem Cycled.of_queued {w w' : World ν π φ} (h : Queued w'.runtime w'.runtime.readyQueue)
    (hp : w'.polledTasks = w.polledTasks) : Cycled w w' :=
  ⟨h, [], by rw [hp, List.append_nil], List.nodup_nil⟩

theorem Cycled.of_polledTasks {w w₁ w' : World ν π φ} (h : Cycled w₁ w')
    (hp : w₁.polledTasks = w.polledTasks) :
    Cycled w w' :=
  ⟨h.queued, by rw [← hp]; exact h.polled⟩

theorem Cycled.scheduleNextTimerTick {w w' : World ν π φ} (h : Cycled w w') :
    Cycled w w'.scheduleNextTimerTick := by
  refine ⟨?_, ?_⟩
  · rw [runtime_scheduleNextTimerTick]; exact h.queued.congr rfl rfl rfl rfl
  · rw [polledTasks, trace_scheduleNextTimerTick]; exact h.polled

theorem cycled_fire (deadline : SimTime) {w : World ν π φ} (h : Queued w.runtime w.runtime.readyQueue)
    (t : AsyncRuntime.TaskId) : Cycled w (fire deadline w t) :=
  .of_queued (h.wakeTask t) (by simp [polledTasks, fire, log, setRuntime, Obs.polled?])

theorem cycled_foldl_fire (deadline : SimTime) (l : List AsyncRuntime.TaskId) {w : World ν π φ}
    (h : Queued w.runtime w.runtime.readyQueue) :
    Queued (l.foldl (fire deadline) w).runtime (l.foldl (fire deadline) w).runtime.readyQueue ∧
      (l.foldl (fire deadline) w).polledTasks = w.polledTasks := by
  induction l generalizing w with
  | nil => exact ⟨h, rfl⟩
  | cons t l ih =>
    obtain ⟨h₁, h₂⟩ := ih (cycled_fire deadline h t).queued
    exact ⟨h₁, h₂.trans (by simp [polledTasks, fire, log, setRuntime, Obs.polled?])⟩

theorem cycled_fireTimers (n : Nat) {w : World ν π φ} (h : Queued w.runtime w.runtime.readyQueue) :
    Queued (fireTimers n w).runtime (fireTimers n w).runtime.readyQueue ∧
      (fireTimers n w).polledTasks = w.polledTasks := by
  induction n generalizing w with
  | zero => exact ⟨h, rfl⟩
  | succ n ih =>
    simp only [fireTimers]
    split
    · exact ⟨h, rfl⟩
    · rename_i deadline tasks timers _
      split
      · exact ⟨h, rfl⟩
      · have hw : Queued (w.setRuntime { w.runtime with timers }).runtime w.runtime.readyQueue :=
          h.congr rfl rfl rfl rfl
        obtain ⟨h₁, h₂⟩ := cycled_foldl_fire deadline tasks (w := w.setRuntime { w.runtime with timers }) hw
        obtain ⟨h₃, h₄⟩ := ih h₁
        exact ⟨h₃, h₄.trans h₂⟩

/-- The runtime as it starts the poll cycle of an event, if the event has one. -/
def cycleStart? (w : World ν π φ) : RuntimeEvent → Option (World ν π φ)
  | .poll => some w
  | .wake t => some (w.setRuntime (w.runtime.wakeTask t))
  | .timerTick =>
    let w := w.setRuntime { w.runtime with nextTimerDeadline := none }
    some (w.fireTimers w.runtime.timers.len).scheduleNextTimerTick
  | _ => none

theorem dispatch_eq_pollReadyTasks [ReadyTaskPolicy π] {w w' : World ν π φ} {event : RuntimeEvent}
    (h : w.cycleStart? event = some w') (script : Script ν) :
    w.dispatch event script = w'.pollReadyTasks script.polls := by
  cases event <;> cases h <;> rfl

/-- `w'` is `w` at the start of a poll cycle: nothing was polled yet, and the spawn requests wait. -/
structure Starts (w w' : World ν π φ) : Prop where
  key : w'.runtime.runtimeKey ≠ none
  queued : Queued w'.runtime w'.runtime.readyQueue
  polled : w'.polledTasks = w.polledTasks
  spawnQueue : w'.runtime.spawnQueue = w.runtime.spawnQueue
  spawnQueueLocal : w'.runtime.spawnQueueLocal = w.runtime.spawnQueueLocal

theorem cycleStart?_spec {w w' : World ν π φ} {event : RuntimeEvent} (h : w.cycleStart? event = some w')
    (hk : w.runtime.runtimeKey ≠ none) (hq : Queued w.runtime w.runtime.readyQueue) : Starts w w' := by
  cases event with
  | poll =>
    cases h
    exact ⟨hk, hq, rfl, rfl, rfl⟩
  | wake t =>
    cases h
    have ht := thins_wakeTask w.runtime t
    refine ⟨?_, hq.wakeTask t, rfl, ht.spawnQueue, ht.spawnQueueLocal⟩
    exact ht.runtimeKey ▸ hk
  | timerTick =>
    cases h
    have hq₀ :
        Queued (w.setRuntime { w.runtime with nextTimerDeadline := none }).runtime w.runtime.readyQueue :=
      hq.congr rfl rfl rfl rfl
    obtain ⟨h₁, h₂⟩ := cycled_fireTimers w.runtime.timers.len
      (w := w.setRuntime { w.runtime with nextTimerDeadline := none }) hq₀
    refine ⟨?_, (Cycled.of_queued h₁ h₂).scheduleNextTimerTick.queued, ?_, ?_, ?_⟩
    · rw [runtime_scheduleNextTimerTick, fireTimers_keep]; exact hk
    · rw [polledTasks, trace_scheduleNextTimerTick]; exact h₂
    · rw [runtime_scheduleNextTimerTick, fireTimers_keep]; rfl
    · rw [runtime_scheduleNextTimerTick, fireTimers_keep]; rfl
  | cancel t => cases h
  | registerTimer t D => cases h
  | cancelTimer t D => cases h

theorem Queued.executeTask {w : World ν π φ} {q : List AsyncRuntime.TaskId} (h : Queued w.runtime q)
    (id : DesCartes.TaskId) (script : Script ν) : Queued (w.executeTask id script).runtime q := by
  unfold World.executeTask
  rcases w.scheduler.beginTask id with ⟨_ | task, s⟩
  · exact h
  · exact Queued.acts (w := { w with scheduler := s }) h script.handler

theorem Opened.runtime {w w₁ : World ν π φ} {e : EventEntry (Payload ν)} (h : Opened w w₁ e) :
    w₁.runtime = w.runtime := by
  rw [h.keep]

theorem Opened.polledTasks {w w₁ : World ν π φ} {e : EventEntry (Payload ν)} (h : Opened w w₁ e) :
    w₁.polledTasks = w.polledTasks := by
  rw [World.polledTasks, h.keep]
  simp [World.polledTasks, Obs.polled?]

theorem queued_install (s : Scheduler (Payload ν) Unit Unit) (frontierPolicy : φ)
    (deferred : List (SimTime × Message ν)) (key : Uuid) (policy : π) (spawned : Nat) :
    Queued (install s frontierPolicy deferred key policy spawned).runtime
      (install s frontierPolicy deferred key policy spawned).runtime.readyQueue := by
  rw [install, runtime_schedule]
  show Queued (DesRuntime.spawn^[spawned] (.new policy)) (DesRuntime.spawn^[spawned] (.new policy)).readyQueue
  induction spawned with
  | zero =>
    refine ⟨List.nodup_nil, fun t task ht => ?_, fun t ht => absurd rfl ht, fun t ht => ?_, List.nodup_nil,
      fun t ht => ?_⟩ <;> cases ht
  | succ n ih =>
    rw [Function.iterate_succ_apply']
    exact ih.spawn

section
variable [ReadyTaskPolicy π]

theorem cycled_pollReadyTasks {w : World ν π φ} (polls : Nat → PollScript ν)
    (hk : w.runtime.runtimeKey ≠ none) (h : Queued w.runtime w.runtime.readyQueue) :
    Cycled w (w.pollReadyTasks polls) := by
  obtain ⟨h₁, h₂, ps, h₃, h₄, -⟩ := pollReadyTasks_spec polls hk h
  exact ⟨by rw [h₂]; exact h₁, ps, h₃, h₄⟩

theorem cycled_dispatch {w : World ν π φ} (event : RuntimeEvent) (script : Script ν)
    (hk : w.runtime.runtimeKey ≠ none) (h : Queued w.runtime w.runtime.readyQueue) :
    Cycled w (w.dispatch event script) := by
  cases hs : w.cycleStart? event with
  | some w' =>
    rw [dispatch_eq_pollReadyTasks hs]
    have hw' := cycleStart?_spec hs hk h
    exact (cycled_pollReadyTasks script.polls hw'.key hw'.queued).of_polledTasks hw'.polled
  | none =>
    -- The event is one of a timer or a cancellation.
    cases event with
    | cancel t =>
      have hrem : Queued (w.runtime.removeTask t) w.runtime.readyQueue := h.removeTask t
      have ha := acted_acts (w.setRuntime (w.runtime.removeTask t))
        (if (w.runtime.tasks t).isSome then script.drop else [])
      have hq := Queued.acts (w := w.setRuntime (w.runtime.removeTask t)) hrem
        (if (w.runtime.tasks t).isSome then script.drop else [])
      refine Cycled.scheduleNextTimerTick (.of_queued ?_ ha.polledTasks)
      show Queued _ (acts _ _).runtime.readyQueue
      rw [ha.readyQueue]
      exact hq.congr rfl rfl rfl rfl
    | registerTimer t deadline =>
      simp only [dispatch, registerTimer]
      split
      · exact .of_queued h rfl
      · refine Cycled.scheduleNextTimerTick (.of_queued (h.congr rfl rfl rfl rfl) ?_)
        simp [polledTasks, log, setRuntime, Obs.polled?]
    | cancelTimer t deadline =>
      simp only [dispatch, cancelTimer]
      split
      · exact .of_queued h rfl
      · split
        · exact .of_queued (h.congr rfl rfl rfl rfl) rfl
        · exact Cycled.scheduleNextTimerTick (.of_queued (h.congr rfl rfl rfl rfl) rfl)
    | poll => cases hs
    | wake t => cases hs
    | timerTick => cases hs

/-- A handler ends with a `Poll` in the heap when there are ready tasks. -/
theorem cycled_processEvent {w : World ν π φ} (event : RuntimeEvent) (script : Script ν)
    (h : Queued w.runtime w.runtime.readyQueue) : Cycled w (w.processEvent event script) ∧
      ((w.processEvent event script).runtime.readyQueue ≠ [] →
        ∃ e ∈ (w.processEvent event script).heap, runtimeEvent? e = some .poll) := by
  have hd := cycled_dispatch event script w.runtimeKey_storeKey (h.congr rfl rfl rfl rfl)
  refine ⟨⟨?_, ?_⟩, fun hne => ?_⟩
  · rw [runtime_processEvent]; exact hd.queued
  · rw [polledTasks, trace_processEvent]; exact hd.polled
  · rw [runtime_processEvent] at hne
    simp only [processEvent, if_neg hne]
    exact ⟨_, (mem_heap_schedule ..).mpr (.inl rfl), rfl⟩

theorem cycled_processEventEntry {w : World ν π φ} (e : EventEntry (Payload ν)) (script : Script ν)
    (h : Queued w.runtime w.runtime.readyQueue) : Cycled w (w.processEventEntry e script) := by
  rcases e with ⟨i, t, c, event | v⟩ | ⟨i, t, id⟩
  · exact (cycled_processEvent event script h).1
  · have ha := acted_acts w script.handler
    refine .of_queued ?_ ha.polledTasks
    show Queued _ (w.acts script.handler).runtime.readyQueue
    rw [ha.readyQueue]
    exact h.acts script.handler
  · have ha := acted_executeTask w id script
    refine .of_queued ?_ ha.polledTasks
    show Queued _ (w.executeTask id script).runtime.readyQueue
    rw [ha.readyQueue]
    exact h.executeTask id script

/-! ## Runs -/

/-- The poll cycle of an event starts in `w'`, and the step polls what the cycle does. -/
theorem Opened.cycle {w w₁ w' : World ν π φ} {e : EventEntry (Payload ν)} {event : RuntimeEvent}
    (ho : Opened w w₁ e) (he : runtimeEvent? e = some event)
    (hs : w₁.storeKey.cycleStart? event = some w') (h : Queued w.runtime w.runtime.readyQueue) :
    Starts w w' ∧
      ∀ script, (w₁.processEventEntry e script).close.polledTasks =
        (w'.pollReadyTasks script.polls).polledTasks := by
  have hq : Queued w₁.runtime w₁.runtime.readyQueue := by rw [ho.runtime]; exact h
  have hw' := cycleStart?_spec hs w₁.runtimeKey_storeKey (hq.congr rfl rfl rfl rfl)
  refine ⟨⟨hw'.key, hw'.queued, hw'.polled.trans ho.polledTasks, ?_, ?_⟩, fun script => ?_⟩
  · rw [← ho.runtime]; exact hw'.spawnQueue
  · rw [← ho.runtime]; exact hw'.spawnQueueLocal
  · obtain ⟨i, τ, c, rfl⟩ := runtimeEvent?_eq_some.mp he
    show (w₁.processEvent event script).close.polledTasks = _
    rw [World.polledTasks, trace_close, trace_processEvent, dispatch_eq_pollReadyTasks hs]
    rfl

variable [EventFrontierPolicy φ]

theorem cycled_step {w : World ν π φ} (script : Script ν) (h : Queued w.runtime w.runtime.readyQueue) :
    Cycled w (w.step script).2 := by
  rcases step_cases w script with ⟨s, p, he, -⟩ | ⟨e, w₁, ho, he, -⟩
  · rw [he]
    exact .of_queued h rfl
  · have hw₁ : Queued w₁.runtime w₁.runtime.readyQueue := by rw [ho.runtime]; exact h
    have hc := (cycled_processEventEntry e script hw₁).of_polledTasks ho.polledTasks
    rw [he]
    refine ⟨?_, ?_⟩
    · rw [runtime_close]; exact hc.queued
    · rw [polledTasks, trace_close]; exact hc.polled

/-- A step polls every live task of its cycle's snapshot. -/
theorem Opened.polled_mem {w w₁ w' : World ν π φ} {e : EventEntry (Payload ν)}
    {event : RuntimeEvent} {script : Script ν} (ho : Opened w w₁ e)
    (hstep : w.step script = (true, (w₁.processEventEntry e script).close))
    (he : runtimeEvent? e = some event) (hs : w₁.storeKey.cycleStart? event = some w')
    (h : Queued w.runtime w.runtime.readyQueue) {t : AsyncRuntime.TaskId}
    (ht : t ∈ w'.runtime.drainSpawnQueues.readyQueue)
    (htask : w'.runtime.drainSpawnQueues.tasks t ≠ none) :
    .polled t ∈ (w.step script).2.trace.drop w.trace.length := by
  obtain ⟨hstart, hpolls⟩ := ho.cycle he hs h
  obtain ⟨-, -, ps, hps, -, hmem⟩ := pollReadyTasks_spec script.polls hstart.key hstart.queued
  have hpolled : (w.step script).2.polledTasks = w.polledTasks ++ ps := by
    rw [hstep, hpolls, hps, hstart.polled]
  rw [← mem_filterMap_polled?, polledTasks_drop (trace_step w script) hpolled]
  exact (hmem t).mpr ⟨ht, htask⟩

theorem queued_move {w : World ν π φ} (m : Move ν π φ) (h : Queued w.runtime w.runtime.readyQueue) :
    Queued (w.move m).runtime (w.move m).runtime.readyQueue := by
  cases m with
  | act action =>
    show Queued _ (w.act action).runtime.readyQueue
    rw [(acted_act w action).readyQueue]
    exact h.act action
  | spawnDirect => exact h.spawn
  | wakeDirect t => exact h.wakeTask t
  | setReadyTaskPolicy policy => exact h.congr rfl rfl rfl rfl
  | setFrontierPolicy policy => exact h
  | step script => exact (cycled_step script h).queued

theorem queued_run {w : World ν π φ} (moves : List (Move ν π φ)) (h : Queued w.runtime w.runtime.readyQueue) :
    Queued (w.run moves).runtime (w.run moves).runtime.readyQueue :=
  run_rule (P := fun w => Queued w.runtime w.runtime.readyQueue) (fun _ m h => queued_move m h) h moves

/-- In every run: between events no id is in the ready queue twice and a task is marked as queued
exactly when it is there; a step polls no task twice; and when it processes an event of the runtime
and leaves tasks in the ready queue, a `Poll` is in the heap, which polls every one of them that is
still a task. -/
theorem run_ready_queue (s : Scheduler (Payload ν) Unit Unit) (frontierPolicy : φ)
    (deferred : List (SimTime × Message ν)) (key : Uuid) (policy : π) (spawned : Nat) (moves : List (Move ν π φ))
    (script : Script ν) :
    let w := (install s frontierPolicy deferred key policy spawned).run moves
    let w' := (w.step script).2
    w.runtime.readyQueue.Nodup ∧
    (∀ t task, w.runtime.tasks t = some task → (task.queued = true ↔ t ∈ w.runtime.readyQueue)) ∧
    ((w'.trace.drop w.trace.length).filterMap Obs.polled?).Nodup ∧
    (∀ ev now, .processed (some ev) now ∈ w'.trace.drop w.trace.length → w'.runtime.readyQueue ≠ [] →
      ∃ e ∈ w'.heap, runtimeEvent? e = some .poll) ∧
    ∀ now, .processed (some .poll) now ∈ w'.trace.drop w.trace.length →
      ∀ t ∈ w.runtime.readyQueue, w.runtime.tasks t ≠ none → .polled t ∈ w'.trace.drop w.trace.length := by
  intro w w'
  have h : Queued w.runtime w.runtime.readyQueue := queued_run moves (queued_install ..)
  have hpre : w.trace <+: w'.trace := trace_step w script
  refine ⟨h.nodup, h.queued, ?_, fun ev now hev hne => ?_, fun now hev t ht htask => ?_⟩
  · obtain ⟨ps, hps, hn⟩ := (cycled_step script h).polled
    rw [polledTasks_drop hpre hps]
    exact hn
  · obtain ⟨e, w₁, ho, he, hev, -⟩ := step_processed hev
    have hw' : w' = (w₁.processEventEntry e script).close := congrArg Prod.snd he
    obtain ⟨i, τ, c, rfl⟩ := runtimeEvent?_eq_some.mp hev
    have hq : Queued w₁.runtime w₁.runtime.readyQueue := by rw [ho.runtime]; exact h
    rw [hw', runtime_close] at hne
    obtain ⟨x, hx, hpoll⟩ := (cycled_processEvent ev script hq).2 hne
    exact ⟨x, hw' ▸ (drained_close _).held x hx, hpoll⟩
  · obtain ⟨e, w₁, ho, he, hev, -⟩ := step_processed hev
    refine ho.polled_mem he hev rfl h ?_ ?_
    · simp only [drainSpawnQueues_eq, storeKey, setRuntime, ho.runtime]
      exact List.mem_append_left _ ht
    · simp only [drainSpawnQueues_eq, storeKey, setRuntime, ho.runtime]
      split
      · simp
      · exact htask

end

end World

end DesCartes
