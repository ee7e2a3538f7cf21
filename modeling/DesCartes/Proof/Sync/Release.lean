import DesCartes.Proof.Simulation.Timers
import DesCartes.Proof.Sync.Mutex

/-!
# Releasing a mutex from the tasks of a runtime

The calls that the code of a simulation makes to a mutex see the task that is being polled, if there is
one (`World.mutexOps`). `run_releases`: a guard is released exactly when it is dropped while a task is
polled, so in a run in which guards are dropped by polls only, every release works.

The future of a task that is cancelled is dropped when no task is polled: `abortedHolder_panics`.
-/

namespace DesCartes

open AsyncRuntime

/-- What a record says of a call: which one it is, and what it saw. -/
def Obs.called? : Obs → Option (Nat × Context)
  | .called call taskId now => some (call, ⟨taskId, now⟩)
  | _ => none

/-- Only polls of futures make calls that are not among `N`. -/
structure Script.PollsOnly {ν : Type} (N : Nat → Prop) (script : Script ν) : Prop where
  handler : ∀ n, .call n ∈ script.handler → N n
  polls : ∀ k n, .call n ∈ (script.polls k).drop → N n
  drop : ∀ n, .call n ∈ script.drop → N n

namespace World

variable {ν π φ : Type}

/-- The calls of a run. -/
def calls (w : World ν π φ) : List (Nat × Context) := w.trace.filterMap Obs.called?

/-- The calls of a run to a mutex, where `ops` says which calls are to it and what they are. -/
def mutexOps {ω : Type} (ops : Nat → Option (Mutex.Op ω)) (w : World ν π φ) : List (Context × Mutex.Op ω) :=
  w.calls.filterMap fun c => (ops c.1).map (c.2, ·)

/-! ## Calls outside polls -/

/-- The calls that were made when no task was polled are among `N`. -/
def Outside (N : Nat → Prop) (w : World ν π φ) : Prop := ∀ c ∈ w.calls, c.2.taskId = none → N c.1

section
variable {N : Nat → Prop} {w w' : World ν π φ}

theorem Outside.congr (h : w.Outside N) (hc : w'.calls = w.calls) : w'.Outside N := by
  rw [Outside, hc]
  exact h

theorem calls_log {o : Obs} (ho : o.called? = none) : (w.log o).calls = w.calls := by
  simp [calls, log, ho]

/-- What a call adds. -/
theorem calls_act (w : World ν π φ) (action : Action ν) : (w.act action).calls = w.calls ∨
    ∃ n now, action = .call n ∧ (w.act action).calls = w.calls ++ [(n, ⟨w.pollContext, now⟩)] := by
  cases action with
  | call n =>
    refine .inr ⟨n, if w.inContext then some w.now else none, rfl, ?_⟩
    simp [act, calls, log, Obs.called?]
  | schedule delay message => exact .inl (by simp [act, calls])
  | spawn =>
    refine .inl ?_
    simp only [act, spawn]
    split <;> rfl
  | spawnLocal =>
    refine .inl ?_
    simp only [act, spawnLocal]
    split <;> rfl
  | cancel t =>
    refine .inl ?_
    simp only [act, cancel]
    split <;> rfl
  | cancelLocal t =>
    refine .inl ?_
    simp only [act, cancelLocal]
    split <;> rfl
  | pollSleep i =>
    refine .inl ?_
    simp only [act, pollSleep, registerTimerAt]
    split
    · rfl
    · split
      · split
        · rfl
        · rw [calls_log rfl]
          split
          · rfl
          · cases w.pollContext <;> rfl
      · rfl
  | dropSleep i =>
    refine .inl ?_
    simp only [act, dropSleep, cancelTimerAt]
    split
    · rfl
    · split
      · split
        · cases h : w.pollContext <;> simp [setSleep, h, deferWake, deferWakeAfter, calls]
        · rfl
      · rfl
  | _ => exact .inl rfl

theorem Outside.acts (h : w.Outside N) {actions : List (Action ν)}
    (hN : w.pollContext = none → ∀ n, .call n ∈ actions → N n) : (w.acts actions).Outside N := by
  induction actions generalizing w with
  | nil => exact h
  | cons action actions ih =>
    have hc := (acted_act w action).pollContext
    refine ih ?_ fun hnone n hn => hN (hc ▸ hnone) n (List.mem_cons_of_mem _ hn)
    rcases calls_act w action with e | ⟨n, now, rfl, e⟩
    · exact h.congr e
    · intro c hcall htask
      rw [e, List.mem_append, List.mem_singleton] at hcall
      rcases hcall with hcall | rfl
      · exact h c hcall htask
      · exact hN htask n List.mem_cons_self

/-- Nothing is polled, and the calls so far that were made so are among `N`. -/
structure Idle (N : Nat → Prop) (w : World ν π φ) : Prop where
  context : w.pollContext = none
  outside : w.Outside N

theorem Idle.congr (h : w.Idle N) (hp : w'.pollContext = w.pollContext) (hc : w'.calls = w.calls) :
    w'.Idle N :=
  ⟨hp.trans h.context, h.outside.congr hc⟩

theorem Idle.setRuntime (h : w.Idle N) (rt : DesRuntime π) : (w.setRuntime rt).Idle N :=
  ⟨h.context, h.outside⟩

theorem Idle.setScheduler (h : w.Idle N) (s : Scheduler (Payload ν) Unit Unit) :
    ({ w with scheduler := s }).Idle N :=
  ⟨h.context, h.outside⟩

theorem Idle.acts (h : w.Idle N) {actions : List (Action ν)} (hN : ∀ n, .call n ∈ actions → N n) :
    (w.acts actions).Idle N :=
  ⟨(acted_acts w actions).pollContext.trans h.context, h.outside.acts fun _ => hN⟩

theorem Idle.pollTask (h : w.Idle N) (t : AsyncRuntime.TaskId) (script : PollScript ν) :
    (w.pollTask t script).2.Idle N := by
  unfold World.pollTask
  split
  · refine ⟨rfl, ?_⟩
    have hp : (({ w with pollContext := some t } : World ν π φ).log (.polled t)).Outside N := by
      refine h.outside.congr ?_
      rw [calls_log rfl]
      rfl
    have hacts :
        ((({ w with pollContext := some t } : World ν π φ).log (.polled t)).acts script.actions).Outside N :=
      hp.acts fun hnone => by cases hnone
    exact hacts.congr rfl
  · exact h

theorem Idle.pollOne (h : w.Idle N) (t : AsyncRuntime.TaskId) (task : Task) {script : PollScript ν}
    (hN : ∀ n, .call n ∈ script.drop → N n) : (w.pollOne t task script).Idle N := by
  have h' := (h.setRuntime (w.runtime.unqueue t task)).pollTask t script
  unfold World.pollOne
  simp only
  split
  · exact (h'.setRuntime _).acts hN
  · exact h'

theorem Idle.pollLoop [ReadyTaskPolicy π] (n : Nat) {polls : Nat → PollScript ν}
    (hN : ∀ k n, .call n ∈ (polls k).drop → N n) (pollSet : List AsyncRuntime.TaskId) (h : w.Idle N) :
    (pollLoop n polls pollSet w).Idle N := by
  induction n generalizing polls pollSet w with
  | zero => exact h
  | succ n ih =>
    have hc : (w.chooseTask pollSet).2.Idle N := h.setRuntime _
    simp only [World.pollLoop]
    split
    · exact hc
    · split
      · exact ih hN _ hc
      · exact ih (fun k => hN (k + 1)) _ (hc.pollOne _ _ (hN 0))

theorem Idle.pollReadyTasks [ReadyTaskPolicy π] (h : w.Idle N) {polls : Nat → PollScript ν}
    (hN : ∀ k n, .call n ∈ (polls k).drop → N n) : (w.pollReadyTasks polls).Idle N :=
  Idle.pollLoop _ hN _ (h.setRuntime _)

theorem Idle.scheduleNextTimerTick (h : w.Idle N) : w.scheduleNextTimerTick.Idle N := by
  rw [scheduleNextTimerTick_keep]
  exact h.congr rfl rfl

theorem Idle.handleTimerTick [ReadyTaskPolicy π] (h : w.Idle N) {polls : Nat → PollScript ν}
    (hN : ∀ k n, .call n ∈ (polls k).drop → N n) : (w.handleTimerTick polls).Idle N := by
  refine Idle.pollReadyTasks (Idle.scheduleNextTimerTick ?_) hN
  obtain ⟨q, hq, hmem⟩ := trace_fireTimers (w.setRuntime { w.runtime with nextTimerDeadline := none })
  refine h.congr (by rw [fireTimers_keep]; rfl) ?_
  have hnone : q.filterMap Obs.called? = [] := by
    refine List.filterMap_eq_nil_iff.mpr fun o ho => ?_
    obtain ⟨t, D, -, -, rfl⟩ := (hmem o).mp ho
    rfl
  rw [calls, hq, List.filterMap_append, hnone, List.append_nil]
  rfl

theorem Idle.cancelTask (h : w.Idle N) (t : AsyncRuntime.TaskId) {drop : List (Action ν)}
    (hN : ∀ n, .call n ∈ drop → N n) : (w.cancelTask t drop).Idle N := by
  refine Idle.scheduleNextTimerTick (((h.setRuntime _).acts fun n hn => ?_).setRuntime _)
  split at hn
  · exact hN n hn
  · cases hn

theorem Idle.dispatch [ReadyTaskPolicy π] (h : w.Idle N) (event : RuntimeEvent) {script : Script ν}
    (hN : script.PollsOnly N) : (w.dispatch event script).Idle N := by
  cases event with
  | poll => exact h.pollReadyTasks hN.polls
  | wake t => exact (h.setRuntime (w.runtime.wakeTask t)).pollReadyTasks hN.polls
  | cancel t => exact h.cancelTask t hN.drop
  | registerTimer t D =>
    simp only [World.dispatch, World.registerTimer]
    split
    · exact h
    · exact Idle.scheduleNextTimerTick ((h.setRuntime _).congr rfl (calls_log rfl))
  | cancelTimer t D =>
    simp only [World.dispatch, World.cancelTimer]
    split
    · exact h
    · split
      · exact h.setRuntime _
      · exact (h.setRuntime _).scheduleNextTimerTick
  | timerTick => exact h.handleTimerTick hN.polls

theorem Idle.processEventEntry [ReadyTaskPolicy π] (h : w.Idle N) (e : EventEntry (Payload ν))
    {script : Script ν} (hN : script.PollsOnly N) : (w.processEventEntry e script).Idle N := by
  cases e with
  | component time seq key payload =>
    cases payload with
    | runtime event =>
      have hd : (w.storeKey.dispatch event script).Idle N := Idle.dispatch (h.setRuntime _) event hN
      simp only [World.processEventEntry, World.processEvent]
      split
      · exact hd
      · exact hd.congr (pollContext_schedule ..) (by simp [calls])
    | other event => exact h.acts hN.handler
  | task time seq id =>
    simp only [World.processEventEntry, World.executeTask]
    split
    · exact h.setScheduler _
    · exact ((h.setScheduler _).acts hN.handler).setScheduler _

end

/-! ## Runs -/

section
variable [ReadyTaskPolicy π] [EventFrontierPolicy φ] {N : Nat → Prop} {w : World ν π φ}

/-- A move of which only polls of futures make calls that are not among `N`. -/
def Move.PollsOnly (N : Nat → Prop) : Move ν π φ → Prop
  | .act action => ∀ n, action = .call n → N n
  | .step script => script.PollsOnly N
  | _ => True

theorem Idle.step (h : w.Idle N) {script : Script ν} (hN : script.PollsOnly N) :
    (w.step script).2.Idle N := by
  rcases step_cases w script with ⟨s, p, e, -⟩ | ⟨e, w₁, ho, he, -⟩
  · rw [e]
    exact ⟨h.context, h.outside⟩
  · have h₁ : w₁.Idle N := by
      rw [ho.keep]
      refine h.congr rfl ?_
      simp [calls, Obs.called?]
    have h₂ := h₁.processEventEntry e hN
    rw [he]
    refine h₂.congr ?_ ?_
    · exact (drained_close _).pollContext
    · rw [calls, trace_close]
      rfl

theorem Idle.move (h : w.Idle N) {m : Move ν π φ} (hN : m.PollsOnly N) : (w.move m).Idle N := by
  cases m with
  | act action =>
    have hact : ∀ n, .call n ∈ [action] → N n := fun n hn => hN n (List.mem_singleton.mp hn).symm
    exact h.acts hact
  | spawnDirect => exact h.setRuntime _
  | wakeDirect t => exact h.setRuntime _
  | setReadyTaskPolicy policy => exact h.setRuntime _
  | setFrontierPolicy policy => exact ⟨h.context, h.outside⟩
  | step script => exact h.step hN

theorem Idle.run {moves : List (Move ν π φ)} (hN : ∀ m ∈ moves, m.PollsOnly N) (h : w.Idle N) :
    (w.run moves).Idle N :=
  List.foldlRecOn moves World.move h fun _ h m hm => h.move (hN m hm)

end

end World

/-! ## Releases -/

/-- Dropping the guard `g` does not panic, and unlocks the mutex. -/
def Mutex.Releases {ω ρ : Type} [DecidableEq ω] [MutexWaiterPolicy ρ] (m : Mutex ω ρ) (cx : Context) (g : Nat) : Prop :=
  ∃ m' ans, m.step (cx, .dropGuard g) = some (m', ans) ∧ m'.state.locked = false ∧ m'.guards.get g = none

/-- A guard is released exactly when it is dropped while a task is polled. -/
theorem Mutex.releases_iff {ω ρ : Type} [DecidableEq ω] [MutexWaiterPolicy ρ] {m : Mutex ω ρ}
    {cx : Context} {g : Nat} (hg : m.guards.get g = some ()) :
    m.Releases cx g ↔ cx.taskId ≠ none := by
  have herase : (m.guards.erase g).get g = none := by simp [Table.erase]
  constructor
  · rintro ⟨m', ans, hs, -⟩ hnone
    simp only [Mutex.step, Mutex.dropGuard, hg, hnone] at hs
    cases hs
  · intro hsome
    obtain ⟨taskId, htask⟩ := Option.ne_none_iff_exists'.mp hsome
    simp only [Mutex.Releases, Mutex.step, Mutex.dropGuard, hg, htask]
    split
    · exact ⟨_, _, rfl, rfl, herase⟩
    · rename_i hw
      have hpos : 0 < m.state.waiters.length := List.length_pos_iff.mpr hw
      split
      · rename_i hnone
        rw [List.getElem?_eq_none_iff] at hnone
        simp only [Mutex.chosen, Mutex.record] at hnone
        omega
      · exact ⟨_, _, rfl, rfl, herase⟩

namespace World

variable {ν π φ ω ρ : Type} [ReadyTaskPolicy π] [EventFrontierPolicy φ] [DecidableEq ω] [MutexWaiterPolicy ρ]

/-- The calls that do not drop a guard. -/
def NoRelease (ops : Nat → Option (Mutex.Op ω)) (n : Nat) : Prop := ∀ g, ops n ≠ some (.dropGuard g)

/-- Of the releases in a run exactly those work that are made while a task is polled; so all of them do
when guards are dropped by polls only. -/
theorem run_releases (s : Scheduler (Payload ν) Unit Unit) (frontierPolicy : φ) (deferred : List (SimTime × Message ν))
    (key : Uuid) (policy : π) (spawned : Nat) (moves : List (Move ν π φ)) (ops : Nat → Option (Mutex.Op ω)) (mutexId : Nat)
    (mutexPolicy : ρ) (pre post : List (Context × Mutex.Op ω)) (cx : Context) (g : Nat) (m : Mutex ω ρ)
    (answers : List Mutex.Answer) :
    ((install s frontierPolicy deferred key policy spawned).run moves).mutexOps ops = pre ++ (cx, .dropGuard g) :: post →
    Machine.run Mutex.step (.new mutexId mutexPolicy) pre = some (m, answers) → m.guards.get g = some () →
    (m.Releases cx g ↔ cx.taskId ≠ none) ∧ ((∀ move ∈ moves, move.PollsOnly (NoRelease ops)) → m.Releases cx g) := by
  intro hops _ hg
  refine ⟨Mutex.releases_iff hg, fun hN => (Mutex.releases_iff hg).mpr fun hnone => ?_⟩
  have hidle : (install s frontierPolicy deferred key policy spawned).Idle (NoRelease ops) := by
    refine ⟨pollContext_schedule .., fun c hc => ?_⟩
    simp [install, calls] at hc
  have hmem :
      (cx, Mutex.Op.dropGuard g) ∈ ((install s frontierPolicy deferred key policy spawned).run moves).mutexOps ops := by
    rw [hops]
    exact List.mem_append_right _ List.mem_cons_self
  obtain ⟨c, hc, e⟩ := List.mem_filterMap.mp hmem
  obtain ⟨op, hop, e⟩ := Option.map_eq_some_iff.mp e
  cases e
  exact (hidle.run hN).outside c hc hnone g hop

/-- The calls of the task that locks the mutex, and of its future when it is dropped. -/
def holderOps : Nat → Option (Mutex.Op Nat)
  | 0 => some .lock
  | 1 => some (.poll 0 0)
  | 2 => some (.dropGuard 0)
  | _ => none

/-- A task locks the mutex and is pending; in its next poll it drops the guard. -/
def holder : List (Move Unit FifoReadyTaskPolicy FifoFrontierPolicy) :=
  [.step { Script.idle with polls := fun _ => ⟨[.call 0, .call 1, .deferWakeAfter .zero (.runtime (.wake 0))], false, []⟩ },
    .step { Script.idle with polls := fun _ => ⟨[.call 2], true, []⟩ }]

theorem run_releases_holder : ∃ m : Mutex Nat FifoMutexWaiterPolicy, m.guards.get 0 = some () ∧
    m.Releases ⟨some 0, some .zero⟩ 0 := by
  have hops : ((install (.withSeed 7) {} [] 0 {} 1).run holder).mutexOps holderOps =
      [(⟨some 0, some .zero⟩, .lock), (⟨some 0, some .zero⟩, .poll 0 0)] ++ (⟨some 0, some .zero⟩,
        .dropGuard 0) :: [] := by
    decide
  have hm : Machine.run Mutex.step (.new 1 FifoMutexWaiterPolicy.mk)
    [(⟨some 0, some .zero⟩, .lock), (⟨some 0, some .zero⟩, .poll 0 0)] = some (_, _) := rfl
  refine ⟨_, rfl, (run_releases _ _ _ _ _ _ holder holderOps 1 FifoMutexWaiterPolicy.mk _ _ _ 0 _ _ hops hm rfl).2 ?_⟩
  intro move hmove
  simp only [holder, List.mem_cons, List.not_mem_nil, or_false] at hmove
  rcases hmove with rfl | rfl
  · exact ⟨by simp [Script.idle], by simp, by simp [Script.idle]⟩
  · exact ⟨by simp [Script.idle], by simp, by simp [Script.idle]⟩

/-- One task locks the mutex and is pending, another one aborts it. -/
def abortedHolder : List (Move Unit FifoReadyTaskPolicy FifoFrontierPolicy) :=
  [.step { Script.idle with polls := fun k => if k = 0 then ⟨[.call 0, .call 1], false, []⟩ else ⟨[.cancel 0], true, []⟩ },
    .step { Script.idle with drop := [.call 2] }]

/-- The guard of the aborted task is dropped outside a poll: that panics, and the mutex stays locked. -/
theorem abortedHolder_panics : ∃ m answers,
    ((install (.withSeed 7) {} [] 0 {} 2).run abortedHolder).mutexOps holderOps =
      [(⟨some 0, some .zero⟩, .lock), (⟨some 0, some .zero⟩, .poll 0 0)] ++ (⟨none, some .zero⟩, .dropGuard 0) :: [] ∧
    Machine.run Mutex.step (.new 1 FifoMutexWaiterPolicy.mk)
      [(⟨some 0, some .zero⟩, .lock), (⟨some 0, some .zero⟩, .poll 0 0)] = some (m, answers) ∧
    m.guards.get 0 = some () ∧ m.step (⟨none, some .zero⟩, .dropGuard 0) = none ∧
    ¬ m.Releases ⟨none, some .zero⟩ 0 := by
  refine ⟨_, _, by decide, rfl, rfl, rfl, fun h => ?_⟩
  exact (Mutex.releases_iff rfl).mp h rfl

end World

end DesCartes
