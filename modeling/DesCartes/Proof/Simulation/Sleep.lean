import DesCartes.Proof.Simulation.ReadyQueue
import DesCartes.Proof.Simulation.Timers

/-!
# Sleeping tasks

A `SimSleep` that a task polls and that is pending has a timer registered for the task, which the
event `RegisterTimer` does; dropping it before its time cancels the timer, by the event
`CancelTimer`. A timer is known by the task and the deadline only, so that `CancelTimer` also takes
away that of another sleep of the task with the same deadline (`twoSleeps_lost`). And a sleep
registers its timer once, for the task that polls it first.

`Tended X w` says that a task that awaits a sleep is registered at its deadline, or about to be, or
was woken then. `X` is for the registration that the event being processed is going to make. Where
no `CancelTimer` does the former (`CancelsUnawaited`), and no sleep is polled by two tasks
(`OneContext`), it holds throughout a run (`run_sleeps`).
-/

namespace DesCartes.World

open AsyncRuntime

variable {ν π φ : Type}

/-- The sleep `i` is for the time `D`, the task `t` has polled it, and it was pending. -/
structure Awaits (w : World ν π φ) (i : Nat) (t : AsyncRuntime.TaskId) (D : SimTime) : Prop where
  live : ∃ sleep, w.sleeps i = some sleep ∧ sleep.targetTime = some D
  pending : .sleepPending i (some t) ∈ w.trace
  task : w.runtime.tasks t ≠ none

/-- A `RegisterTimer` that comes in time is in the heap. -/
def Registering (w : World ν π φ) (t : AsyncRuntime.TaskId) (D : SimTime) : Prop :=
  ∃ e ∈ w.heap, runtimeEvent? e = some (.registerTimer t D) ∧ e.time ≤ D

/-- The clock has reached `D`, and the task was woken then. -/
def Woken (w : World ν π φ) (t : AsyncRuntime.TaskId) (D : SimTime) : Prop := D ≤ w.now ∧ .woken t D D ∈ w.trace

/-- Every sleep that was pending was always polled by the same task, or never by a task. -/
def OneContext (tr : List Obs) : Prop := ∀ i c c', .sleepPending i c ∈ tr → .sleepPending i c' ∈ tr → c = c'

theorem OneContext.mono {tr tr' : List Obs} (h : OneContext tr') (hp : tr <+: tr') : OneContext tr :=
  fun i c c' hc hc' => h i c c' (hp.subset hc) (hp.subset hc')

/-- The task is registered, or it is going to be: by an event of the heap, by a deferred wake of the
step, or as `X` says. -/
def Held (X : AsyncRuntime.TaskId → SimTime → Prop) (w : World ν π φ) (t : AsyncRuntime.TaskId) (D : SimTime) : Prop :=
  t ∈ w.runtime.timersAt D ∨ Registering w t D ∨
    (w.inContext = true ∧ (.zero, .runtime (.registerTimer t D)) ∈ w.deferred) ∨ X t D

structure Tended (X : AsyncRuntime.TaskId → SimTime → Prop) (w : World ν π φ) : Prop where
  fresh : ∀ i, w.nextSleep ≤ i → w.sleeps i = none ∧ ∀ c, .sleepPending i c ∉ w.trace
  scheduled : ∀ i sleep, w.sleeps i = some sleep → sleep.timerScheduled = true → ∃ c, .sleepPending i c ∈ w.trace
  target : ∀ i sleep c, w.sleeps i = some sleep → .sleepPending i c ∈ w.trace → sleep.targetTime ≠ none
  tasks : ∀ t, w.runtime.tasks t ≠ none → Settled w.runtime t
  context : ∀ t, w.pollContext = some t → Settled w.runtime t
  pending : ∀ i t, .sleepPending i (some t) ∈ w.trace → Settled w.runtime t
  kept : ∀ i t D, Awaits w i t D → (w.now ≤ D ∧ Held X w t D) ∨ Woken w t D

variable {X Y : AsyncRuntime.TaskId → SimTime → Prop}

/-- A change that leaves the sleeps alone. What is to show is what it does to the timers, and to `X`. -/
theorem Tended.grows {w w' : World ν π φ} (h : Tended X w) (hg : Grows w w') (hs : w'.sleeps = w.sleeps)
    (hn : w'.nextSleep = w.nextSleep) (hc : ∀ t, w'.pollContext = some t → Settled w'.runtime t)
    (hp : ∀ i c, .sleepPending i c ∈ w'.trace → .sleepPending i c ∈ w.trace)
    (ht : ∀ t, w'.runtime.tasks t ≠ none → Settled w'.runtime t)
    (hk : ∀ i t D, Awaits w i t D → w'.runtime.tasks t ≠ none → w.now ≤ D → t ∈ w.runtime.timersAt D ∨ X t D →
      (w'.now ≤ D ∧ Held Y w' t D) ∨ Woken w' t D) : Tended Y w' := by
  obtain ⟨q, hq, -⟩ := hg.trace
  have hsub : w.trace ⊆ w'.trace := by rw [hq]; exact List.subset_append_left _ _
  refine ⟨fun i hi => ?_, fun i sleep hi hsch => ?_, fun i sleep c hi hm => ?_, ht, hc,
    fun i t hm => ?_, fun i t D ha => ?_⟩
  · rw [hn] at hi
    obtain ⟨h₁, h₂⟩ := h.fresh i hi
    exact ⟨by rw [hs]; exact h₁, fun c hm => h₂ c (hp i c hm)⟩
  · rw [hs] at hi
    obtain ⟨c, hm⟩ := h.scheduled i sleep hi hsch
    exact ⟨c, hsub hm⟩
  · rw [hs] at hi
    exact h.target i sleep c hi (hp i c hm)
  · exact hg.ages.settled t (h.pending i t (hp i _ hm))
  · have hset := h.pending i t (hp i _ ha.pending)
    have ha' : Awaits w i t D := ⟨by rw [← hs]; exact ha.live, hp i _ ha.pending,
      hg.ages.tasks t hset ha.task⟩
    rcases h.kept i t D ha' with ⟨hle, htimer | ⟨e, he, hev, hD⟩ | ⟨hin, hd⟩ | hX⟩ | ⟨hle, hw⟩
    · exact hk i t D ha' ha.task hle (.inl htimer)
    · exact .inl ⟨hg.now ▸ hle, .inr (.inl ⟨e, hg.held e he, hev, hD⟩)⟩
    · exact .inl ⟨hg.now ▸ hle, .inr (.inr (.inl ⟨hg.inContext.trans hin, hg.deferred.subset hd⟩))⟩
    · exact hk i t D ha' ha.task hle (.inr hX)
    · exact .inr ⟨hg.now ▸ hle, hsub hw⟩

/-- A change that leaves the sleeps and the timers alone. -/
theorem Tended.frame {w w' : World ν π φ} (h : Tended X w) (hf : Frame w w') (hs : w'.sleeps = w.sleeps)
    (hn : w'.nextSleep = w.nextSleep) (hc : ∀ t, w'.pollContext = some t → Settled w'.runtime t)
    (hp : ∀ i c, .sleepPending i c ∈ w'.trace → .sleepPending i c ∈ w.trace)
    (ht : ∀ t, w'.runtime.tasks t ≠ none → Settled w'.runtime t) : Tended X w' := by
  refine h.grows hf.toGrows hs hn hc hp ht fun i t D _ _ hle hk => .inl ⟨?_, ?_⟩
  · rw [hf.now]; exact hle
  · rcases hk with hk | hk
    · exact .inl (by rw [timersAt_congr hf.timers]; exact hk)
    · exact .inr (.inr (.inr hk))

theorem Tended.thins {w : World ν π φ} (h : Tended X w) {rt : DesRuntime π} (ht : Thins w.runtime rt) :
    Tended X (w.setRuntime rt) :=
  h.frame (frame_thins w ht) rfl rfl (fun t hc => ht.ages.settled t (h.context t hc)) (fun _ _ hm => hm)
    fun t hm => ht.ages.settled t (h.tasks t (ht.tasks t hm))

/-- It is about the ids, the tasks and the timers of the runtime. -/
theorem Tended.setRuntime {w : World ν π φ} (h : Tended X w) (rt : DesRuntime π)
    (hn : rt.nextTaskId = w.runtime.nextTaskId) (ht : rt.tasks = w.runtime.tasks)
    (hs : rt.spawnQueue = w.runtime.spawnQueue)
    (hl : rt.spawnQueueLocal = w.runtime.spawnQueueLocal) (htimers : rt.timers = w.runtime.timers) :
    Tended X (w.setRuntime rt) := by
  have hg := grows_timers w rt hn ht hs hl
  refine h.grows hg rfl rfl (fun t hc => hg.ages.settled t (h.context t hc)) (fun _ _ hm => hm)
    (fun t hm => hg.ages.settled t (h.tasks t (ht ▸ hm))) fun i t D _ _ hle hk => .inl ⟨hle, ?_⟩
  rcases hk with hk | hk
  · exact .inl (by rw [World.setRuntime, timersAt_congr htimers]; exact hk)
  · exact .inr (.inr (.inr hk))

/-- A call that leaves the sleeps alone. -/
theorem Tended.acted {w w' : World ν π φ} (h : Tended X w) (ha : Acted w w') (hs : w'.sleeps = w.sleeps)
    (hn : w'.nextSleep = w.nextSleep) (htr : w'.trace = w.trace) : Tended X w' :=
  h.frame ha.toFrame hs hn (fun t hc => ha.ages.settled t (h.context t (ha.pollContext ▸ hc)))
    (fun _ _ hm => htr ▸ hm)
    fun t hm => ha.ages.settled t (h.tasks t (ha.tasks ▸ hm))

/-! ## Sleeps -/

/-- A sleep that is there is changed, but not the time it is for. -/
theorem Tended.setSleep {w : World ν π φ} (h : Tended X w) {i : Nat} {sleep : SimSleep}
    (hi : w.sleeps i = some sleep) {sleep' : Option SimSleep}
    (hsch : ∀ s, sleep' = some s → s.timerScheduled = true → sleep.timerScheduled = true)
    (htarget : ∀ s, sleep' = some s → sleep.targetTime ≠ none → s.targetTime = sleep.targetTime) :
    Tended X (w.setSleep i sleep') := by
  have hslot : ∀ {j s}, (w.setSleep i sleep').sleeps j = some s → j = i ∧ sleep' = some s ∨
      w.sleeps j = some s := by
    intro j s hj
    by_cases e : j = i
    · subst e
      exact .inl ⟨rfl, by simpa [World.setSleep] using hj⟩
    · exact .inr (by simpa [World.setSleep, e] using hj)
  refine ⟨fun j hj => ⟨?_, (h.fresh j hj).2⟩, fun j s hj hs => ?_, fun j s c hj hm => ?_, h.tasks,
    h.context, h.pending,
    fun j t D ha => ?_⟩
  · have hne : j ≠ i := fun e => by rw [← e, (h.fresh j hj).1] at hi; cases hi
    simpa [World.setSleep, hne] using (h.fresh j hj).1
  · rcases hslot hj with ⟨rfl, hs'⟩ | hj
    · exact h.scheduled j sleep hi (hsch s hs' hs)
    · exact h.scheduled j s hj hs
  · rcases hslot hj with ⟨rfl, hs'⟩ | hj
    · have := h.target j sleep c hi hm
      rw [htarget s hs' this]
      exact this
    · exact h.target j s c hj hm
  · obtain ⟨s, hj, hD⟩ := ha.live
    refine h.kept j t D ⟨?_, ha.pending, ha.task⟩
    rcases hslot hj with ⟨rfl, hs'⟩ | hj
    · rw [htarget s hs' (h.target j sleep _ hi ha.pending)] at hD
      exact ⟨sleep, hi, hD⟩
    · exact ⟨s, hj, hD⟩

theorem Tended.newSleep {w : World ν π φ} (h : Tended X w) (sleep : SimSleep) :
    Tended X (w.newSleep sleep) := by
  have hslot : ∀ {j s}, (w.newSleep sleep).sleeps j = some s →
      j = w.nextSleep ∧ s.timerScheduled = false ∨ w.sleeps j = some s := by
    intro j s hj
    by_cases e : j = w.nextSleep
    · refine .inl ⟨e, ?_⟩
      simp only [World.newSleep, World.setSleep, e, Function.update_self, Option.some.injEq] at hj
      rw [← hj]
    · exact .inr (by simpa [World.newSleep, World.setSleep, e] using hj)
  refine ⟨fun j hj => ?_, fun j s hj hs => ?_, fun j s c hj hm => ?_, h.tasks, h.context, h.pending,
    fun j t D ha => ?_⟩
  · have hj' : w.nextSleep + 1 ≤ j := hj
    have hne : j ≠ w.nextSleep := by omega
    obtain ⟨h₁, h₂⟩ := h.fresh j (by omega)
    exact ⟨by simpa [World.newSleep, World.setSleep, hne] using h₁, h₂⟩
  · rcases hslot hj with ⟨-, hs'⟩ | hj
    · rw [hs'] at hs
      cases hs
    · exact h.scheduled j s hj hs
  · rcases hslot hj with ⟨rfl, -⟩ | hj
    · exact absurd hm ((h.fresh _ le_rfl).2 c)
    · exact h.target j s c hj hm
  · obtain ⟨s, hj, hD⟩ := ha.live
    rcases hslot hj with ⟨rfl, -⟩ | hj
    · exact absurd ha.pending ((h.fresh _ le_rfl).2 _)
    · exact h.kept j t D ⟨⟨s, hj, hD⟩, ha.pending, ha.task⟩

theorem Tended.dropSleep {w : World ν π φ} (h : Tended X w) (i : Nat) : Tended X (w.dropSleep i) := by
  unfold World.dropSleep
  split
  · exact h
  · rename_i sleep hi
    have h' : Tended X (w.setSleep i none) := h.setSleep hi (by simp) (by simp)
    simp only
    split
    · split
      · unfold cancelTimerAt
        split
        · exact h'.acted (acted_deferWakeAfter ..) rfl rfl rfl
        · exact h'
      · exact h'
    · exact h'

/-- What is awaited once the sleep `i` is pending was awaited before, or its timer is to be registered. -/
theorem Tended.awaits_sleepPending {w : World ν π φ} (h : Tended X w) {i : Nat} {sleep : SimSleep}
    (hi : w.sleeps i = some sleep) {D : SimTime}
    (hD : D = sleep.targetTime.getD (w.now + .fromDuration sleep.duration))
    (hone : OneContext (w.trace ++ [Obs.sleepPending i w.pollContext]))
    {deferred : List (SimTime × Message ν)} {j : Nat} {t : AsyncRuntime.TaskId} {D' : SimTime}
    (haw : Awaits ((World.setSleep { w with deferred } i
      (some { sleep with targetTime := some D, timerScheduled := true })).log (.sleepPending i w.pollContext)) j t D') :
    Awaits w j t D' ∨ D = D' ∧ sleep.timerScheduled = false ∧ w.pollContext = some t := by
  obtain ⟨s, hj, hs⟩ := haw.live
  by_cases e : j = i
  · subst e
    have he : some { sleep with targetTime := some D, timerScheduled := true } = some s := by
      simpa [World.setSleep, log] using hj
    obtain rfl : D = D' := by
      rw [← Option.some.inj he] at hs
      exact Option.some.inj hs
    have hlast : .sleepPending j w.pollContext ∈ w.trace ++ [Obs.sleepPending j w.pollContext] :=
      List.mem_append_right _ List.mem_cons_self
    cases hsch : sleep.timerScheduled with
    | true =>
      obtain ⟨c, hm⟩ := h.scheduled j sleep hi hsch
      obtain rfl : c = some t := hone j _ _ (List.mem_append_left _ hm) haw.pending
      obtain ⟨D', htarget⟩ := Option.ne_none_iff_exists'.mp (h.target j sleep _ hi hm)
      rw [htarget, Option.getD_some] at hD
      exact .inl ⟨⟨sleep, hi, hD ▸ htarget⟩, hm, haw.task⟩
    | false => exact .inr ⟨rfl, rfl, hone j _ _ hlast haw.pending⟩
  · refine .inl ⟨⟨s, by simpa [World.setSleep, log, e] using hj, hs⟩, ?_, haw.task⟩
    rcases List.mem_append.mp haw.pending with hm | hm
    · exact hm
    · exact absurd (Obs.sleepPending.inj (List.mem_singleton.mp hm)).1 e

/-- The sleep that a task polls is pending, and the timer registered unless it was. -/
theorem Tended.sleepPending {w : World ν π φ} (h : Tended X w) {i : Nat} {sleep : SimSleep}
    (hi : w.sleeps i = some sleep) (hin : w.inContext = true) {D : SimTime}
    (hD : D = sleep.targetTime.getD (w.now + .fromDuration sleep.duration)) (hlt : w.now < D)
    (hone : OneContext (w.trace ++ [Obs.sleepPending i w.pollContext])) :
    Tended X (((if sleep.timerScheduled then w else w.registerTimerAt D).setSleep i
      (some { sleep with targetTime := some D, timerScheduled := true })).log (.sleepPending i w.pollContext)) := by
  have ha : Acted w (if sleep.timerScheduled then w else w.registerTimerAt D) :=
    acted_ite (.refl w) (acted_registerTimerAt w D)
  have hkeep : (if sleep.timerScheduled then w else w.registerTimerAt D) =
      { w with deferred := (if sleep.timerScheduled then w else w.registerTimerAt D).deferred } := by
    unfold registerTimerAt
    split
    · rfl
    · split <;> rfl
  have hreg : ∀ t, sleep.timerScheduled = false → w.pollContext = some t →
      (.zero, .runtime (.registerTimer t D)) ∈
        (if sleep.timerScheduled then w else w.registerTimerAt D).deferred := by
    intro t hs hc
    simp [hs, registerTimerAt, hc, deferWake, deferWakeAfter]
  generalize (if sleep.timerScheduled then w else w.registerTimerAt D) = w₁ at ha hkeep hreg ⊢
  obtain ⟨deferred, rfl⟩ : ∃ deferred, w₁ = { w with deferred } := ⟨_, hkeep⟩
  have hnew : ∀ {j c}, .sleepPending j c ∈ w.trace ++ [Obs.sleepPending i w.pollContext] →
      .sleepPending j c ∈ w.trace ∨ j = i ∧ c = w.pollContext := by
    intro j c hm
    rcases List.mem_append.mp hm with hm | hm
    · exact .inl hm
    · exact .inr (Obs.sleepPending.inj (List.mem_singleton.mp hm))
  have hlast : .sleepPending i w.pollContext ∈ w.trace ++ [Obs.sleepPending i w.pollContext] :=
    List.mem_append_right _ List.mem_cons_self
  have hilt : i < w.nextSleep := by
    by_contra hge
    rw [(h.fresh i (Nat.not_lt.mp hge)).1] at hi
    cases hi
  refine ⟨fun j hj => ?_, fun j s hj hs => ?_, fun j s c hj hm => ?_, h.tasks, h.context, fun j t hm => ?_,
    fun j t D' haw => ?_⟩
  · have hne : j ≠ i := fun e => absurd (e ▸ hilt) (Nat.not_lt.mpr hj)
    refine ⟨by simpa [World.setSleep, log, hne] using (h.fresh j hj).1, fun c hm => ?_⟩
    rcases hnew hm with hm | ⟨e, -⟩
    · exact (h.fresh j hj).2 c hm
    · exact hne e
  · by_cases e : j = i
    · exact ⟨w.pollContext, e ▸ hlast⟩
    · obtain ⟨c, hm⟩ := h.scheduled j s (by simpa [World.setSleep, log, e] using hj) hs
      exact ⟨c, List.mem_append_left _ hm⟩
  · by_cases e : j = i
    · have hs : some { sleep with targetTime := some D, timerScheduled := true } = some s := by
        simpa [World.setSleep, log, e] using hj
      rw [← Option.some.inj hs]
      simp
    · rcases hnew hm with hm | ⟨e', -⟩
      · exact h.target j s c (by simpa [World.setSleep, log, e] using hj) hm
      · exact absurd e' e
  · rcases hnew hm with hm | ⟨-, hc⟩
    · exact h.pending j t hm
    · exact h.context t hc.symm
  · -- Either it was held before, or the timer is being registered now.
    rcases h.awaits_sleepPending hi hD hone haw with haw | ⟨he, hsch, hc⟩
    · rcases h.kept j t D' haw with ⟨hle, hh | hh | ⟨hc, hm⟩ | hh⟩ | ⟨hle, hm⟩
      · exact .inl ⟨hle, .inl hh⟩
      · exact .inl ⟨hle, .inr (.inl hh)⟩
      · exact .inl ⟨hle, .inr (.inr (.inl ⟨hc, ha.deferred.subset hm⟩))⟩
      · exact .inl ⟨hle, .inr (.inr (.inr hh))⟩
      · exact .inr ⟨hle, List.mem_append_left _ hm⟩
    · rw [← he]
      exact .inl ⟨hlt.le, .inr (.inr (.inl ⟨hin, hreg t hsch hc⟩))⟩

/-- What polling a sleep does: nothing, or it is done, or it is pending. -/
theorem pollSleep_cases (w : World ν π φ) (i : Nat) : w.pollSleep i = w ∨
    ∃ sleep D, w.sleeps i = some sleep ∧ w.inContext = true ∧
      D = sleep.targetTime.getD (w.now + .fromDuration sleep.duration) ∧
      (w.pollSleep i = w.setSleep i (some { sleep with targetTime := some D, timerScheduled := false }) ∨
        w.now < D ∧ w.pollSleep i = ((if sleep.timerScheduled then w else w.registerTimerAt D).setSleep i
          (some { sleep with targetTime := some D, timerScheduled := true })).log (.sleepPending i w.pollContext)) := by
  unfold World.pollSleep
  cases hi : w.sleeps i with
  | none => exact .inl rfl
  | some sleep =>
    by_cases hin : w.inContext = true
    · simp only [hin, if_true]
      refine .inr ⟨sleep, _, rfl, trivial, rfl, ?_⟩
      by_cases hle : sleep.targetTime.getD (w.now + .fromDuration sleep.duration) ≤ w.now
      · exact .inl (if_pos hle)
      · have hctx : ∀ D, (if sleep.timerScheduled then w else w.registerTimerAt D).pollContext =
            w.pollContext :=
          fun D => (acted_ite (.refl w) (acted_registerTimerAt w D)).pollContext
        refine .inr ⟨not_le.mp hle, (if_neg hle).trans ?_⟩
        rw [hctx]
    · exact .inl (by simp [hin])

theorem Tended.pollSleep {w : World ν π φ} (h : Tended X w) (i : Nat)
    (hone : OneContext (w.pollSleep i).trace) :
    Tended X (w.pollSleep i) := by
  rcases pollSleep_cases w i with e | ⟨sleep, D, hi, hin, hD, e | ⟨hlt, e⟩⟩ <;> rw [e]
  · exact h
  · refine h.setSleep hi (fun s hs => ?_) fun s hs hne => ?_
    · rw [← Option.some.inj hs]
      nofun
    · obtain ⟨D', hD'⟩ := Option.ne_none_iff_exists'.mp hne
      rw [hD', Option.getD_some] at hD
      rw [← Option.some.inj hs, hD', hD]
  · have htr : (if sleep.timerScheduled then w else w.registerTimerAt D).trace = w.trace := by
      unfold registerTimerAt
      split
      · rfl
      · split <;> rfl
    refine h.sleepPending hi hin hD hlt ?_
    rw [e] at hone
    rw [← htr]
    exact hone

theorem Tended.act {w : World ν π φ} (h : Tended X w) (action : Action ν)
    (hone : OneContext (w.act action).trace) :
    Tended X (w.act action) := by
  have ha := acted_act w action
  cases action with
  | schedule delay message =>
    exact h.acted ha (sleeps_schedule ..) (nextSleep_schedule ..) (trace_schedule ..)
  | scheduleTask delay => exact h.acted ha rfl rfl rfl
  | cancelTask id => exact h.acted ha rfl rfl rfl
  | deferWakeAfter delay message => exact h.acted ha rfl rfl rfl
  | spawn => refine h.acted ha ?_ ?_ ?_ <;> (simp only [World.act, World.spawn]; split <;> rfl)
  | spawnLocal => refine h.acted ha ?_ ?_ ?_ <;> (simp only [World.act, World.spawnLocal]; split <;> rfl)
  | cancel t => refine h.acted ha ?_ ?_ ?_ <;> (simp only [World.act, World.cancel]; split <;> rfl)
  | cancelLocal t => refine h.acted ha ?_ ?_ ?_ <;> (simp only [World.act, World.cancelLocal]; split <;> rfl)
  | newSleep sleep => exact h.newSleep sleep
  | pollSleep i => exact h.pollSleep i hone
  | dropSleep i => exact h.dropSleep i
  | call n =>
    refine h.frame ha.toFrame rfl rfl (fun t hc => ha.ages.settled t (h.context t hc)) (fun i c hm => ?_)
      fun t hm => ha.ages.settled t (h.tasks t hm)
    simpa [World.act, World.log] using hm

/-- In a run in which no sleep is polled by two tasks. -/
def Tends (X : AsyncRuntime.TaskId → SimTime → Prop) (w : World ν π φ) : Prop := OneContext w.trace → Tended X w

theorem Tends.act (w : World ν π φ) (action : Action ν) (h : Tends X w) : Tends X (w.act action) := by
  intro hone
  obtain ⟨q, hq, -⟩ := (acted_act w action).trace
  exact (h (hone.mono ⟨q, hq.symm⟩)).act action hone

theorem cycleInvariant_tends : CycleInvariant (Tends X : World ν π φ → Prop) where
  act := Tends.act
  thins _ _ h ht hone := (h hone).thins ht
  poll w t h ht hone := by
    have h' := h (hone.mono (List.prefix_append _ _))
    have hf := ((cycleInvariant_frame w).poll w t (.refl w) ht)
    refine h'.frame hf rfl rfl (fun t' hc => ?_) (fun i c hm => ?_) h'.tasks
    · rw [← Option.some.inj hc]
      exact h'.tasks t ht
    · simpa [log] using hm
  done w h hone := (h hone).frame (frame_pollContext w none) rfl rfl nofun (fun _ _ hm => hm) (h hone).tasks

/-! ## Handlers -/

theorem Tended.weaken {w : World ν π φ} (h : Tended X w) (hXY : ∀ t D, X t D → Y t D) : Tended Y w := by
  refine h.grows (.refl w) rfl rfl h.context (fun _ _ hm => hm) h.tasks fun i t D _ _ hle hk => .inl ⟨hle, ?_⟩
  exact hk.elim .inl fun hX => .inr (.inr (.inr (hXY t D hX)))

theorem Tended.scheduleNextTimerTick {w : World ν π φ} (h : Tended X w) :
    Tended X w.scheduleNextTimerTick := by
  have hg := grows_scheduleNextTimerTick w
  have hrt := runtime_scheduleNextTimerTick w
  refine h.grows hg (by rw [scheduleNextTimerTick_keep]) (by rw [scheduleNextTimerTick_keep]) (fun t hc => ?_)
    (fun i c hm => ?_) (fun t hm => ?_) fun i t D _ _ hle hk => .inl ⟨?_, ?_⟩
  · rw [scheduleNextTimerTick_keep] at hc
    exact hg.ages.settled t (h.context t hc)
  · rwa [trace_scheduleNextTimerTick] at hm
  · rw [hrt] at hm
    exact hg.ages.settled t (h.tasks t hm)
  · rw [hg.now]; exact hle
  · rcases hk with hk | hk
    · exact .inl (by rw [hrt]; exact hk)
    · exact .inr (.inr (.inr hk))

/-- Due timers wake their tasks, the others stay. -/
theorem Tended.fireTimers {w : World ν π φ} (h : Tended X w) :
    Tended X (fireTimers w.runtime.timers.len w) := by
  have hg := grows_fireTimers w.runtime.timers.len w
  obtain ⟨q, hq, hmem⟩ := trace_fireTimers w
  refine h.grows hg (by rw [fireTimers_keep]) (by rw [fireTimers_keep]) (fun t hc => ?_)
    (fun i c hm => ?_) (fun t hm => ?_)
    fun i t D _ _ hle hk => ?_
  · rw [fireTimers_keep] at hc
    exact hg.ages.settled t (h.context t hc)
  · rw [hq] at hm
    refine (List.mem_append.mp hm).resolve_right fun hm => ?_
    obtain ⟨t, D, -, -, e⟩ := (hmem _).mp hm
    cases e
  · exact hg.ages.settled t (h.tasks t fun e => hm (fireTimers_eq_none.mpr e))
  · rcases hk with hk | hk
    · by_cases hlt : w.now < D
      · exact .inl ⟨hg.now ▸ hle, .inl (mem_timersAt_fireTimers.mpr ⟨hk, hlt⟩)⟩
      · -- The clock is at the deadline.
        obtain rfl : w.now = D := le_antisymm hle (not_lt.mp hlt)
        refine .inr ⟨hg.now.ge, ?_⟩
        rw [hq]
        exact List.mem_append_right _ ((hmem _).mpr ⟨t, w.now, hk, le_rfl, rfl⟩)
    · exact .inl ⟨hg.now ▸ hle, .inr (.inr (.inr hk))⟩

theorem Tends.cancelTask {w : World ν π φ} (h : Tends X w) (t : AsyncRuntime.TaskId)
    (drop : List (Action ν)) :
    Tends X (w.cancelTask t drop) := by
  have hremoved : Tends X (w.setRuntime (w.runtime.removeTask t)) :=
    fun hone => (h hone).thins (thins_removeTask ..)
  unfold World.cancelTask
  generalize (if (w.runtime.tasks t).isSome then drop else []) = actions
  have ha := acted_acts (w.setRuntime (w.runtime.removeTask t)) actions
  have hacts := acts_rule Tends.act hremoved actions
  have hnone : ((w.setRuntime (w.runtime.removeTask t)).acts actions).runtime.tasks t = none := by
    rw [ha.tasks]
    exact Function.update_self ..
  simp only
  generalize (w.setRuntime (w.runtime.removeTask t)).acts actions = w' at hacts hnone ⊢
  intro hone
  rw [trace_scheduleNextTimerTick] at hone
  have h' := hacts hone
  have hg := grows_timers w' (w'.runtime.removeTimers t) rfl rfl rfl rfl
  refine Tended.scheduleNextTimerTick (h'.grows hg rfl rfl
    (fun t' hc => hg.ages.settled t' (h'.context t' hc))
    (fun _ _ hm => hm) (fun t' hm => hg.ages.settled t' (h'.tasks t' hm)) fun i t' D _ htask hle hk =>
      .inl ⟨hle, ?_⟩)
  rcases hk with hk | hk
  · refine .inl (DesRuntime.mem_timersAt_removeTimers.mpr ⟨hk, fun e => htask ?_⟩)
    rw [e]
    exact hnone
  · exact .inr (.inr (.inr hk))

theorem registerTimer_keep (w : World ν π φ) (t : AsyncRuntime.TaskId) (D : SimTime) :
    w.registerTimer t D = { w with
    scheduler := (w.registerTimer t D).scheduler
    runtime := (w.registerTimer t D).runtime
    trace := (w.registerTimer t D).trace } := by
  unfold registerTimer
  split
  · rfl
  · rw [scheduleNextTimerTick_keep]
    rfl

theorem cancelTimer_keep (w : World ν π φ) (t : AsyncRuntime.TaskId) (D : SimTime) :
    w.cancelTimer t D = { w with
    scheduler := (w.cancelTimer t D).scheduler, runtime := (w.cancelTimer t D).runtime } := by
  unfold cancelTimer
  split
  · rfl
  · split
    · rfl
    · rw [scheduleNextTimerTick_keep]
      rfl

/-- The registration that the event is for is made. -/
theorem Tended.registerTimer {w : World ν π φ} (h : Tended X w) {t : AsyncRuntime.TaskId} {D : SimTime}
    (hX : ∀ t' D', X t' D' → t' = t ∧ D' = D) : Tended (fun _ _ => False) (w.registerTimer t D) := by
  have hg := grows_registerTimer w t D
  have htasks : (w.registerTimer t D).runtime.tasks = w.runtime.tasks := by
    unfold World.registerTimer
    split
    · rfl
    · rw [runtime_scheduleNextTimerTick]
      rfl
  refine h.grows hg (by rw [registerTimer_keep]) (by rw [registerTimer_keep]) (fun t' hc => ?_)
    (fun i c hm => ?_) (fun t' hm => ?_) fun i t' D' ha _ hle hk => .inl ⟨hg.now ▸ hle, .inl ?_⟩
  · rw [registerTimer_keep] at hc
    exact hg.ages.settled t' (h.context t' hc)
  · unfold World.registerTimer at hm
    split at hm
    · exact hm
    · rw [trace_scheduleNextTimerTick] at hm
      simpa [log, World.setRuntime] using hm
  · rw [htasks] at hm
    exact hg.ages.settled t' (h.tasks t' hm)
  · have hmem : t' ∈ w.runtime.timersAt D' ∨ t' = t ∧ D' = D := hk.imp_right (hX t' D')
    unfold World.registerTimer
    split
    · rename_i hnone
      refine hmem.resolve_right fun e => ha.task ?_
      rw [e.1]
      exact hnone
    · rw [runtime_scheduleNextTimerTick]
      exact DesRuntime.mem_timersAt_pushTimer.mpr hmem

/-- A timer is cancelled that no sleep needs, or not any more, or that is going to be registered again. -/
theorem Tended.cancelTimer {w : World ν π φ} (h : Tended (fun _ _ => False) w)
    {t : AsyncRuntime.TaskId} {D : SimTime}
    (hc : ∀ i, Awaits w i t D → Registering w t D ∨ Woken w t D) :
    Tended (fun _ _ => False) (w.cancelTimer t D) := by
  have hg := grows_cancelTimer w t D
  have htasks : (w.cancelTimer t D).runtime.tasks = w.runtime.tasks := by
    unfold World.cancelTimer
    split
    · rfl
    · split
      · rfl
      · rw [runtime_scheduleNextTimerTick]
        rfl
  refine h.grows hg (by rw [cancelTimer_keep]) (by rw [cancelTimer_keep]) (fun t' hc => ?_)
    (fun i c hm => ?_) (fun t' hm => ?_) fun i t' D' ha _ hle hk => ?_
  · rw [cancelTimer_keep] at hc
    exact hg.ages.settled t' (h.context t' hc)
  · rwa [trace_cancelTimer] at hm
  · rw [htasks] at hm
    exact hg.ages.settled t' (h.tasks t' hm)
  · by_cases e : t' = t ∧ D' = D
    · obtain ⟨rfl, rfl⟩ := e
      rcases hc i ha with ⟨x, hx, hev, hD⟩ | ⟨hle', hw⟩
      · exact .inl ⟨hg.now ▸ hle, .inr (.inl ⟨x, hg.held x hx, hev, hD⟩)⟩
      · exact .inr ⟨hg.now ▸ hle', by rw [trace_cancelTimer]; exact hw⟩
    · exact .inl ⟨hg.now ▸ hle, .inl (mem_timersAt_cancelTimer.mpr ⟨hk.resolve_right id, e⟩)⟩

section
variable [ReadyTaskPolicy π]

/-- A poll cycle makes tasks of the spawn requests. -/
theorem Tends.pollReadyTasks {w : World ν π φ} (h : Tends X w)
    (hr : ∀ t ∈ w.runtime.spawnQueue ++ w.runtime.spawnQueueLocal, t < w.runtime.nextTaskId)
    (polls : Nat → PollScript ν) :
    Tends X (w.pollReadyTasks polls) := by
  refine cycleInvariant_tends.pollReadyTasks (fun hone => ?_) polls
  have h' : Tended X w := h hone
  have ha := ages_drainSpawnQueues w.runtime
  have hf : Frame w (w.setRuntime { w.runtime.drainSpawnQueues with readyQueue := [] }) := by
    refine frame_setRuntime w ha ?_ ?_ ?_ <;> rw [drainSpawnQueues_eq]
  refine h'.frame hf rfl rfl (fun t hc => ha.settled t (h'.context t hc)) (fun _ _ hm => hm) fun t hm => ?_
  by_cases hreq : t ∈ w.runtime.spawnQueue ++ w.runtime.spawnQueueLocal
  · rw [drainSpawnQueues_eq]
    exact ⟨hr t hreq, List.not_mem_nil⟩
  · rw [drainSpawnQueues_eq] at hm
    exact ha.settled t (h'.tasks t (by simpa only [setRuntime, if_neg hreq] using hm))

/-- What an event of the runtime does. It is `CancelTimer` that may take a timer away. -/
theorem Tends.dispatch {w : World ν π φ} (event : RuntimeEvent) (script : Script ν)
    (h : Tends (fun t D => event = .registerTimer t D) w)
    (hr : ∀ t ∈ w.runtime.spawnQueue ++ w.runtime.spawnQueueLocal, t < w.runtime.nextTaskId)
    (hc : ∀ t D, event = .cancelTimer t D → ∀ i, Awaits w i t D → Registering w t D ∨ Woken w t D) :
    Tends (fun _ _ => False) (w.dispatch event script) := by
  have hweak : (∀ t D, event ≠ .registerTimer t D) → Tends (fun _ _ => False) w :=
    fun hne hone => (h hone).weaken hne
  cases event with
  | poll => exact (hweak (by simp)).pollReadyTasks hr script.polls
  | wake t =>
    have hwake : Tends (fun _ _ => False) (w.setRuntime (w.runtime.wakeTask t)) :=
      fun hone => (hweak (by simp) hone).thins (thins_wakeTask ..)
    refine hwake.pollReadyTasks ?_ script.polls
    have hthins := thins_wakeTask w.runtime t
    show ∀ t' ∈ (w.runtime.wakeTask t).spawnQueue ++ (w.runtime.wakeTask t).spawnQueueLocal, _
    rw [hthins.spawnQueue, hthins.spawnQueueLocal]
    exact fun t' ht' => hthins.nextTaskId ▸ hr t' ht'
  | cancel t => exact (hweak (by simp)).cancelTask t script.drop
  | registerTimer t D =>
    intro hone
    obtain ⟨q, hq, -⟩ := (grows_registerTimer w t D).trace
    refine (h (hone.mono ⟨q, hq.symm⟩)).registerTimer fun t' D' e => ?_
    obtain ⟨rfl, rfl⟩ := RuntimeEvent.registerTimer.inj e
    exact ⟨rfl, rfl⟩
  | cancelTimer t D =>
    intro hone
    have hone' : OneContext w.trace := trace_cancelTimer w t D ▸ hone
    exact (hweak (by simp) hone').cancelTimer fun i => hc t D rfl i
  | timerTick =>
    have h₀ : Tends (fun _ _ => False) (w.setRuntime { w.runtime with nextTimerDeadline := none }) :=
      fun hone => (hweak (by simp) hone).setRuntime _ rfl rfl rfl rfl rfl
    have hr₀ : ∀ t ∈ (w.setRuntime { w.runtime with nextTimerDeadline := none }).runtime.spawnQueue ++
        (w.setRuntime { w.runtime with nextTimerDeadline := none }).runtime.spawnQueueLocal,
        t < (w.setRuntime { w.runtime with nextTimerDeadline := none }).runtime.nextTaskId := hr
    simp only [World.dispatch, handleTimerTick]
    generalize w.setRuntime { w.runtime with nextTimerDeadline := none } = w₀ at h₀ hr₀ ⊢
    refine Tends.pollReadyTasks (fun hone => ?_) ?_ script.polls
    · rw [trace_scheduleNextTimerTick] at hone
      obtain ⟨q, hq, -⟩ := (grows_fireTimers w₀.runtime.timers.len w₀).trace
      exact (h₀ (hone.mono ⟨q, hq.symm⟩)).fireTimers.scheduleNextTimerTick
    · rw [runtime_scheduleNextTimerTick, fireTimers_keep]
      exact hr₀

omit [ReadyTaskPolicy π] in
/-- An event is opened. When it is a `RegisterTimer`, that is no longer in the heap. -/
theorem Tended.opened {w w₁ : World ν π φ} {e : EventEntry (Payload ν)}
    (h : Tended (fun _ _ => False) w) (hT : Ticking w) (hin : w.inContext = false)
    (ho : Opened w w₁ e) :
    Tended (fun t D => runtimeEvent? e = some (.registerTimer t D)) w₁ := by
  have hnow : w.now ≤ w₁.now := by
    rw [ho.now]
    exact hT.future e ho.mem
  have hpend : ∀ {i c}, .sleepPending i c ∈ w₁.trace ↔ .sleepPending i c ∈ w.trace := by
    intro i c
    rw [ho.keep]
    simp
  have hrt : w₁.runtime = w.runtime := by rw [ho.keep]
  have hsleeps : w₁.sleeps = w.sleeps := by rw [ho.keep]
  refine ⟨fun i hi => ?_, fun i sleep hi hs => ?_, fun i sleep c hi hm => ?_, ?_, fun t hc => ?_,
    fun i t hm => ?_,
    fun i t D ha => ?_⟩
  · have hi' : w.nextSleep ≤ i := by rw [ho.keep] at hi; exact hi
    rw [hsleeps]
    exact ⟨(h.fresh i hi').1, fun c hm => (h.fresh i hi').2 c (hpend.mp hm)⟩
  · rw [hsleeps] at hi
    obtain ⟨c, hm⟩ := h.scheduled i sleep hi hs
    exact ⟨c, hpend.mpr hm⟩
  · rw [hsleeps] at hi
    exact h.target i sleep c hi (hpend.mp hm)
  · rw [hrt]
    exact h.tasks
  · rw [hrt]
    rw [ho.keep] at hc
    exact h.context t hc
  · rw [hrt]
    exact h.pending i t (hpend.mp hm)
  · have ha' : Awaits w i t D := ⟨by rw [← hsleeps]; exact ha.live, hpend.mp ha.pending,
      by rw [← hrt]; exact ha.task⟩
    rcases h.kept i t D ha' with ⟨hle, htimer | ⟨x, hx, hev, hD⟩ | ⟨hin', -⟩ | hX⟩ | ⟨hle, hw⟩
    · obtain ⟨tasks, hm, -⟩ := DesRuntime.mem_timersAt.mp htimer
      refine .inl ⟨?_, .inl (by rw [hrt]; exact htimer)⟩
      rw [ho.now]
      exact (hT.opened_le ho hm).trans (max_le le_rfl hle)
    · rcases ho.held x hx (by simp [hev]) with rfl | hx
      · exact .inl ⟨ho.now ▸ hD, .inr (.inr (.inr hev))⟩
      · refine .inl ⟨?_, .inr (.inl ⟨x, hx, hev, hD⟩)⟩
        rw [ho.now]
        exact (ho.sub x hx).2.trans hD
    · rw [hin] at hin'
      cases hin'
    · exact hX.elim
    · refine .inr ⟨hle.trans hnow, ?_⟩
      rw [ho.keep]
      exact List.mem_append_left _ hw

omit [ReadyTaskPolicy π] in
/-- The deferred registrations are in the heap now. -/
theorem Tended.close {w : World ν π φ} (h : Tended (fun _ _ => False) w) :
    Tended (fun _ _ => False) w.close := by
  have hd := drained_close w
  have hnow : w.close.now = w.now := hd.now
  have hsleeps : w.close.sleeps = w.sleeps := hd.sleeps
  have hnext : w.close.nextSleep = w.nextSleep := hd.nextSleep
  have hctx : w.close.pollContext = w.pollContext := hd.pollContext
  refine ⟨?_, ?_, ?_, ?_, ?_, ?_, fun i t D ha => ?_⟩
  · rw [hsleeps, hnext, trace_close]; exact h.fresh
  · rw [hsleeps, trace_close]; exact h.scheduled
  · rw [hsleeps, trace_close]; exact h.target
  · rw [runtime_close]; exact h.tasks
  · rw [runtime_close, hctx]; exact h.context
  · rw [runtime_close, trace_close]; exact h.pending
  · have ha' : Awaits w i t D :=
      ⟨by rw [← hsleeps]; exact ha.live, by rw [← trace_close w]; exact ha.pending,
        by rw [← runtime_close w]; exact ha.task⟩
    rw [hnow]
    rcases h.kept i t D ha' with ⟨hle, htimer | ⟨x, hx, hev, hD⟩ | ⟨-, hm⟩ | hX⟩ | ⟨hle, hw⟩
    · exact .inl ⟨hle, .inl (by rw [runtime_close]; exact htimer)⟩
    · exact .inl ⟨hle, .inr (.inl ⟨x, hd.held x hx, hev, hD⟩)⟩
    · obtain ⟨k, -, hk⟩ := hd.moved _ hm
      refine .inl ⟨hle, .inr (.inl ⟨_, hk, by rw [Message.runtimeEvent?_entry]; rfl, ?_⟩)⟩
      rw [Message.time_entry, SimTime.add_zero]
      exact hle
    · exact hX.elim
    · exact .inr ⟨hnow ▸ hle, by rw [trace_close]; exact hw⟩

/-! ## Runs -/

theorem Tends.processEventEntry {w w₁ : World ν π φ} {e : EventEntry (Payload ν)}
    (h : Tends (fun _ _ => False) w) (hT : Ticking w) (hin : w.inContext = false)
    (hq : Queued w.runtime w.runtime.readyQueue) (ho : Opened w w₁ e)
    (hc : ∀ t D, runtimeEvent? e = some (.cancelTimer t D) → ∀ i,
      Awaits w i t D → Registering w t D ∨ Woken w t D)
    (script : Script ν) : Tends (fun _ _ => False) (w₁.processEventEntry e script) := by
  have hrt : w₁.runtime = w.runtime := by rw [ho.keep]
  have htr : w₁.trace = w.trace ++ [Obs.processed (runtimeEvent? e) e.time] := by rw [ho.keep]
  have hopened : Tends (fun t D => runtimeEvent? e = some (.registerTimer t D)) w₁ :=
    fun hone => (h (hone.mono ⟨_, htr.symm⟩)).opened hT hin ho
  rcases e with ⟨i, τ, c, event | v⟩ | ⟨i, τ, id⟩
  · have hstored : Tends (fun t D => event = .registerTimer t D) w₁.storeKey := by
      intro hone
      have hkey : Tended _ w₁.storeKey := (hopened hone).setRuntime _ rfl rfl rfl rfl rfl
      exact hkey.weaken fun t D he => Option.some.inj he
    have hd : Tends (fun _ _ => False) (w₁.storeKey.dispatch event script) := by
      refine hstored.dispatch event script (fun t ht => ?_) fun t D hev j ha => ?_
      · rw [← hrt] at hq
        exact (hq.fresh t ht).1
      · subst hev
        have hsleeps : w₁.storeKey.sleeps = w.sleeps := by rw [storeKey, ho.keep]; rfl
        have ha' : Awaits w j t D := by
          refine ⟨by rw [← hsleeps]; exact ha.live, ?_, by rw [← hrt]; exact ha.task⟩
          have := ha.pending
          rw [show w₁.storeKey.trace = w₁.trace from rfl, htr] at this
          simpa using this
        rcases hc t D rfl j ha' with ⟨x, hx, hev, hD⟩ | ⟨hle, hw⟩
        · refine .inl ⟨x, (ho.held x hx (by simp [hev])).resolve_left fun e => ?_, hev, hD⟩
          rw [e] at hev
          cases hev
        · refine .inr ⟨hle.trans ?_, ?_⟩
          · show w.now ≤ w₁.now
            rw [ho.now]
            exact hT.future _ ho.mem
          · show _ ∈ w₁.trace
            rw [htr]
            exact List.mem_append_left _ hw
    show Tends (fun _ _ => False) (w₁.processEvent event script)
    simp only [processEvent]
    split
    · exact hd
    · intro hone
      rw [trace_schedule] at hone
      exact (hd hone).acted (acted_schedule ..) (sleeps_schedule ..) (nextSleep_schedule ..)
        (trace_schedule ..)
  · have hw₁ : Tends (fun _ _ => False) w₁ := fun hone =>
      (hopened hone).weaken fun t D he => by simp [runtimeEvent?] at he
    exact acts_rule Tends.act hw₁ script.handler
  · have hw₁ : Tends (fun _ _ => False) w₁ := fun hone =>
      (hopened hone).weaken fun t D he => by simp [runtimeEvent?] at he
    refine executeTask_rule (fun w a _ => Tends.act w a) (fun w s h hs hone => ?_) hw₁ id
    exact (h hone).acted (acted_scheduler w hs) rfl rfl rfl

variable [EventFrontierPolicy φ]

/-- When a move processes `CancelTimer`, no task awaits a sleep that needs the timer: it is going to be
registered again, or the task was woken. -/
def CancelsUnawaited (w : World ν π φ) (m : Move ν π φ) : Prop :=
  ∀ script t D, m = .step script → w.nextRuntimeEvent? = some (.cancelTimer t D) →
    ∀ i, Awaits w i t D → Registering w t D ∨ Woken w t D

omit [ReadyTaskPolicy π] [EventFrontierPolicy φ] in
/-- What holds between events. -/
structure Sleeping (w : World ν π φ) : Prop where
  ticking : Ticking w
  timed : Timed w
  queued : Queued w.runtime w.runtime.readyQueue
  inContext : w.inContext = false
  tends : Tends (fun _ _ => False) w

theorem Sleeping.tends_move {w : World ν π φ} {m : Move ν π φ} (h : Sleeping w) (hc : CancelsUnawaited w m) :
    Tends (fun _ _ => False) (w.move m) := by
  cases m with
  | act action => exact h.tends.act w action
  | spawnDirect =>
    intro hone
    have h' := h.tends hone
    have hf : Frame w (w.move .spawnDirect) := frame_move w (by simp)
    refine h'.frame hf rfl rfl (fun t ht => hf.ages.settled t (h'.context t ht))
      (fun _ _ hm => hm) fun t ht => ?_
    by_cases e : t = w.runtime.nextTaskId
    · refine ⟨e ▸ Nat.lt_succ_self _, fun hm => ?_⟩
      exact absurd (h.queued.fresh t hm).1 (by rw [e]; exact lt_irrefl _)
    · refine hf.ages.settled t (h'.tasks t ?_)
      simpa [move, World.setRuntime, DesRuntime.spawn, DesRuntime.insertReady, e] using ht
  | wakeDirect t => exact fun hone => (h.tends hone).thins (thins_wakeTask ..)
  | setReadyTaskPolicy policy => exact fun hone => (h.tends hone).thins (thins_setReadyTaskPolicy ..)
  | setFrontierPolicy policy =>
    intro hone
    have h' := h.tends hone
    exact ⟨h'.fresh, h'.scheduled, h'.target, h'.tasks, h'.context, h'.pending,
      fun i t D ha => h'.kept i t D ⟨ha.live, ha.pending, ha.task⟩⟩
  | step script =>
    show Tends (fun _ _ => False) (w.step script).2
    rcases step_cases w script with ⟨s, p, he, hclock, -, hr, -⟩ | ⟨e, w₁, ho, he, hnext, -⟩
    · rw [he]
      intro hone
      have h' := h.tends hone
      refine ⟨h'.fresh, h'.scheduled, h'.target, h'.tasks, h'.context, h'.pending, fun i t D ha => ?_⟩
      have hnow : ({ w with scheduler := s, frontierPolicy := p } : World ν π φ).now = w.now := hclock
      rw [hnow, Woken, hnow]
      rcases h'.kept i t D ⟨ha.live, ha.pending, ha.task⟩ with ⟨hle, hk | ⟨x, hx, hev, -⟩ | hk | hk⟩ | hk
      · exact .inl ⟨hle, .inl hk⟩
      · rw [hr x hx] at hev
        cases hev
      · exact .inl ⟨hle, .inr (.inr (.inl hk))⟩
      · exact hk.elim
      · exact .inr hk
    · rw [he]
      intro hone
      rw [trace_close] at hone
      refine (h.tends.processEventEntry h.ticking h.inContext h.queued ho
        (fun t D hev => ?_) script hone).close
      exact hc script t D rfl (by rw [nextRuntimeEvent?, nextEvent?, hnext]; exact hev)

theorem Sleeping.move {w : World ν π φ} {m : Move ν π φ} (h : Sleeping w) (hc : CancelsUnawaited w m) :
    Sleeping (w.move m) := by
  obtain ⟨hT, ht⟩ := timed_move m h.ticking h.timed
  exact ⟨hT, ht, queued_move m h.queued, inContext_move m h.inContext, h.tends_move hc⟩

omit [ReadyTaskPolicy π] [EventFrontierPolicy φ] in
theorem sleeping_install {s : Scheduler (Payload ν) Unit Unit} (hs : ∀ e ∈ s.events.toList, s.clock ≤ e.time)
    (frontierPolicy : φ) (deferred : List (SimTime × Message ν)) (key : Uuid) (policy : π) (spawned : Nat) :
    Sleeping (install s frontierPolicy deferred key policy spawned) := by
  obtain ⟨hT, ht⟩ := timed_install hs frontierPolicy deferred key policy spawned
  have hq := queued_install s frontierPolicy deferred key policy spawned
  have htr : (install s frontierPolicy deferred key policy spawned).trace = [] := trace_schedule ..
  have hsleeps : (install s frontierPolicy deferred key policy spawned).sleeps = fun _ => none :=
    sleeps_schedule ..
  have hctx : (install s frontierPolicy deferred key policy spawned).pollContext = none :=
    pollContext_schedule ..
  have hpend : ∀ i c, .sleepPending i c ∉ (install s frontierPolicy deferred key policy spawned).trace := by
    rw [htr]
    exact fun _ _ => List.not_mem_nil
  refine ⟨hT, ht, hq, inContext_schedule .., fun _ =>
    ⟨fun i _ => ⟨by rw [hsleeps], hpend i⟩, fun i sleep hi => ?_,
    fun i sleep c _ hm => absurd hm (hpend i c), fun t htask => ⟨hq.tasks_lt t htask, ?_⟩, fun t hc => ?_,
    fun i t hm => absurd hm (hpend i _), fun i t D ha => absurd ha.pending (hpend i _)⟩⟩
  · rw [hsleeps] at hi
    cases hi
  · rw [runtime_install]
    exact List.not_mem_nil
  · rw [hctx] at hc
    cases hc

/-- In every run in which no sleep is polled by two tasks, and `CancelTimer` is never processed for a
timer that a sleep needs: a task that awaits a sleep for the time `D` is registered at `D`, or a
`RegisterTimer` for it is in the heap, until the clock reaches `D`; it is woken then, and the
simulation does not end before. -/
theorem run_sleeps (s : Scheduler (Payload ν) Unit Unit) (hs : ∀ e ∈ s.events.toList, s.clock ≤ e.time)
    (frontierPolicy : φ) (deferred : List (SimTime × Message ν)) (key : Uuid) (policy : π) (spawned : Nat)
    (moves : List (Move ν π φ))
    (hc : Trace.Along CancelsUnawaited move (install s frontierPolicy deferred key policy spawned) moves)
    (hone : OneContext ((install s frontierPolicy deferred key policy spawned).run moves).trace) :
    let w := (install s frontierPolicy deferred key policy spawned).run moves
    ∀ i t D, Awaits w i t D →
      ((w.now ≤ D ∧ (t ∈ w.runtime.timersAt D ∨ Registering w t D)) ∨ Woken w t D) ∧
      ∀ script, (w.step script).1 = false → Woken w t D := by
  intro w i t D ha
  have h : Sleeping w := hc.invariant (P := Sleeping) (fun w m h hm => h.move hm)
    (sleeping_install hs frontierPolicy deferred key policy spawned)
  have hkept : (w.now ≤ D ∧ (t ∈ w.runtime.timersAt D ∨ Registering w t D)) ∨ Woken w t D := by
    rcases (h.tends hone).kept i t D ha with ⟨hle, hk | hk | ⟨hin, -⟩ | hk⟩ | hk
    · exact .inl ⟨hle, .inl hk⟩
    · exact .inl ⟨hle, .inr hk⟩
    · rw [h.inContext] at hin
      cases hin
    · exact hk.elim
    · exact .inr hk
  refine ⟨hkept, fun script hf => ?_⟩
  -- The heap has no event of the runtime, so there are no timers either.
  rcases step_cases w script with ⟨s, p, -, -, -, hr, -⟩ | ⟨e, w₁, ho, he, -⟩
  · rcases hkept with ⟨-, hk | ⟨x, hx, hev, -⟩⟩ | hk
    · obtain ⟨tasks, hm, -⟩ := DesRuntime.mem_timersAt.mp hk
      obtain ⟨D', -, x, hx, hev, -⟩ := h.ticking.exists_tick (List.ne_nil_of_mem hm)
      rw [hr x hx] at hev
      cases hev
    · rw [hr x hx] at hev
      cases hev
    · exact hk
  · rw [he] at hf
    cases hf

end

/-- The time of 5 ns. -/
def five : SimTime := .saturate 5

/-- A task polls a sleep for 5 ns. -/
def oneSleep : List (Move Unit FifoReadyTaskPolicy FifoFrontierPolicy) :=
  [.step { Script.idle with polls := fun _ => ⟨[.newSleep (.untilTime five), .pollSleep 0], false, []⟩ }, .step .idle]

theorem run_sleeps_oneSleep : let w := (install (.withSeed 7) {} [] 0 {} 1).run oneSleep
    Awaits w 0 0 five ∧ ((w.now ≤ five ∧ (0 ∈ w.runtime.timersAt five ∨ Registering w 0 five)) ∨
      Woken w 0 five) := by
  intro w
  have htr : w.trace = [.processed (some .poll) .zero, .polled 0, .sleepPending 0 (some 0),
    .processed (some (.registerTimer 0 five)) .zero, .registered 0 five .zero] := by decide
  have ha : Awaits w 0 0 five := ⟨⟨_, rfl, by decide⟩, by decide, by decide⟩
  have hone : OneContext w.trace := by
    rw [htr]
    intro i c c' h h'
    simp at h h'
    rw [h.2, h'.2]
  have hc : Trace.Along CancelsUnawaited move (install (.withSeed 7) {} [] 0 {} 1) oneSleep := by
    refine ⟨fun script t D _ h => ?_, fun script t D _ h => ?_, trivial⟩
    · have :
          (install (.withSeed 7) {} [] 0 {} 1 : World Unit FifoReadyTaskPolicy FifoFrontierPolicy).nextRuntimeEvent? =
          some .poll := by decide
      exact absurd (this.symm.trans h) (by simp)
    · have : ((install (.withSeed 7) {} [] 0 {} 1).run (oneSleep.take 1)).nextRuntimeEvent? =
          some (.registerTimer 0 five) := by decide
      exact absurd (this.symm.trans h) (by simp)
  have hs : ∀ e ∈ (Scheduler.withSeed 7 : Scheduler (Payload Unit) Unit Unit).events.toList,
      (Scheduler.withSeed 7 : Scheduler (Payload Unit) Unit Unit).clock ≤ e.time := nofun
  have h := run_sleeps _ hs _ _ _ _ _ _ hc hone
  exact ⟨ha, (h 0 0 five ha).1⟩

/-- A task polls two sleeps for 5 ns, and then drops the first of them. -/
def twoSleeps : List (Move Unit FifoReadyTaskPolicy FifoFrontierPolicy) :=
  [.step { Script.idle with polls := fun _ =>
      ⟨[.newSleep (.untilTime five), .newSleep (.untilTime five), .pollSleep 0, .pollSleep 1], false, []⟩ },
    .step .idle, .step .idle,
    .act (.schedule .zero (.runtime (.wake 0))),
    .step { Script.idle with polls := fun _ => ⟨[.dropSleep 0], false, []⟩ },
    .step .idle]

/-- The second sleep is pending, its timer is gone, and the task is not woken before the simulation ends. -/
theorem twoSleeps_lost : let w := (install (.withSeed 7) {} [] 0 {} 1).run twoSleeps
    Awaits w 1 0 five ∧ w.now < five ∧ 0 ∉ w.runtime.timersAt five ∧
      w.heap.map runtimeEvent? = [some .timerTick] ∧ w.deferred = [] ∧
      ((w.step .idle).2.step .idle).1 = false ∧ .woken 0 five five ∉ (w.step .idle).2.trace := by
  refine ⟨⟨⟨_, rfl, by decide⟩, by decide, by decide⟩, by decide, by decide, by decide, by decide,
    by decide, by decide⟩

end DesCartes.World
