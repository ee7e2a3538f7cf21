import DesCartes.Impl.Program
import DesCartes.Proof.Scheduler.Contract
import DesCartes.Proof.Simulation.ReadyQueue

/-!
# What a simulation asks its policies

`Scheduler.Numbered` says that no two events of the heap have the same number. With `World.Queued`
it makes the choices that the policies are given sets: no sequence number is in a frontier twice,
and no task in a ready set (`Question.Distinct`).

* `holds_step`, `holds_run`: whatever the policies answer, they are only given such choices.
-/

namespace DesCartes

open AsyncRuntime

/-- The entries to choose from have different ids, and there are some. -/
def Question.Distinct : Question → Prop
  | .frontier _ events => (events.map (·.seq)).Nodup ∧ events ≠ []
  | .ready _ tasks => tasks.Nodup ∧ tasks ≠ []

/-- The time of a call of a policy. -/
def Question.time : Question → SimTime
  | .frontier time _ => time
  | .ready time _ => time

/-! ## Numbers of events -/

namespace Scheduler

variable {ε τ ρ : Type} {s s' : Scheduler ε τ ρ}

/-- The events of the heap have different numbers, which have been given out. -/
structure Numbered (s : Scheduler ε τ ρ) : Prop where
  le : ∀ e ∈ s.events.toList, e.seq ≤ s.nextEventId
  nodup : (s.events.toList.map EventEntry.seq).Nodup

theorem Numbered.congr (h : s.Numbered) (hn : s'.nextEventId = s.nextEventId)
    (he : s'.events = s.events) : s'.Numbered := by
  refine ⟨?_, ?_⟩
  · rw [hn, he]; exact h.le
  · rw [he]; exact h.nodup

/-- An event is added with the next number. -/
theorem Numbered.push (h : s.Numbered) {e : EventEntry ε} (he : e.seq = s.nextEventId + 1)
    (hn : s'.nextEventId = s.nextEventId + 1) (hs : s'.events = s.events.push e) : s'.Numbered := by
  have hperm := BinaryHeap.push_perm s.events e
  refine ⟨fun x hx => ?_, ?_⟩
  · rw [hs, BinaryHeap.mem_push] at hx
    rcases hx with rfl | hx
    · exact (he.trans hn.symm).le
    · have := h.le x hx
      omega
  · rw [hs, (hperm.map _).nodup_iff, List.map_cons, List.nodup_cons]
    refine ⟨fun hm => ?_, h.nodup⟩
    obtain ⟨x, hx, hxe⟩ := List.mem_map.mp hm
    have := h.le x hx
    omega

/-- Events are taken. -/
theorem Numbered.took (h : s.Numbered) {d r : List (EventEntry ε)} (ht : Took s s' d r) :
    s'.Numbered ∧ (r.map EventEntry.seq).Nodup := by
  have hn := (ht.perm.map EventEntry.seq).nodup_iff.mp h.nodup
  rw [List.map_append, List.map_append] at hn
  refine ⟨⟨fun e he => ?_, hn.of_append_right⟩, hn.of_append_left.of_append_right⟩
  have hid : s'.nextEventId = s.nextEventId := by rw [ht.keep]
  rw [hid]
  exact h.le e (ht.perm.mem_iff.mpr (List.mem_append_right _ he))

theorem Numbered.schedule (h : s.Numbered) (delay : SimTime) (component : Uuid) (event : ε) :
    (s.schedule delay component event).Numbered :=
  h.push rfl rfl rfl

theorem Numbered.scheduleTaskAt (h : s.Numbered) (time : SimTime) (id : TaskId) (task : τ) :
    (s.scheduleTaskAt time id task).Numbered :=
  h.push rfl rfl rfl

theorem Numbered.beginTask (h : s.Numbered) (id : TaskId) : (s.beginTask id).2.Numbered := by
  unfold Scheduler.beginTask
  split
  · exact h.congr rfl rfl
  · split
    · exact h
    · exact h.congr rfl rfl

theorem Numbered.endTask (h : s.Numbered) (id : TaskId) (previous : Option TaskId) (result : Option ρ) :
    (s.endTask id previous result).Numbered := by
  simp only [Scheduler.endTask]
  split
  · exact h.congr rfl rfl
  · split <;> exact h.congr rfl rfl

/-- The frontier has different numbers. -/
theorem Numbered.holds_askPolicy (h : s.Numbered) :
    s.askPolicy.Holds Question.Distinct fun r => r.2.Numbered := by
  obtain ⟨d, hlive⟩ := popLive_took s.events.len s le_rfl
  unfold askPolicy
  generalize popLive s.events.len s = q at hlive
  rcases q with ⟨_ | first, s₁⟩
  · exact (h.took hlive.1).1
  obtain ⟨d', f, hf, ht, -⟩ := collectFrontier_took first.time s₁.events.len s₁ [first] le_rfl
    fun x hx => time_le_of_head hlive.2 hx
  simp only
  generalize collectFrontier first.time s₁.events.len s₁ [first] = q at hf ht
  obtain ⟨entries, s₂⟩ := q
  simp only at hf ht ⊢
  have htook := hlive.1.trans ht
  rw [← hf] at htook
  have hne : entries ≠ [] := by rw [hf]; simp
  -- what is not chosen goes back to the heap
  have hback : ∀ i, Numbered { s₂ with
      events := s₂.events.pushAll (Vec.swapRemove entries (min i (entries.length - 1))), clock :=
      first.time } := by
    intro i
    have hlt : min i (entries.length - 1) < entries.length := by
      have := List.length_pos_iff.mpr hne
      omega
    have hperm :
        entries.Perm ([entries[min i (entries.length - 1)]] ++ Vec.swapRemove entries
          (min i (entries.length - 1))) :=
      (Vec.swapRemove_perm (List.getElem?_eq_getElem hlt)).symm
    exact (h.took (htook.pushAll hperm)).1.congr rfl rfl
  split
  · exact hback 0
  · refine ⟨⟨?_, by simpa using hne⟩, hback⟩
    have hseq : (entries.map EventEntry.toFrontierEvent).map (·.seq) = entries.map EventEntry.seq := by simp
    rw [hseq]
    exact (h.took htook).2

end Scheduler

theorem Session.Kept.numbered {ε τ ρ : Type} {r : Session ε τ ρ} {os : List (Answer ε)} (h : r.Kept os) :
    r.scheduler.Numbered := by
  refine ⟨fun e he => h.seq_le e (h.held_scheduled e he), ?_⟩
  have hn := h.nodup
  rw [List.map_append] at hn
  exact hn.of_append_left

/-! ## Numbers of events in a world -/

namespace World

variable {ν π φ : Type} {w : World ν π φ}

theorem numbered_schedule (h : w.scheduler.Numbered) (delay : SimTime) (message : Message ν) :
    (w.schedule delay message).scheduler.Numbered := by
  cases message <;> exact h.schedule ..

theorem numbered_act (h : w.scheduler.Numbered) (action : Action ν) : (w.act action).scheduler.Numbered := by
  cases action with
  | schedule delay message => exact numbered_schedule h ..
  | scheduleTask delay => exact h.push rfl rfl rfl
  | cancelTask id => exact h.congr (Scheduler.nextEventId_cancelTask ..) (Scheduler.events_cancelTask ..)
  | deferWakeAfter delay message => exact h
  | spawn => simp only [act, spawn]; split <;> exact h
  | spawnLocal => simp only [act, spawnLocal]; split <;> exact h
  | cancel id => simp only [act, cancel]; split <;> exact h
  | cancelLocal id => simp only [act, cancelLocal]; split <;> exact h
  | newSleep sleep => exact h
  | pollSleep i =>
    simp only [act, pollSleep, registerTimerAt]
    split
    · exact h
    · split
      · split
        · exact h
        · split
          · exact h
          · cases w.pollContext <;> exact h
      · exact h
  | dropSleep i =>
    simp only [act, dropSleep, cancelTimerAt]
    split
    · exact h
    · split
      · split
        · split <;> exact h
        · exact h
      · exact h
  | call n => exact h

theorem cycleInvariant_numbered : CycleInvariant fun w : World ν π φ => w.scheduler.Numbered :=
  ⟨fun _ action h => numbered_act h action, fun _ _ h _ => h, fun _ _ h _ => h, fun _ h => h⟩

theorem numbered_acts (h : w.scheduler.Numbered) (actions : List (Action ν)) :
    (w.acts actions).scheduler.Numbered :=
  cycleInvariant_numbered.acts h actions

theorem numbered_drainDeferredWakes (h : w.scheduler.Numbered) : w.drainDeferredWakes.scheduler.Numbered :=
  List.foldlRecOn (motive := fun w : World ν π φ => w.scheduler.Numbered) w.deferred _ h fun _ h _ _ =>
    numbered_schedule h ..

theorem numbered_scheduleNextTimerTick (h : w.scheduler.Numbered) :
    w.scheduleNextTimerTick.scheduler.Numbered := by
  simp only [scheduleNextTimerTick]
  split
  · exact h
  · split
    · exact h
    · refine numbered_schedule ?_ ..
      exact h

theorem numbered_registerTimer (h : w.scheduler.Numbered) (t : AsyncRuntime.TaskId) (deadline : SimTime) :
    (w.registerTimer t deadline).scheduler.Numbered := by
  unfold registerTimer
  split
  · exact h
  · exact numbered_scheduleNextTimerTick h

theorem numbered_cancelTimer (h : w.scheduler.Numbered) (t : AsyncRuntime.TaskId) (deadline : SimTime) :
    (w.cancelTimer t deadline).scheduler.Numbered := by
  unfold cancelTimer
  split
  · exact h
  · split
    · exact h
    · exact numbered_scheduleNextTimerTick h

theorem numbered_fireTimers (h : w.scheduler.Numbered) (n : Nat) : (w.fireTimers n).scheduler.Numbered := by
  rw [fireTimers_keep]
  exact h

theorem numbered_cancelTask (h : w.scheduler.Numbered) (t : AsyncRuntime.TaskId) (drop : List (Action ν)) :
    (w.cancelTask t drop).scheduler.Numbered :=
  numbered_scheduleNextTimerTick (numbered_acts (w := w.setRuntime (w.runtime.removeTask t)) h _)

theorem numbered_executeTask (h : w.scheduler.Numbered) (id : DesCartes.TaskId) (script : Script ν) :
    (w.executeTask id script).scheduler.Numbered := by
  have hs := h.beginTask id
  unfold executeTask
  generalize w.scheduler.beginTask id = r at hs
  rcases r with ⟨_ | task, s⟩
  · exact hs
  · have ha := numbered_acts (w := { w with scheduler := s }) hs script.handler
    unfold finishTask
    refine Scheduler.Numbered.endTask ?_ ..
    split
    · exact ha
    · exact ha.scheduleTaskAt ..

/-- What makes the choices that the policies are given sets. -/
structure Sound (w : World ν π φ) : Prop where
  numbered : w.scheduler.Numbered
  queued : Queued w.runtime w.runtime.readyQueue

theorem Sound.ownerCall (h : w.Sound) (call : OwnerCall ν) : (w.ownerCall call).Sound := by
  cases call with
  | act action =>
    refine ⟨numbered_act h.numbered action, ?_⟩
    show Queued _ (w.act action).runtime.readyQueue
    rw [(acted_act w action).readyQueue]
    exact h.queued.act action
  | spawnDirect => exact ⟨h.numbered, h.queued.spawn⟩
  | wakeDirect t => exact ⟨h.numbered, h.queued.wakeTask t⟩

theorem Sound.acts (h : w.Sound) (actions : List (Action ν)) : (w.acts actions).Sound := by
  refine ⟨numbered_acts h.numbered actions, ?_⟩
  rw [(acted_acts w actions).readyQueue]
  exact h.queued.acts actions

theorem Sound.executeTask (h : w.Sound) (id : DesCartes.TaskId) (script : Script ν) :
    (w.executeTask id script).Sound := by
  refine ⟨numbered_executeTask h.numbered id script, ?_⟩
  rw [(acted_executeTask w id script).readyQueue]
  exact h.queued.executeTask id script

theorem sound_install {s : Scheduler (Payload ν) Unit Unit} (hs : s.Numbered) (frontierPolicy : φ)
    (deferred : List (SimTime × Message ν)) (key : Uuid) (policy : π) (spawned : Nat) :
    (install s frontierPolicy deferred key policy spawned).Sound :=
  ⟨numbered_schedule hs .., queued_install ..⟩

end World

/-! ## Questions -/

namespace Program

variable {κ ν : Type} (program : Program κ ν) {w : World ν Unit Unit}

open World

theorem holds_pollLoop {n : Nat} {pollSet : List AsyncRuntime.TaskId} (k : κ)
    (hn : pollSet.length = n) (hk : w.runtime.runtimeKey ≠ none) (hq : Queued w.runtime pollSet)
    (hr : w.runtime.readyQueue = []) (hs : w.scheduler.Numbered) :
    (program.pollLoop n pollSet k w).Holds Question.Distinct fun r => r.2.Sound := by
  induction n generalizing pollSet k w with
  | zero =>
    rw [List.length_eq_zero_iff.mp hn] at hq
    exact ⟨hs, by rw [hr]; exact hq⟩
  | succ n ih =>
    have hne : pollSet ≠ [] := fun e => by simp [e] at hn
    refine ⟨⟨hq.nodup, hne⟩, fun i => ?_⟩
    have hlt : min i (pollSet.length - 1) < pollSet.length := by omega
    simp only [List.getElem?_eq_getElem hlt]
    have hperm := Vec.swapRemove_perm (List.getElem?_eq_getElem hlt)
    have hlen : (Vec.swapRemove pollSet (min i (pollSet.length - 1))).length = n := by
      have := Vec.length_swapRemove hne (min i (pollSet.length - 1))
      omega
    have hq' := hq.perm hperm.symm
    generalize pollSet[min i (pollSet.length - 1)] = t at hq'
    split
    · rename_i hnone
      exact ih k hlen hk (hq'.skip hnone) hr hs
    · rename_i task hsome
      obtain ⟨-, -, hr', hq''⟩ := pollOne_spec hk t task (program.poll k w t).2
      have hf := frame_pollOne w hsome (program.poll k w t).2
      refine ih _ hlen (by rw [hf.runtimeKey]; exact hk) (hq'' _ (hq'.unqueue hsome)) (hr'.trans hr) ?_
      exact cycleInvariant_numbered.pollOne hs hsome _

theorem holds_pollReadyTasks (k : κ) (hk : w.runtime.runtimeKey ≠ none) (h : w.Sound) :
    (program.pollReadyTasks k w).Holds Question.Distinct fun r => r.2.Sound := by
  have hk' : w.runtime.drainSpawnQueues.runtimeKey ≠ none := by rw [drainSpawnQueues_eq]; exact hk
  exact program.holds_pollLoop k rfl hk' (h.queued.drainSpawnQueues.congr rfl rfl rfl rfl) rfl h.numbered

theorem sound_cancelTask (h : w.Sound) (hk : w.runtime.runtimeKey ≠ none) (t : AsyncRuntime.TaskId)
    (drop : List (Action ν)) :
    (w.cancelTask t drop).Sound := by
  let _ : ReadyTaskPolicy Unit := ⟨fun p _ _ => (0, p)⟩
  exact ⟨numbered_cancelTask h.numbered t drop,
    (cycled_dispatch (.cancel t) { Script.idle with drop } hk h.queued).queued⟩

theorem holds_dispatch (k : κ) (hk : w.runtime.runtimeKey ≠ none) (h : w.Sound) (event : RuntimeEvent) :
    (program.dispatch k w event).Holds Question.Distinct fun r => r.2.Sound := by
  let _ : ReadyTaskPolicy Unit := ⟨fun p _ _ => (0, p)⟩
  have hstart : ∀ {w'}, w.cycleStart? event = some w' → Queued w'.runtime w'.runtime.readyQueue ∧
      w'.runtime.runtimeKey ≠ none :=
    fun hs => ⟨(cycleStart?_spec hs hk h.queued).queued, (cycleStart?_spec hs hk h.queued).key⟩
  have hqueued := (cycled_dispatch event .idle hk h.queued).queued
  cases event with
  | poll => exact program.holds_pollReadyTasks k hk h
  | wake t => exact program.holds_pollReadyTasks k (hstart rfl).2 ⟨h.numbered, (hstart rfl).1⟩
  | cancel t =>
    show (program.cancelTask k w t).2.Sound
    unfold cancelTask
    split <;> exact sound_cancelTask h hk t _
  | registerTimer t deadline => exact ⟨numbered_registerTimer h.numbered t deadline, hqueued⟩
  | cancelTimer t deadline => exact ⟨numbered_cancelTimer h.numbered t deadline, hqueued⟩
  | timerTick =>
    refine program.holds_pollReadyTasks k (hstart rfl).2 ⟨?_, (hstart rfl).1⟩
    refine numbered_scheduleNextTimerTick (numbered_fireTimers ?_ _)
    exact h.numbered

theorem holds_processEvent (k : κ) (h : w.Sound) (event : RuntimeEvent) :
    (program.processEvent k w event).Holds Question.Distinct fun r => r.2.Sound := by
  have h' : w.storeKey.Sound := ⟨h.numbered, h.queued.congr rfl rfl rfl rfl⟩
  refine (program.holds_dispatch k w.runtimeKey_storeKey h' event).bind fun r hr => ?_
  show World.Sound (if _ then _ else _)
  split
  · exact hr
  · exact ⟨numbered_schedule hr.numbered .., by simpa using hr.queued⟩

theorem holds_processEventEntry (k : κ) (h : w.Sound) (event : EventEntry (Payload ν)) :
    (program.processEventEntry k w event).Holds Question.Distinct fun r => r.2.Sound := by
  rcases event with ⟨i, t, key, event | event⟩ | ⟨i, t, id⟩
  · exact program.holds_processEvent k h event
  · exact h.acts _
  · show (program.executeTask k w id).2.Sound
    unfold executeTask
    split <;> exact h.executeTask id _

/-- In a step the policies choose among different ids. -/
theorem holds_step (k : κ) (h : w.Sound) :
    (program.step k w).Holds Question.Distinct fun r => r.2.2.Sound := by
  refine h.numbered.holds_askPolicy.bind fun r hr => ?_
  rcases r with ⟨_ | event, s⟩
  · exact ⟨hr, h.queued⟩
  · refine Client.Holds.bind (program.holds_processEventEntry k ?_ event) fun r hr => ?_
    · exact ⟨hr, h.queued⟩
    have hd := drained_drainDeferredWakes { r.2 with inContext := false }
    refine ⟨numbered_drainDeferredWakes hr.numbered, ?_⟩
    rw [hd.runtime]
    exact hr.queued

theorem sound_prepare (k : κ) (h : w.Sound) : (program.prepare k w).2.Sound :=
  List.foldlRecOn (program.owner k w).2 World.ownerCall h fun _ h call _ => h.ownerCall call

/-- In a run the policies choose among different ids. -/
theorem holds_run (n : Nat) (k : κ) (h : w.Sound) :
    (program.run n k w).Holds Question.Distinct fun r => r.2.2.Sound := by
  induction n generalizing k w with
  | zero => exact h
  | succ n ih =>
    refine (program.holds_step _ (program.sound_prepare k h)).bind fun r hr => ?_
    exact (ih r.2.1 hr).bind fun r' hr' => hr'

end Program

end DesCartes
