import DesCartes.Proof.Simulation.ReadyQueue

/-!
# The order of a poll cycle under FIFO

`FifoReadyTaskPolicy` always picks the first task of those left to poll, but `swap_remove` puts the
last one into its place. A cycle therefore polls the first task of its snapshot and then the others
from the back (`polledTasks_pollLoop_fifo`), which is the order of the ready queue only when at
most one of the others is live (`run_fifo_order`).
-/

namespace DesCartes.World

open AsyncRuntime

variable {ν π φ : Type}

/-! ## The cycle of a step -/

/-- The world in which the next step calls `poll_ready_tasks`, if it does. -/
def nextCycle? [EventFrontierPolicy φ] (w : World ν π φ) : Option (World ν π φ) :=
  match w.scheduler.popWithPolicy w.frontierPolicy with
  | (none, _, _) => none
  | (some event, s, policy) =>
    let w := { w with scheduler := s, frontierPolicy := policy, inContext := true }.log
      (.processed (runtimeEvent? event) s.clock)
    (runtimeEvent? event).bind w.storeKey.cycleStart?

theorem nextCycle?_spec [ReadyTaskPolicy π] [EventFrontierPolicy φ] {w w' : World ν π φ}
    (h : w.nextCycle? = some w') (hq : Queued w.runtime w.runtime.readyQueue) : Starts w w' ∧
      ∀ script, (w.step script).2.polledTasks = (w'.pollReadyTasks script.polls).polledTasks := by
  have hopened := @opened_of_pop _ _ _ _ w
  unfold nextCycle? at h
  unfold step
  generalize w.scheduler.popWithPolicy w.frontierPolicy = q at h hopened
  obtain ⟨_ | e, s, p⟩ := q
  · cases h
  · obtain ⟨event, he, hs⟩ := Option.bind_eq_some_iff.mp h
    exact (hopened rfl).cycle he hs hq

/-! ## FIFO -/

theorem polledTasks_pollLoop_fifo (n : Nat) (polls : Nat → PollScript ν) (pollSet : List AsyncRuntime.TaskId)
    (w : World ν FifoReadyTaskPolicy φ) (hlen : pollSet.length = n) (hk : w.runtime.runtimeKey ≠ none)
    (hn : pollSet.Nodup) :
    (pollLoop n polls pollSet w).polledTasks =
      w.polledTasks ++ (Vec.swapOrder pollSet).filter fun t => (w.runtime.tasks t).isSome := by
  induction n generalizing polls pollSet w with
  | zero =>
    rw [List.length_eq_zero_iff.mp hlen]
    simp [pollLoop, Vec.swapOrder]
  | succ n ih =>
    obtain ⟨x, l, rfl⟩ := List.exists_cons_of_length_eq_add_one hlen
    have hp := Vec.swapRemove_perm (l := x :: l) (i := 0) rfl
    have hlen' : (Vec.swapRemove (x :: l) 0).length = n := by
      have := Vec.length_swapRemove (List.cons_ne_nil x l) 0
      omega
    obtain ⟨hx, hn'⟩ := List.nodup_cons.mp (hp.nodup_iff.mpr hn)
    have hc : (w.chooseTask (x :: l)).1 = 0 := Nat.zero_min _
    rw [Vec.swapOrder_swapRemove]
    simp only [pollLoop, hc, List.getElem?_cons_zero]
    generalize Vec.swapRemove (x :: l) 0 = rest at hlen' hx hn'
    split
    · rename_i hnone
      have hx' : w.runtime.tasks x = none := hnone
      refine (ih polls rest (w.chooseTask (x :: l)).2 hlen' hk hn').trans ?_
      rw [List.filter_cons_of_neg (by simp [hx'])]
      rfl
    · rename_i task hsome
      have hx' : w.runtime.tasks x = some task := hsome
      obtain ⟨h₁, h₂, -⟩ := pollOne_spec (w := (w.chooseTask (x :: l)).2) hk x task (polls 0)
      have hf := frame_pollOne _ hsome (polls 0)
      rw [ih _ rest _ hlen' (by rw [hf.runtimeKey]; exact hk) hn', h₁,
        List.filter_cons_of_pos (by simp [hx']),
        List.append_assoc]
      -- Polling `x` does not change which of the others are tasks.
      refine congrArg (w.polledTasks ++ x :: ·) (List.filter_congr fun t ht => ?_)
      rw [h₂ t fun e => hx (e ▸ Vec.mem_swapOrder.mp ht)]
      rfl

/-- A cycle under FIFO polls the first live task of its snapshot, and then the others from the back. -/
theorem polledTasks_pollReadyTasks_fifo {w : World ν FifoReadyTaskPolicy φ} (polls : Nat → PollScript ν)
    (hk : w.runtime.runtimeKey ≠ none) (h : Queued w.runtime w.runtime.readyQueue) :
    (w.pollReadyTasks polls).polledTasks = w.polledTasks ++
      (Vec.swapOrder w.runtime.drainSpawnQueues.readyQueue).filter fun t =>
        (w.runtime.drainSpawnQueues.tasks t).isSome := by
  have hk' : w.runtime.drainSpawnQueues.runtimeKey ≠ none := by rw [drainSpawnQueues_eq]; exact hk
  exact polledTasks_pollLoop_fifo _ polls _
    (w.setRuntime { w.runtime.drainSpawnQueues with readyQueue := [] }) rfl hk'
    h.drainSpawnQueues.nodup

/-- In every run of a runtime under FIFO, whichever tasks are ready when a step calls
`poll_ready_tasks`: the live tasks of the snapshot are polled once each and in the order of the ready
queue if and only if at most one of them comes after its first entry. -/
theorem run_fifo_order [EventFrontierPolicy φ] (s : Scheduler (Payload ν) Unit Unit) (frontierPolicy : φ)
    (deferred : List (SimTime × Message ν)) (key : Uuid) (spawned : Nat) (moves : List (Move ν FifoReadyTaskPolicy φ))
    (script : Script ν) :
    let w := (install s frontierPolicy deferred key {} spawned).run moves
    ∀ w', w.nextCycle? = some w' →
      (((w.step script).2.trace.drop w.trace.length).filterMap Obs.polled? =
          w'.runtime.drainSpawnQueues.readyQueue.filter (fun t => (w'.runtime.drainSpawnQueues.tasks t).isSome) ↔
        (w'.runtime.drainSpawnQueues.readyQueue.tail.filter fun t =>
          (w'.runtime.drainSpawnQueues.tasks t).isSome).length ≤ 1) := by
  intro w w' h
  have hq : Queued w.runtime w.runtime.readyQueue := queued_run moves (queued_install ..)
  obtain ⟨hstart, hstep⟩ := nextCycle?_spec h hq
  have hp := (hstep script).trans (polledTasks_pollReadyTasks_fifo script.polls hstart.key hstart.queued)
  rw [hstart.polled] at hp
  rw [polledTasks_drop (trace_step w script) hp]
  exact Vec.filter_swapOrder_eq_iff hstart.queued.drainSpawnQueues.nodup _

/-- A runtime with three tasks that are ready. -/
def threeReady : World Unit FifoReadyTaskPolicy FifoFrontierPolicy := (install (.withSeed 7) {} [] 0 {} 3).run []

/-- The last of three ready tasks is polled before the second. -/
theorem threeReady_order : threeReady.runtime.readyQueue = [0, 1, 2] ∧
    ((threeReady.step .idle).2.trace.drop threeReady.trace.length).filterMap Obs.polled? = [0, 2, 1] := by
  decide

/-- The condition fails for them, and the order with it. -/
theorem threeReady_not_fifo : ∃ w', threeReady.nextCycle? = some w' ∧
    ((threeReady.step .idle).2.trace.drop threeReady.trace.length).filterMap Obs.polled? ≠
      w'.runtime.drainSpawnQueues.readyQueue.filter fun t => (w'.runtime.drainSpawnQueues.tasks t).isSome := by
  obtain ⟨w', h⟩ := Option.isSome_iff_exists.mp (show threeReady.nextCycle?.isSome = true by decide)
  have hlen :
      threeReady.nextCycle?.map (fun w' => (w'.runtime.drainSpawnQueues.readyQueue.tail.filter fun t =>
      (w'.runtime.drainSpawnQueues.tasks t).isSome).length) = some 2 := by decide
  rw [h, Option.map_some, Option.some.injEq] at hlen
  have horder := run_fifo_order (ν := Unit) (φ := FifoFrontierPolicy) (.withSeed 7) {} [] 0 3 [] .idle
  refine ⟨w', h, fun e => ?_⟩
  have := (horder w' h).mp e
  omega

end DesCartes.World
