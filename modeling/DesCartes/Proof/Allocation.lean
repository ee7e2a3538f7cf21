import DesCartes.Framework.Counter
import DesCartes.Proof.Components
import DesCartes.Proof.Scheduler.Session
import Mathlib.Data.Fintype.EquivFin

/-!
# The ids of a counter

A scheduler counts the tasks that are scheduled with it, a simulation the components that are added
to it, and its `Components` those that are registered with them; each names what it counts by
`deterministic_uuid`, with a seed and a domain of its own. `distinct_ids`: what one of them has
named in a run has distinct ids, because `splitmix64` loses nothing.

A task that schedules itself again does so under the id that it has, so only `schedule_task` draws
one (`Session.taskId?`).
-/

namespace DesCartes

theorem Ids.splitmix64_bijective : Function.Bijective splitmix64 := by
  have hinj : Function.Injective splitmix64 := fun _ _ h => splitmix64_inj h
  have : Finite (BitVec 64) := .of_injective BitVec.toFin fun _ _ h => BitVec.toFin_inj.mp h
  exact ⟨hinj, Finite.surjective_of_injective hinj⟩

/-! ## Tasks -/

/-- The ids of the scheduler go on from the same one. -/
structure Scheduler.SameIds {ε τ ρ : Type} (s s' : Scheduler ε τ ρ) : Prop where
  nextTaskId : s'.nextTaskId = s.nextTaskId
  idSeed : s'.idSeed = s.idSeed

namespace Scheduler

variable {ε τ ρ φ : Type} {s s' : Scheduler ε τ ρ} {d : List (EventEntry ε)} {e : EventEntry ε}

theorem SameIds.trans {s₁ s₂ s₃ : Scheduler ε τ ρ} (h₁ : s₁.SameIds s₂) (h₂ : s₂.SameIds s₃) :
    s₁.SameIds s₃ :=
  ⟨h₂.nextTaskId.trans h₁.nextTaskId, h₂.idSeed.trans h₁.idSeed⟩

theorem Exhausted.sameIds (h : Exhausted s s' d) : s.SameIds s' := by
  rw [h.took.keep]
  exact ⟨rfl, rfl⟩

theorem Popped.sameIds (h : Popped s s' d e) : s.SameIds s' := by
  rw [h.keep]
  exact ⟨rfl, rfl⟩

theorem sameIds_pop (s : Scheduler ε τ ρ) : s.SameIds s.pop.2 := by
  obtain ⟨d, hp⟩ := pop_spec s
  generalize s.pop = q at hp
  obtain ⟨_ | e, s'⟩ := q
  · exact hp.sameIds
  · exact hp.1.sameIds

theorem sameIds_popWithPolicy [EventFrontierPolicy φ] (s : Scheduler ε τ ρ) (policy : φ) :
    s.SameIds (s.popWithPolicy policy).2.1 := by
  obtain ⟨d, hp⟩ := popWithPolicy_spec s policy
  generalize s.popWithPolicy policy = q at hp
  obtain ⟨_ | e, s', p⟩ := q
  · exact hp.sameIds
  · exact hp.1.sameIds

theorem sameIds_endTask (s : Scheduler ε τ ρ) (id : TaskId) (previous : Option TaskId) (result : Option ρ) :
    s.SameIds (s.endTask id previous result) := by
  rw [endTask_eq]
  exact ⟨rfl, rfl⟩

end Scheduler

namespace Session

open Machine (Draws drawn)

variable {ε τ ρ φ : Type}

/-- The id that `schedule_task` gives out. -/
def taskId? : Op ε τ ρ φ → Answer ε → Option TaskId
  | .scheduleTask _ _, .scheduled event => event.taskId
  | _, _ => none

/-- What a scheduler of the seed has come to. -/
structure Counting (seed : BitVec 64) (r : Session ε τ ρ) : Prop where
  idSeed : r.scheduler.idSeed = seed
  bound : r.scheduler.nextTaskId ≤ u64Max

/-- The tasks, counted by `next_task_id`. -/
abbrev DrawsTask (seed : BitVec 64) (r r' : Session ε τ ρ) (o : Option TaskId) : Prop :=
  Draws (fun r : Session ε τ ρ => r.scheduler.nextTaskId) (Scheduler.taskIdAt seed) r r' o

variable {seed : BitVec 64} {r r' : Session ε τ ρ}

theorem Counting.keep (h : r.Counting seed) (hs : r.scheduler.SameIds r'.scheduler) :
    r'.Counting seed ∧ DrawsTask seed r r' none :=
  ⟨⟨hs.idSeed.trans h.idSeed, hs.nextTaskId ▸ h.bound⟩, .kept hs.nextTaskId⟩

theorem sameIds_start (r : Session ε τ ρ) (o : Option (EventEntry ε)) :
    r.scheduler.SameIds (r.start o).scheduler := by
  rcases o with _ | ⟨i, t, c, v⟩ | ⟨i, t, id⟩
  · exact ⟨rfl, rfl⟩
  · exact ⟨rfl, rfl⟩
  · simp only [start]
    rcases Scheduler.beginTask_cases r.scheduler id with ⟨task, -, -, e⟩ | e
    · rw [e]
      exact ⟨rfl, rfl⟩
    · rw [e]
      exact ⟨rfl, rfl⟩

/-- Only `schedule_task` draws an id, and it draws the next one. -/
theorem Counting.step [EventFrontierPolicy φ] {op : Op ε τ ρ φ} {o : Answer ε} (h : r.Counting seed)
    (hs : r.step op = some (r', o)) :
    r'.Counting seed ∧ DrawsTask seed r r' (taskId? op o) := by
  cases op with
  | schedule delay component event =>
    simp only [Session.step] at hs
    split at hs <;> cases hs
    exact h.keep ⟨rfl, rfl⟩
  | scheduleTask delay task =>
    simp only [Session.step] at hs
    split at hs <;> cases hs
    rename_i hn
    refine ⟨⟨h.idSeed, Nat.succ_le_of_lt hn.1⟩, ?_⟩
    have hid : taskId? (.scheduleTask delay task : Op ε τ ρ φ)
        (.scheduled (.task (r.scheduler.nextEventId + 1)
          (r.scheduler.clock + delay) (r.scheduler.scheduleTask delay task).1)) =
            some (Scheduler.taskIdAt seed (r.scheduler.nextTaskId + 1)) := by
      rw [← h.idSeed]
      rfl
    rw [hid]
    exact .drew rfl
  | cancelTask id =>
    cases hs
    exact h.keep ⟨Scheduler.nextTaskId_cancelTask .., Scheduler.idSeed_cancelTask ..⟩
  | pop =>
    cases hs
    exact h.keep (Scheduler.sameIds_pop _)
  | popWithPolicy policy =>
    cases hs
    exact h.keep (Scheduler.sameIds_popWithPolicy _ policy)
  | execute policy =>
    cases hs
    exact h.keep ((Scheduler.sameIds_popWithPolicy _ policy).trans
      (sameIds_start { r with scheduler := (r.scheduler.popWithPolicy policy).2.1 } _))
  | finish again result =>
    simp only [Session.step] at hs
    split at hs
    · cases hs
    cases again with
    | none =>
      cases hs
      exact h.keep (Scheduler.sameIds_endTask ..)
    | some again =>
      obtain ⟨delay, task⟩ := again
      obtain ⟨q, hq, hq'⟩ := Option.map_eq_some_iff.mp hs
      cases hq'
      simp only [reschedule] at hq
      split at hq
      · cases hq
      · split at hq <;> cases hq
        have hagain : ∀ id, r.scheduler.SameIds
            (r.scheduler.scheduleTaskAt (r.scheduler.clock + delay) id task) :=
          fun _ => ⟨rfl, rfl⟩
        exact h.keep ((hagain _).trans (Scheduler.sameIds_endTask ..))

theorem nodup_taskIds [EventFrontierPolicy φ] {ops : List (Op ε τ ρ φ)} {answers : List (Answer ε)}
    (h : Machine.run Session.step (fresh seed) ops = some (r, answers)) : (drawn taskId? ops answers).Nodup :=
  Machine.nodup_drawn (P := Counting seed) (fun _ _ hm hn => Scheduler.taskIdAt_inj hm hn)
    (fun _ h => h.bound)
    (fun _ _ _ _ h hs => h.step hs) ⟨rfl, Nat.zero_le _⟩ h

end Session

/-! ## Components -/

namespace Simulation

open Machine (Draws drawn)

variable {κ ε τ ρ φ : Type}

/-- The key that `add_component` returns. -/
def addedKey? : Call κ ε τ φ → Returned ε → Option Uuid
  | .addComponent _, a => key? a
  | _, _ => none

/-- The key that `register` returns. -/
def registeredKey? : Call κ ε τ φ → Returned ε → Option Uuid
  | .register _, a => key? a
  | _, _ => none

/-- What the counters of a simulation of the seed have come to. -/
structure Counting (seed : BitVec 64) (s : Simulation κ ε τ ρ φ × List (Nat × DeferredWake ε)) : Prop where
  seed_eq : s.1.seed = seed
  idSeed : s.1.components.idSeed = 0
  bound : s.1.nextComponentId ≤ u64Max
  components_bound : s.1.components.nextComponentId ≤ u64Max

variable {seed : BitVec 64} {s s' : Simulation κ ε τ ρ φ × List (Nat × DeferredWake ε)}

/-- Each of the two calls draws the next key of its own counter, and no call draws another one. -/
theorem Counting.step {op : Call κ ε τ φ} {a : Returned ε} (h : Counting seed s) (hc : Called s.1 op s'.1 a) :
    Counting seed s' ∧ Draws (fun s => s.1.nextComponentId) (Components.idAt seed) s s' (addedKey? op a) ∧
      Draws (fun s => s.1.components.nextComponentId) (Components.idAt 0) s s' (registeredKey? op a) := by
  obtain ⟨sim, deferred⟩ := s
  obtain ⟨sim', deferred'⟩ := s'
  cases hc with
  | kept hadd hreg hseed hnext hsame hkey hrecv =>
    have hcounting : Counting seed (sim', deferred') :=
      ⟨hseed.trans h.seed_eq, hsame.idSeed.trans h.idSeed, hnext ▸ h.bound,
      hsame.nextComponentId ▸ h.components_bound⟩
    have hadded : addedKey? op a = none := by
      cases op <;> first | rfl | exact hkey
    have hregistered : registeredKey? op a = none := by
      cases op <;> first | rfl | exact hkey
    rw [hadded, hregistered]
    exact ⟨hcounting, .kept hnext, .kept hsame.nextComponentId⟩
  | added component hlt =>
    refine ⟨⟨h.seed_eq, h.idSeed, Nat.succ_le_of_lt hlt, h.components_bound⟩, ?_, .kept rfl⟩
    have hseed : sim.seed = seed := h.seed_eq
    rw [← hseed]
    exact .drew rfl
  | registered component hlt =>
    refine ⟨⟨h.seed_eq, h.idSeed, h.bound, Nat.succ_le_of_lt hlt⟩, .kept rfl, ?_⟩
    have hseed : sim.components.idSeed = 0 := h.idSeed
    rw [← hseed]
    exact .drew rfl

section
variable [EventFrontierPolicy φ] {code : Code κ ε τ ρ} {self : Nat} {policy : φ} {deferred : List (Nat × DeferredWake ε)}
  {calls : List (Call κ ε τ φ)} {answers : List (Returned ε)}

theorem nodup_addedKeys
    (h : Machine.run (call code self) (.new seed policy, deferred) calls = some (s', answers)) :
    (drawn addedKey? calls answers).Nodup := by
  have hstep : ∀ (s : Simulation κ ε τ ρ φ × List (Nat × DeferredWake ε)) op u a,
      Counting seed s → call code self s op = some (u, a) →
        Counting seed u ∧ Draws (fun s => s.1.nextComponentId) (Components.idAt seed) s u (addedKey? op a) := by
    intro s op u a hs hu
    obtain ⟨hcounting, hadded, -⟩ := hs.step (called_of_call hu)
    exact ⟨hcounting, hadded⟩
  exact Machine.nodup_drawn (fun _ _ => Components.idAt_inj) (fun _ h => h.bound) hstep
    ⟨rfl, rfl, Nat.zero_le _, Nat.zero_le _⟩ h

theorem nodup_registeredKeys
    (h : Machine.run (call code self) (.new seed policy, deferred) calls = some (s', answers)) :
    (drawn registeredKey? calls answers).Nodup := by
  have hstep : ∀ (s : Simulation κ ε τ ρ φ × List (Nat × DeferredWake ε)) op u a,
      Counting seed s → call code self s op = some (u, a) →
        Counting seed u ∧ Draws (fun s => s.1.components.nextComponentId) (Components.idAt 0) s u
          (registeredKey? op a) := by
    intro s op u a hs hu
    obtain ⟨hcounting, -, hregistered⟩ := hs.step (called_of_call hu)
    exact ⟨hcounting, hregistered⟩
  exact Machine.nodup_drawn (fun _ _ => Components.idAt_inj) (fun _ h => h.components_bound) hstep
    ⟨rfl, rfl, Nat.zero_le _, Nat.zero_le _⟩ h

end

end Simulation

/-! ## All of them -/

/-- `splitmix64` is a bijection, so an id determines the counter that it is mixed from, and what one
counter of a scheduler or of a simulation has named in a run has distinct ids. -/
theorem distinct_ids {κ ε τ ρ φ : Type} [EventFrontierPolicy φ] (code : Code κ ε τ ρ) (self : Nat) :
    Function.Bijective Ids.splitmix64 ∧ (∀ seed domain, Function.Injective (Ids.deterministicUuid seed domain)) ∧
      (∀ (seed : BitVec 64) (ops : List (Op ε τ ρ φ)) (r : Session ε τ ρ) (answers : List (Answer ε)),
        Machine.run Session.step (.fresh seed) ops = some (r, answers) →
          (Machine.drawn Session.taskId? ops answers).Nodup) ∧
      ∀ (seed : BitVec 64) (policy : φ) (deferred : List (Nat × DeferredWake ε)) (calls : List (Call κ ε τ φ))
        (s : Simulation κ ε τ ρ φ × List (Nat × DeferredWake ε)) (answers : List (Returned ε)),
        Machine.run (Simulation.call code self) (.new seed policy, deferred) calls = some (s, answers) →
          (Machine.drawn Simulation.addedKey? calls answers).Nodup ∧
            (Machine.drawn Simulation.registeredKey? calls answers).Nodup := by
  refine ⟨Ids.splitmix64_bijective, fun seed domain c c' h => Ids.deterministicUuid_inj h, ?_, ?_⟩
  · intro seed ops r answers h
    exact Session.nodup_taskIds h
  · intro seed policy deferred calls s answers h
    exact ⟨Simulation.nodup_addedKeys h, Simulation.nodup_registeredKeys h⟩

/-- Two tasks, the first of which schedules itself again, and two components of each counter. -/
theorem distinct_ids_again :
    let ops : List (Op Unit Unit Unit FifoFrontierPolicy) :=
      [.scheduleTask .zero (), .execute .mk, .scheduleTask .zero (), .finish (some (.zero, ())) none]
    let calls : List (Call Unit Unit Unit FifoFrontierPolicy) :=
      [.addComponent (), .register (), .scheduleTask .zero (), .register (), .addComponent ()]
    (∃ r answers, Machine.run Session.step (.fresh 42 : Session Unit Unit Unit) ops = some (r, answers) ∧
      (Machine.drawn Session.taskId? ops answers).length = 2 ∧ (Machine.drawn Session.taskId? ops answers).Nodup) ∧
    ∃ s answers, Machine.run (Simulation.call .inert 0) (Simulation.inertNew 42) calls = some (s, answers) ∧
      (Machine.drawn Simulation.addedKey? calls answers).length = 2 ∧ (Machine.drawn Simulation.addedKey? calls answers).Nodup ∧
        (Machine.drawn Simulation.registeredKey? calls answers).Nodup := by
  intro ops calls
  have h : Machine.run Session.step (.fresh 42 : Session Unit Unit Unit) ops = some (_, _) := rfl
  have h' : Machine.run (Simulation.call .inert 0) (Simulation.inertNew 42) calls = some (_, _) := rfl
  obtain ⟨-, -, htasks, hcomponents⟩ := distinct_ids (φ := FifoFrontierPolicy) Code.inert 0
  exact ⟨⟨_, _, h, rfl, htasks _ _ _ _ h⟩, _, _, h', rfl, hcomponents _ _ _ _ _ _ h'⟩

end DesCartes
