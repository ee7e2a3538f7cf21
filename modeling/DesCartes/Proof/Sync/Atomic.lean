import DesCartes.Framework.Work
import DesCartes.Impl.Sync.Atomic
import DesCartes.Proof.Explore.Harness
import DesCartes.Proof.Sync.Mutex
import Mathlib.Logic.Function.Basic

/-!
# What a trace says of atomics and mutexes

A `Memory` is a value for each atomic and a task for each mutex that is locked. An event either cannot
happen in a memory, or makes another one of it (`Memory.apply`).

* `run_recorded`: the events that a run records can happen one after the other, and lead to the memory
  of the state that the run ends in; they also say what the operations have told;
* `run_followed`: a run that a validator for the trace of another run has no error for has come to a
  memory that the other one has come to on its way, and its operations have told the same until there.
-/

namespace DesCartes

open Explore (ConcurrencyEventKind ConcurrencyTraceEvent ReplayConcurrencyValidator TraceEvent)

/-- What the atomics and the mutexes with the ids are at. -/
structure Memory where
  value : Nat → Nat
  owner : Nat → Option AsyncRuntime.TaskId

namespace Memory

/-- The memory with a value for an atomic. -/
def setValue (M : Memory) (siteId value : Nat) : Memory :=
  { M with value := Function.update M.value siteId value }

/-- The memory with an owner for a mutex. -/
def setOwner (M : Memory) (mutexId : Nat) (owner : Option AsyncRuntime.TaskId) : Memory :=
  { M with owner := Function.update M.owner mutexId owner }

/-- The memory after an event; none where the event cannot happen. -/
def apply (M : Memory) (e : ConcurrencyTraceEvent) : Option Memory :=
  match e.event with
  | .mutexContended mutexId _ => if (M.owner mutexId).isSome then some M else none
  | .mutexAcquire mutexId =>
    if (M.owner mutexId).isSome then none else some (M.setOwner mutexId (some e.taskId))
  | .mutexRelease mutexId => if (M.owner mutexId).isSome then some (M.setOwner mutexId none) else none
  | .atomicLoad siteId _ value => if M.value siteId = value then some M else none
  | .atomicStore siteId _ value => some (M.setValue siteId value)
  | .atomicFetchAdd siteId _ prev next delta =>
    if M.value siteId = prev ∧ next = (prev + delta) % 2 ^ 64 then some (M.setValue siteId next) else none
  | .atomicCompareExchange siteId _ _ current expected new succeeded =>
    if M.value siteId = current ∧ succeeded = decide (current = expected) then
      some (if succeeded then M.setValue siteId new else M)
    else none

theorem setValue_self {M : Memory} {siteId value : Nat} (h : M.value siteId = value) :
    M.setValue siteId value = M := by
  rw [setValue, ← h, Function.update_eq_self]

theorem setOwner_self {M : Memory} {mutexId : Nat} {owner : Option AsyncRuntime.TaskId}
    (h : M.owner mutexId = owner) :
    M.setOwner mutexId owner = M := by
  rw [setOwner, ← h, Function.update_eq_self]

end Memory

/-! ## What code is told -/

/-- What an operation tells the code that performs it: what an atomic answers, or whether a lock was
got. -/
inductive Told where
  | atomic (answer : AtomicU64.Answer)
  | lock (got : Bool)

/-- What an event says about that. -/
def Explore.ConcurrencyEventKind.told : ConcurrencyEventKind → Option Told
  | mutexContended _ _ => some (.lock false)
  | mutexAcquire _ => some (.lock true)
  | mutexRelease _ => none
  | atomicLoad _ _ value => some (.atomic (.value (.ofNat 64 value)))
  | atomicStore _ _ _ => some (.atomic .done)
  | atomicFetchAdd _ _ prev _ _ => some (.atomic (.value (.ofNat 64 prev)))
  | atomicCompareExchange _ _ _ current _ _ succeeded =>
    let current := .ofNat 64 current
    some (.atomic (.exchanged (if succeeded then .ok current else .error current)))

/-- What an operation on a mutex tells. -/
def Mutex.Answer.got : Mutex.Answer → Option Bool
  | done => none
  | polled .pending => some false
  | polled (.ready _) => some true
  | tried guard => some guard.isSome

namespace Primitives

/-- What an operation tells. -/
def Answer.told : Answer → Option Told
  | atomic answer => some (.atomic answer)
  | mutex answer => answer.got.map .lock

end Primitives

/-! ## Steps -/

namespace AtomicU64

/-- What an atomic records can happen, leads to its new value, and tells what it answers. -/
theorem applied {a a' : AtomicU64} {op : Op} {ans : Answer} {event : ConcurrencyEventKind} {M : Memory}
    (ha : M.value a.siteId = a.value.toNat) (h : a.perform op = some (a', ans, event)) (time : Option Nat)
    (taskId : AsyncRuntime.TaskId) :
    a'.siteId = a.siteId ∧ M.apply ⟨time, taskId, event⟩ = some (M.setValue a.siteId a'.value.toNat) ∧
      event.told = some (.atomic ans) := by
  cases op with
  | load ordering =>
    obtain ⟨-, h⟩ := Option.ite_none_left_eq_some.mp h
    cases h
    refine ⟨rfl, ?_, ?_⟩
    · rw [Memory.setValue_self ha]
      exact if_pos ha
    · simp [ConcurrencyEventKind.told]
  | store value ordering =>
    obtain ⟨-, h⟩ := Option.ite_none_left_eq_some.mp h
    cases h
    exact ⟨rfl, rfl, rfl⟩
  | fetchAdd delta ordering =>
    cases h
    refine ⟨rfl, if_pos ⟨ha, BitVec.toNat_add ..⟩, ?_⟩
    simp [ConcurrencyEventKind.told]
  | compareExchange expected new success failure =>
    obtain ⟨-, h⟩ := Option.ite_none_left_eq_some.mp h
    cases h
    refine ⟨rfl, ?_, ?_⟩
    · refine (if_pos ⟨ha, by simp [BitVec.toNat_inj]⟩).trans ?_
      by_cases he : a.value = expected
      · simp [he]
      · simp [he, Memory.setValue_self ha]
    · by_cases he : a.value = expected <;> simp [ConcurrencyEventKind.told, he]

end AtomicU64

namespace Mutex

variable {ω π : Type} [DecidableEq ω] {m m' : Mutex ω π} {cx : Context} {op : Op ω} {ans : Answer}

/-- What an operation makes the owner, what it records, and what it tells. -/
inductive Does (m : Mutex ω π) : Option AsyncRuntime.TaskId → Option ConcurrencyEvent →
  Option Bool → Prop where
  | nothing : Does m m.state.ownerTaskId none none
  | contended (taskId : AsyncRuntime.TaskId) (time : Option Nat) (waiterCount : Nat)
      (hl : m.state.locked = true) :
      Does m m.state.ownerTaskId (some (.mutexContended m.mutexId taskId time waiterCount)) (some false)
  | acquired (taskId : AsyncRuntime.TaskId) (time : Option Nat) (hl : m.state.locked = false) :
      Does m (some taskId) (some (.mutexAcquire m.mutexId taskId time)) (some true)
  | released (taskId : AsyncRuntime.TaskId) (time : Option Nat) {g : Nat}
      (hg : m.guards.get g = some ()) :
      Does m none (some (.mutexRelease m.mutexId taskId time)) none

omit [DecidableEq ω] in
theorem ownerTaskId_enqueue (s : State ω) (taskId : AsyncRuntime.TaskId) (waker : ω) :
    (s.enqueue taskId waker).ownerTaskId = s.ownerTaskId := by
  simp only [State.enqueue]
  split <;> rfl

theorem does_of_step [MutexWaiterPolicy π] (h : m.step (cx, op) = some (m', ans)) :
    m'.mutexId = m.mutexId ∧
      (m.state.locked = m.state.ownerTaskId.isSome → m'.state.locked = m'.state.ownerTaskId.isSome) ∧
      ∃ event, m'.events = m.events ++ event.toList ∧ Does m m'.state.ownerTaskId event ans.got := by
  have hnothing : m.events = m.events ++ (none : Option ConcurrencyEvent).toList :=
    (List.append_nil _).symm
  cases op with
  | lock => cases h; exact ⟨rfl, id, none, hnothing, .nothing⟩
  | poll i waker =>
    simp only [step, poll] at h
    split at h
    · cases h
      exact ⟨rfl, id, none, hnothing, .nothing⟩
    · cases h
    · split at h
      · rename_i hl
        cases h
        refine ⟨rfl, ?_, some _, rfl, ?_⟩
        · rw [locked_enqueue, ownerTaskId_enqueue]
          exact id
        · rw [ownerTaskId_enqueue]
          exact .contended _ _ _ hl
      · rename_i hl
        cases h
        exact ⟨rfl, fun _ => rfl, _, rfl, .acquired _ _ (by simpa using hl)⟩
  | dropFuture i => cases h; exact ⟨rfl, id, none, hnothing, .nothing⟩
  | tryLock =>
    simp only [step, tryLock] at h
    split at h
    · cases h
    · split at h
      · rename_i hl
        cases h
        exact ⟨rfl, id, _, rfl, .contended _ _ _ hl⟩
      · rename_i hl
        cases h
        exact ⟨rfl, fun _ => rfl, _, rfl, .acquired _ _ (by simpa using hl)⟩
  | dropGuard g =>
    simp only [step, dropGuard] at h
    split at h
    · cases h
      exact ⟨rfl, id, none, hnothing, .nothing⟩
    · cases h
    · rename_i hg _
      split at h
      · cases h
        exact ⟨rfl, fun _ => rfl, _, rfl, .released _ _ hg⟩
      · split at h
        · cases h
        · cases h
          exact ⟨rfl, fun _ => rfl, _, rfl, .released _ _ hg⟩
  | wake waker => cases h; exact ⟨rfl, id, none, hnothing, .nothing⟩

/-- The mutex is at what the memory has for it. -/
structure At (M : Memory) (m : Mutex ω π) : Prop where
  exclusive : m.Exclusive
  locked : m.state.locked = m.state.ownerTaskId.isSome
  owner : M.owner m.mutexId = m.state.ownerTaskId

omit [DecidableEq ω] in
theorem new_at {M : Memory} {mutexId : Nat} {policy : π} (h : M.owner mutexId = none) :
    (new mutexId policy : Mutex ω π).At M :=
  ⟨rfl, rfl, h⟩

omit [DecidableEq ω] in
/-- A mutex with a guard has an owner. -/
theorem At.owned {M : Memory} (h : m.At M) {g : Nat} (hg : m.guards.get g = some ()) :
    m.state.locked = true := by
  by_contra hl
  have := Table.le_total (f := fun _ => 1) hg
  have he := h.exclusive
  rw [Exclusive, if_neg hl] at he
  omega

omit [DecidableEq ω] in
/-- What a mutex records can happen, leads to its new owner, and tells what it answers. -/
theorem At.applied {M : Memory} {owner : Option AsyncRuntime.TaskId} {event : Option ConcurrencyEvent}
    {got : Option Bool} (h : m.At M) (hd : m.Does owner event got) :
    (event.toList.map (·.toTraceEvent)).foldlM Memory.apply M = some (M.setOwner m.mutexId owner) ∧
      (event.toList.map (·.toTraceEvent)).filterMap (·.event.told) = (got.map Told.lock).toList := by
  have howner : (M.owner m.mutexId).isSome = m.state.locked := by rw [h.owner, h.locked]
  cases hd with
  | nothing => exact ⟨congrArg some (Memory.setOwner_self h.owner).symm, rfl⟩
  | contended taskId time waiterCount hl =>
    rw [Memory.setOwner_self h.owner]
    exact ⟨by simp [ConcurrencyEvent.toTraceEvent, Memory.apply, howner, hl], rfl⟩
  | acquired taskId time hl =>
    exact ⟨by simp [ConcurrencyEvent.toTraceEvent, Memory.apply, howner, hl], rfl⟩
  | released taskId time hg =>
    exact ⟨by simp [ConcurrencyEvent.toTraceEvent, Memory.apply, howner, h.owned hg], rfl⟩

end Mutex

namespace Primitives

variable {ω π : Type} [DecidableEq ω] {s t u : Primitives ω π} {M : Memory}

/-- No two atomics have the same site id, and no two mutexes the same id. -/
structure Distinct (s : Primitives ω π) : Prop where
  atomics : s.atomics.Named AtomicU64.siteId
  mutexes : s.mutexes.Named Mutex.mutexId

/-- The primitives are at what the memory has for them. -/
structure At (M : Memory) (s : Primitives ω π) : Prop where
  atomics : ∀ i a, s.atomics.get i = some a → M.value a.siteId = a.value.toNat
  mutexes : ∀ i m, s.mutexes.get i = some m → m.At M

/-- What a run from `s` to `t` has recorded: the events can happen one after the other from the
memory that `s` is at, and lead to the one that `t` is at; the trace and the validator have been
given them, and they say what the answers have told. -/
structure Recorded (M : Memory) (s : Primitives ω π) (events : List ConcurrencyTraceEvent) (M' : Memory)
    (t : Primitives ω π) (answers : List Answer) : Prop where
  distinct : t.Distinct
  at_end : t.At M'
  memory : events.foldlM Memory.apply M = some M'
  trace : t.recorder.trace = s.recorder.trace ++ events.map TraceEvent.concurrency
  validator : t.recorder.validator = s.recorder.validator.map fun v =>
    events.foldl ReplayConcurrencyValidator.record v
  told : answers.filterMap Answer.told = events.filterMap (·.event.told)

omit [DecidableEq ω] in
theorem Recorded.nothing (hd : s.Distinct) (h : s.At M) : Recorded M s [] M s [] :=
  ⟨hd, h, rfl, (List.append_nil _).symm, Option.map_id'.symm, rfl⟩

omit [DecidableEq ω] in
theorem Recorded.append {M₁ M₂ : Memory} {events events' : List ConcurrencyTraceEvent}
    {answers answers' : List Answer} (h : Recorded M s events M₁ u answers)
    (h' : Recorded M₁ u events' M₂ t answers') :
    Recorded M s (events ++ events') M₂ t (answers ++ answers') where
  distinct := h'.distinct
  at_end := h'.at_end
  memory := by
    rw [List.foldlM_append, h.memory]
    exact h'.memory
  trace := by rw [h'.trace, h.trace, List.map_append, List.append_assoc]
  validator := by
    simp only [h'.validator, h.validator, Option.map_map, Function.comp_def, List.foldl_append]
  told := by rw [List.filterMap_append, List.filterMap_append, h.told, h'.told]

omit [DecidableEq ω] in
theorem atomic_recorded {cx : Context} {i : Nat} {op : AtomicU64.Op} {ans : Answer}
    (hd : s.Distinct) (h : s.At M) (hs : s.atomic cx i op = some (t, ans)) :
    ∃ (event : Option ConcurrencyTraceEvent) (M' : Memory), Recorded M s event.toList M' t [ans] := by
  simp only [atomic] at hs
  split at hs
  · rename_i a taskId ha ht
    obtain ⟨⟨a', answer, event⟩, hp, hr⟩ := Option.map_eq_some_iff.mp hs
    cases hr
    obtain ⟨hid, happly, htold⟩ := AtomicU64.applied (h.atomics i a ha) hp cx.timeNanos taskId
    refine ⟨some ⟨cx.timeNanos, taskId, event⟩, M.setValue a.siteId a'.value.toNat,
      ⟨hd.atomics.set ha hid, hd.mutexes⟩, ⟨fun j b hj => ?_, fun j m hj => ?_⟩, ?_, rfl, rfl, ?_⟩
    · rcases (Table.get_set_eq_some ha).mp hj with ⟨rfl, rfl⟩ | ⟨hji, hj'⟩
      · exact hid ▸ Function.update_self ..
      · exact (Function.update_of_ne (hd.atomics.ne ha hj' hji) ..).trans (h.atomics j b hj')
    · exact ⟨(h.mutexes j m hj).exclusive, (h.mutexes j m hj).locked, (h.mutexes j m hj).owner⟩
    · simp [happly]
    · simp [Answer.told, htold]
  · cases hs

theorem mutex_recorded [MutexWaiterPolicy π] {cx : Context} {i : Nat} {op : Mutex.Op ω} {ans : Answer}
    (hd : s.Distinct) (h : s.At M) (hs : s.mutex cx i op = some (t, ans)) :
    ∃ (event : Option ConcurrencyTraceEvent) (M' : Memory), Recorded M s event.toList M' t [ans] := by
  simp only [mutex] at hs
  split at hs
  · rename_i m hm
    obtain ⟨⟨m', answer⟩, hp, hr⟩ := Option.map_eq_some_iff.mp hs
    cases hr
    have hat : Mutex.At M { m with policy := s.policy, events := [] } :=
      ⟨(h.mutexes i m hm).exclusive, (h.mutexes i m hm).locked, (h.mutexes i m hm).owner⟩
    obtain ⟨hid, hlocked, event, hevents, hdoes⟩ := Mutex.does_of_step hp
    obtain ⟨happly, htold⟩ := hat.applied hdoes
    rw [List.nil_append] at hevents
    refine ⟨event.map (·.toTraceEvent), M.setOwner m.mutexId m'.state.ownerTaskId,
      ⟨hd.atomics, hd.mutexes.set hm hid⟩, ⟨h.atomics, fun j n hj => ?_⟩, ?_, ?_, ?_, ?_⟩
    · rcases (Table.get_set_eq_some hm).mp hj with ⟨rfl, rfl⟩ | ⟨hji, hj'⟩
      · exact ⟨hat.exclusive.step (Mutex.stepped_of_step hp), hlocked hat.locked,
          hid ▸ Function.update_self ..⟩
      · have hn := h.mutexes j n hj'
        exact ⟨hn.exclusive, hn.locked,
          (Function.update_of_ne (hd.mutexes.ne hm hj' hji) ..).trans hn.owner⟩
    · rw [Option.toList_map]
      exact happly
    · rw [hevents]
      cases event <;> simp [TeeConcurrencyRecorder.record, Explore.TraceRecorder.record]
    · rw [hevents]
      cases event <;> simp [TeeConcurrencyRecorder.record]
    · rw [Option.toList_map, htold]
      cases hg : answer.got <;> simp [Answer.told, hg]
  · cases hs

theorem step_recorded [MutexWaiterPolicy π] {a : Context × Op ω} {ans : Answer} (hd : s.Distinct)
    (h : s.At M) (hs : s.step a = some (t, ans)) :
    ∃ (event : Option ConcurrencyTraceEvent) (M' : Memory), Recorded M s event.toList M' t [ans] := by
  obtain ⟨cx, op⟩ := a
  cases op with
  | atomic i op => exact atomic_recorded hd h hs
  | mutex i op => exact mutex_recorded hd h hs

/-! ## Runs -/

/-- What a run records; and a run of a part of the operations records a part of the events,
whichever it is. -/
theorem run_parts [MutexWaiterPolicy π] {ops : List (Context × Op ω)} {answers : List Answer}
    (hd : s.Distinct) (h : s.At M) (hrun : Machine.run step s ops = some (t, answers)) :
    ∃ events M', Recorded M s events M' t answers ∧ ∀ part, part <+: events →
      ∃ pre v os M'', pre <+: ops ∧ Machine.run step s pre = some (v, os) ∧ Recorded M s part M'' v os := by
  induction ops generalizing s M answers with
  | nil =>
    obtain ⟨rfl, rfl⟩ := Machine.run_nil.mp hrun
    refine ⟨[], M, .nothing hd h, fun part hpart => ?_⟩
    rw [List.prefix_nil.mp hpart]
    exact ⟨[], t, [], M, List.nil_prefix, rfl, .nothing hd h⟩
  | cons a ops ih =>
    obtain ⟨u, ans, answers', hstep, hrun', rfl⟩ := Machine.run_cons.mp hrun
    obtain ⟨event, M₁, h₁⟩ := step_recorded hd h hstep
    obtain ⟨events, M', h₂, hparts⟩ := ih h₁.distinct h₁.at_end hrun'
    have hlater : ∀ part, part <+: events → ∃ pre v os M'', pre <+: a :: ops ∧
        Machine.run step s pre = some (v, os) ∧ Recorded M s (event.toList ++ part) M'' v os := by
      intro part hpart
      obtain ⟨pre, v, os, M'', hpre, hv, hrec⟩ := hparts part hpart
      exact ⟨a :: pre, v, ans :: os, M'', List.cons_prefix_cons.mpr ⟨rfl, hpre⟩,
        Machine.run_cons.mpr ⟨u, ans, os, hstep, hv, rfl⟩, h₁.append hrec⟩
    refine ⟨event.toList ++ events, M', h₁.append h₂, fun part hpart => ?_⟩
    -- The part has none of the events, or that of the first operation and others after it.
    cases event with
    | none => exact hlater part hpart
    | some event =>
      rcases List.prefix_cons_iff.mp hpart with rfl | ⟨part', rfl, hpart'⟩
      · exact ⟨[], s, [], M, List.nil_prefix, rfl, .nothing hd h⟩
      · exact hlater part' hpart'

/-- The recorded events say, in their order, what became of the atomics and the mutexes and what
code was told. -/
theorem run_recorded [MutexWaiterPolicy π] {ops : List (Context × Op ω)} {answers : List Answer}
    (hd : s.Distinct) (h : s.At M) (hrun : Machine.run step s ops = some (t, answers)) :
    ∃ (events : List ConcurrencyTraceEvent) (M' : Memory),
      t.recorder.trace = s.recorder.trace ++ events.map TraceEvent.concurrency ∧
      events.foldlM Memory.apply M = some M' ∧ t.At M' ∧
      answers.filterMap Answer.told = events.filterMap (·.event.told) := by
  obtain ⟨events, M', hrec, -⟩ := run_parts hd h hrun
  exact ⟨events, M', hrec.trace, hrec.memory, hrec.at_end, hrec.told⟩

/-- The operations of the task `t`, made when it is polled at time 0. -/
def byTask (t : AsyncRuntime.TaskId) (op : Op Nat) : Context × Op Nat := (⟨some t, some .zero⟩, op)

/-- A counter at its greatest value and a free mutex, and a recorder with the validator. -/
def counterAndLock (validator : Option ReplayConcurrencyValidator) :
    Primitives Nat FifoMutexWaiterPolicy where
  atomics := Table.empty.insert ⟨7, -1⟩
  mutexes := Table.empty.insert (.new 1 ⟨⟩)
  policy := ⟨⟩
  recorder := ⟨[], validator⟩

/-- Task 1 locks the mutex and counts, and task 2 finds the mutex locked and exchanges the counter. -/
def countLocked : List (Context × Op Nat) :=
  [byTask 1 (.mutex 0 .tryLock), byTask 1 (.atomic 0 (.fetchAdd 2 .relaxed)),
    byTask 2 (.mutex 0 .tryLock), byTask 2 (.atomic 0 (.compareExchange 1 5 .seqCst .acquire)),
    byTask 1 (.mutex 0 (.dropGuard 0))]

/-- What that records. -/
def countedTrace : List TraceEvent :=
  [.concurrency ⟨some 0, 1, .mutexAcquire 1⟩,
    .concurrency ⟨some 0, 1, .atomicFetchAdd 7 .relaxed (2 ^ 64 - 1) 1 2⟩,
    .concurrency ⟨some 0, 2, .mutexContended 1 0⟩,
    .concurrency ⟨some 0, 2, .atomicCompareExchange 7 .seqCst .acquire 1 1 5 true⟩,
    .concurrency ⟨some 0, 1, .mutexRelease 1⟩]

theorem distinct_counterAndLock (validator : Option ReplayConcurrencyValidator) :
    (counterAndLock validator).Distinct :=
  ⟨Table.named_empty.insert fun _ _ h => (by cases h), Table.named_empty.insert fun _ _ h => (by cases h)⟩

theorem counterAndLock_at (validator : Option ReplayConcurrencyValidator) :
    (counterAndLock validator).At ⟨fun _ => 2 ^ 64 - 1, fun _ => none⟩ where
  atomics i a h := by
    rcases Table.get_insert_eq_some.mp h with ⟨-, rfl⟩ | h
    · rfl
    · cases h
  mutexes i m h := by
    rcases Table.get_insert_eq_some.mp h with ⟨-, rfl⟩ | h
    · exact Mutex.new_at rfl
    · cases h

theorem run_recorded_countLocked : ∃ t answers,
    Machine.run step (counterAndLock none) countLocked = some (t, answers) ∧
      ∃ (events : List ConcurrencyTraceEvent) (M' : Memory),
        t.recorder.trace = events.map TraceEvent.concurrency ∧
        events.foldlM Memory.apply ⟨fun _ => 2 ^ 64 - 1, fun _ => none⟩ = some M' ∧ t.At M' ∧
        answers.filterMap Answer.told = events.filterMap (·.event.told) :=
  have h : Machine.run step (counterAndLock none) countLocked = some (_, _) := rfl
  ⟨_, _, h, run_recorded (distinct_counterAndLock none) (counterAndLock_at none) h⟩

/-- A run that a validator has no error for, with a trace that has the events of another run, has come
to where that one was after some of its operations, and its code was told the same. -/
theorem run_followed {ω' π' : Type} [DecidableEq ω'] [MutexWaiterPolicy π] [MutexWaiterPolicy π']
    {s' t' : Primitives ω' π'} {ops : List (Context × Op ω)} {ops' : List (Context × Op ω')}
    {answers answers' : List Answer} (hd : s.Distinct) (hd' : s'.Distinct) (h : s.At M)
    (h' : s'.At M) (hempty : s.recorder.trace = [])
    (hrun : Machine.run step s ops = some (t, answers)) {trace : List TraceEvent}
    (htrace : trace.filterMap TraceEvent.concurrency? =
      t.recorder.trace.filterMap TraceEvent.concurrency?)
    (hvalidator : s'.recorder.validator = some (.fromTraceEvents trace))
    (hrun' : Machine.run step s' ops' = some (t', answers'))
    (hok : ∀ v, t'.recorder.validator = some v → v.error = none) :
    ∃ pre u os M', pre <+: ops ∧ Machine.run step s pre = some (u, os) ∧
      answers'.filterMap Answer.told = os.filterMap Answer.told ∧ u.At M' ∧ t'.At M' ∧
      (t'.recorder.trace.length = s'.recorder.trace.length + t.recorder.trace.length → t.At M') := by
  obtain ⟨events, M₁, hrec, hparts⟩ := run_parts hd h hrun
  obtain ⟨events', M₂, hrec', -⟩ := run_parts hd' h' hrun'
  have hexpected : (ReplayConcurrencyValidator.fromTraceEvents trace).rest = events := by
    refine htrace.trans ?_
    rw [hrec.trace, hempty]
    simp [List.filterMap_map, Function.comp_def, TraceEvent.concurrency?]
  have herror := hok _ (hrec'.validator.trans (by rw [hvalidator]; rfl))
  have hprefix : events' <+: events := by
    rw [List.prefix_iff_eq_take, eq_comm, ← List.forall₂_eq_eq_eq, ← hexpected]
    exact (ReplayConcurrencyValidator.cursor.ok_foldl rfl).mp herror
  obtain ⟨pre, u, os, M', hpre, hu, hpart⟩ := hparts events' hprefix
  cases hpart.memory.symm.trans hrec'.memory
  refine ⟨pre, u, os, M₂, hpre, hu, hrec'.told.trans hpart.told.symm, hpart.at_end, hrec'.at_end,
    fun hlen => ?_⟩
  rw [hrec'.trace, hrec.trace, hempty, List.nil_append, List.length_append, List.length_map,
    List.length_map, Nat.add_left_cancel_iff] at hlen
  cases hprefix.eq_of_length hlen
  cases hpart.memory.symm.trans hrec.memory
  exact hrec.at_end

/-- The first three of the operations are followed by a validator for what all of them record. -/
theorem run_followed_countLocked : ∃ t answers t' answers',
    Machine.run step (counterAndLock none) countLocked = some (t, answers) ∧
      Machine.run step (counterAndLock (some (.fromTraceEvents countedTrace))) (countLocked.take 3) =
        some (t', answers') ∧
      ∃ pre u os M', pre <+: countLocked ∧ Machine.run step (counterAndLock none) pre = some (u, os) ∧
        answers'.filterMap Answer.told = os.filterMap Answer.told ∧ u.At M' ∧ t'.At M' ∧
        (t'.recorder.trace.length = 0 + countedTrace.length → t.At M') := by
  have h : Machine.run step (counterAndLock none) countLocked = some (_, _) := rfl
  have h' : Machine.run step (counterAndLock (some (.fromTraceEvents countedTrace)))
    (countLocked.take 3) = some (_, _) := rfl
  refine ⟨_, _, _, _, h, h', ?_⟩
  refine run_followed (distinct_counterAndLock _) (distinct_counterAndLock _) (counterAndLock_at _)
    (counterAndLock_at _) rfl h rfl rfl h' fun v hv => ?_
  cases hv
  rfl

end Primitives

end DesCartes
