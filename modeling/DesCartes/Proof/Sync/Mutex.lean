import DesCartes.Framework.Machine
import DesCartes.Impl.Sync.Mutex

/-!
# Exclusion and progress of the mutex

`run_progress`: in every run at most one guard is alive; and as long as no guard is dropped while a
waiter is queued whose future is gone, no future is dropped between its wake and its poll, and no future
takes over the entry of another (`Considerate`), a free mutex for which a future waits has woken one.

The futures of `lock` leave their entries behind when they are dropped, so the condition cannot be left
out (`wokenDropped_stuck`).
-/

namespace DesCartes.Mutex

variable {ω π : Type} [DecidableEq ω]

/-- The future `i` is alive and its last poll was pending. -/
def Waits (m : Mutex ω π) (i : Nat) : Prop := ∃ f, m.futures.get i = some f ∧ f.waker ≠ none

/-- The future `i` waits, and has been woken since its last poll. -/
def Woken (m : Mutex ω π) (i : Nat) : Prop := ∃ f, m.futures.get i = some f ∧ f.waker ≠ none ∧ f.woken = true

/-- When the mutex is free and a future waits for it, one that waits has been woken. -/
def Progress (m : Mutex ω π) : Prop := m.state.locked = false → (∃ i, m.Waits i) → ∃ i, m.Woken i

/-- How a mutex has to be used: while futures wait, a guard is only dropped when every entry is that of
a future that is alive; while the mutex is free, a future that was woken is not dropped as long as another
one waits; and a poll that finds the mutex locked does not take the entry of its task away from another
future that waits for a wake. -/
def Considerate (m : Mutex ω π) : Context × Op ω → Prop
  | (_, .dropGuard g) => m.guards.get g = some () → (∃ i, m.Waits i) →
      ∀ e ∈ m.state.waiters, ∃ i f, m.futures.get i = some f ∧ f.waker = some e.waker
  | (_, .dropFuture i) => m.state.locked = false → m.Woken i → ∀ j, m.Waits j → j = i
  | (cx, .poll i waker) => m.state.locked = true → ∀ taskId w, cx.taskId = some taskId →
      m.state.waiters.find? (·.taskId = taskId) = some w → w.waker ≠ waker →
      ∀ j f, j ≠ i → m.futures.get j = some f → f.waker = some w.waker → f.woken = true
  | _ => True

/-! ## Steps -/

/-- The mutex is free again, and the guard `g` is gone. -/
def free (m : Mutex ω π) (cx : Context) (taskId : AsyncRuntime.TaskId) (g : Nat) : Mutex ω π :=
  { { m with guards := m.guards.erase g }.record (.mutexRelease m.mutexId taskId cx.timeNanos) with
    state := { m.state with locked := false, ownerTaskId := none } }

/-- What an operation can do that does not panic. -/
inductive Stepped [MutexWaiterPolicy π] (m : Mutex ω π) (cx : Context) : Op ω → Mutex ω π → Prop where
  /-- The future or the guard does not exist any more. -/
  | gone (op : Op ω) : Stepped m cx op m
  | lock : Stepped m cx .lock { m with futures := m.futures.insert ⟨none, false⟩ }
  | contended {i : Nat} {f : LockFuture ω} {taskId : AsyncRuntime.TaskId} (waker : ω) (hi : m.futures.get i = some f)
      (ht : cx.taskId = some taskId) (hl : m.state.locked = true) :
      Stepped m cx (.poll i waker) { m.contend cx taskId with
        state := m.state.enqueue taskId waker, futures := m.futures.set i ⟨some waker, false⟩ }
  | acquired {taskId : AsyncRuntime.TaskId} (i : Nat) (waker : ω) (hl : m.state.locked = false) :
      Stepped m cx (.poll i waker) { m.acquire cx taskId with futures := m.futures.erase i }
  | dropFuture (i : Nat) : Stepped m cx (.dropFuture i) { m with futures := m.futures.erase i }
  | refused {taskId : AsyncRuntime.TaskId} : Stepped m cx .tryLock (m.contend cx taskId)
  | taken {taskId : AsyncRuntime.TaskId} (hl : m.state.locked = false) : Stepped m cx .tryLock (m.acquire cx taskId)
  | freed {g : Nat} {taskId : AsyncRuntime.TaskId} (hg : m.guards.get g = some ()) (hw : m.state.waiters = []) :
      Stepped m cx (.dropGuard g) (m.free cx taskId g)
  | released {g : Nat} {taskId : AsyncRuntime.TaskId} {waiter : Waiter ω} (hg : m.guards.get g = some ())
      (hw : m.state.waiters[(m.chosen cx).1]? = some waiter) :
      Stepped m cx (.dropGuard g) ({ m.free cx taskId g with
        policy := (m.chosen cx).2
        state := { (m.free cx taskId g).state with waiters := m.state.waiters.eraseIdx (m.chosen cx).1 } }.wake waiter.waker)
  | wake (waker : ω) : Stepped m cx (.wake waker) (m.wake waker)

section
variable [MutexWaiterPolicy π] {m m' : Mutex ω π} {cx : Context} {op : Op ω} {ans : Answer}

theorem stepped_of_step (hs : m.step (cx, op) = some (m', ans)) : Stepped m cx op m' := by
  cases op with
  | lock => cases hs; exact .lock
  | poll i waker =>
    simp only [step, poll] at hs
    split at hs
    · cases hs
      exact .gone _
    · cases hs
    · rename_i hi ht
      split at hs
      · rename_i hl
        cases hs
        exact .contended waker hi ht hl
      · rename_i hl
        cases hs
        exact .acquired i waker (by simpa using hl)
  | dropFuture i => cases hs; exact .dropFuture i
  | tryLock =>
    simp only [step, tryLock] at hs
    split at hs
    · cases hs
    · split at hs
      · cases hs
        exact .refused
      · rename_i hl
        cases hs
        exact .taken (by simpa using hl)
  | dropGuard g =>
    simp only [step, dropGuard] at hs
    split at hs
    · cases hs
      exact .gone _
    · cases hs
    · rename_i hg ht
      split at hs
      · rename_i hw
        cases hs
        exact .freed hg hw
      · split at hs
        · cases hs
        · rename_i waiter hw
          cases hs
          exact .released hg hw
  | wake waker => cases hs; exact .wake waker

end

/-! ## Exclusion -/

/-- There is a guard exactly when the mutex is locked. -/
def Exclusive (m : Mutex ω π) : Prop := m.guards.total (fun _ => 1) = if m.state.locked then 1 else 0

section
variable {m m' : Mutex ω π}

omit [DecidableEq ω] in
theorem Exclusive.acquire (h : m.Exclusive) (hl : m.state.locked = false) (cx : Context)
    (taskId : AsyncRuntime.TaskId) :
    (m.acquire cx taskId).Exclusive := by
  simp only [Exclusive, hl] at h
  simp [Exclusive, Mutex.acquire, record, h]

omit [DecidableEq ω] in
theorem Exclusive.total_erase (h : m.Exclusive) {g : Nat} (hg : m.guards.get g = some ()) :
    (m.guards.erase g).total (fun _ => 1) = 0 := by
  have := Table.total_erase (f := fun _ => 1) hg
  simp only [Exclusive] at h
  split at h <;> omega

omit [DecidableEq ω] in
theorem locked_enqueue (s : State ω) (taskId : AsyncRuntime.TaskId) (waker : ω) :
    (s.enqueue taskId waker).locked = s.locked := by
  simp only [State.enqueue]
  split <;> rfl

theorem Exclusive.step [MutexWaiterPolicy π] (h : m.Exclusive) {cx : Context} {op : Op ω}
    (hs : Stepped m cx op m') :
    m'.Exclusive := by
  cases hs with
  | gone => exact h
  | lock => exact h
  | contended waker hi ht hl =>
    simp only [Exclusive, locked_enqueue]
    exact h
  | acquired i waker hl => exact h.acquire hl cx _
  | dropFuture i => exact h
  | refused => exact h
  | taken hl => exact h.acquire hl cx _
  | freed hg hw => exact h.total_erase hg
  | released hg hw => exact h.total_erase hg
  | wake waker => exact h

omit [DecidableEq ω] in
theorem Exclusive.eq_of_live (h : m.Exclusive) {i j : Nat} (hi : m.guards.get i = some ())
    (hj : m.guards.get j = some ()) :
    j = i := by
  by_contra hne
  have := Table.add_le_total (f := fun _ => 1) hi hj hne
  simp only [Exclusive] at h
  split at h <;> omega

end

/-! ## Progress -/

/-- Every future that waits and was not woken has an entry. -/
def Entered (m : Mutex ω π) : Prop :=
  ∀ i f w, m.futures.get i = some f → f.waker = some w → f.woken = false → ∃ e ∈ m.state.waiters, e.waker = w

section
variable {m m' : Mutex ω π}

/-- What a wake does to the futures. -/
theorem get_wake {waker : ω} {i : Nat} {f : LockFuture ω} : (m.wake waker).futures.get i = some f ↔
    ∃ f₀, m.futures.get i = some f₀ ∧ (if f₀.waker = some waker then { f₀ with woken := true } else f₀) = f :=
  Table.get_map_eq_some

/-- A wake leaves out only the futures that it wakes. -/
theorem Entered.of_wake {waker : ω}
    (h : ∀ i f w, m.futures.get i = some f → f.waker = some w → f.woken = false → w ≠ waker →
      ∃ e ∈ m.state.waiters, e.waker = w) :
    (m.wake waker).Entered := by
  intro i f w hi hw hf
  obtain ⟨f₀, hi₀, rfl⟩ := get_wake.mp hi
  split at hw
  · rename_i he
    rw [if_pos he] at hf
    cases hf
  · rename_i he
    rw [if_neg he] at hf
    exact h i f₀ w hi₀ hw hf fun e => he (e ▸ hw)

theorem woken_wake {waker : ω} {i : Nat} (h : m.Woken i) : (m.wake waker).Woken i := by
  obtain ⟨f, hi, hw, hf⟩ := h
  refine ⟨_, get_wake.mpr ⟨f, hi, rfl⟩, ?_, ?_⟩
  · split <;> exact hw
  · split
    · rfl
    · exact hf

theorem waits_of_wake {waker : ω} {i : Nat} (h : (m.wake waker).Waits i) : m.Waits i := by
  obtain ⟨f, hi, hw⟩ := h
  obtain ⟨f₀, hi₀, rfl⟩ := get_wake.mp hi
  refine ⟨f₀, hi₀, ?_⟩
  split at hw <;> exact hw

/-- Where the first entry of a kind is changed, only that one is not there any more. -/
theorem mem_modify_findIdx? {α : Type} {p : α → Bool} {f : α → α} {l : List α} {k : Nat}
    (h : l.findIdx? p = some k) :
    ∃ a, l.find? p = some a ∧ f a ∈ l.modify k f ∧ ∀ b ∈ l, b ∈ l.modify k f ∨ b = a := by
  induction l generalizing k with
  | nil => cases h
  | cons c l ih =>
    rw [List.findIdx?_cons] at h
    split at h
    · rename_i hc
      cases h
      refine ⟨c, List.find?_cons_of_pos hc, by simp, fun b hb => ?_⟩
      rcases List.mem_cons.mp hb with rfl | hb
      · exact .inr rfl
      · exact .inl (by simp [hb])
    · rename_i hc
      obtain ⟨k, hk, rfl⟩ := Option.map_eq_some_iff.mp h
      obtain ⟨a, ha, hfa, hl⟩ := ih hk
      refine ⟨a, by rw [List.find?_cons_of_neg hc, ha], by simp [hfa], fun b hb => ?_⟩
      rcases List.mem_cons.mp hb with rfl | hb
      · exact .inl (by simp)
      · exact (hl b hb).imp_left fun h => by simp [h]

omit [DecidableEq ω] in
/-- The entries after a poll that found the mutex locked: one has the waker, and only the task's own was
changed for that. -/
theorem mem_enqueue (s : State ω) (taskId : AsyncRuntime.TaskId) (waker : ω) :
    (∃ e ∈ (s.enqueue taskId waker).waiters, e.waker = waker) ∧
    ∀ e ∈ s.waiters, e ∈ (s.enqueue taskId waker).waiters ∨ s.waiters.find? (·.taskId = taskId) = some e := by
  simp only [State.enqueue]
  split
  · rename_i k hk
    obtain ⟨a, ha, hfa, hl⟩ := mem_modify_findIdx? (f := fun w => { w with waker }) hk
    refine ⟨⟨_, hfa, rfl⟩, fun e he => (hl e he).imp_right fun h => ?_⟩
    rw [h]
    exact ha
  · exact ⟨⟨_, List.mem_append_right _ (List.mem_singleton_self _), rfl⟩,
      fun e he => .inl (List.mem_append_left _ he)⟩

/-- A future that waits has an entry or has been woken, and one has been woken when it can go on. -/
structure Kept (m : Mutex ω π) : Prop where
  entered : m.Entered
  progress : m.Progress

theorem Kept.step [MutexWaiterPolicy π] (h : m.Kept) {cx : Context} {op : Op ω} (hc : m.Considerate (cx, op))
    (hs : Stepped m cx op m') : m'.Kept := by
  cases hs with
  | gone => exact h
  | lock =>
    have hget : ∀ i f, (m.futures.insert (⟨none, false⟩ : LockFuture ω)).get i = some f → f.waker ≠ none →
        m.futures.get i = some f := by
      intro i f hi hw
      rcases Table.get_insert_eq_some.mp hi with ⟨-, rfl⟩ | hi
      · exact absurd rfl hw
      · exact hi
    refine ⟨fun i f w hi hw hf => h.entered i f w (hget i f hi (by simp [hw])) hw hf,
      fun hl ⟨i, f, hi, hw⟩ => ?_⟩
    obtain ⟨j, g, hj, hg⟩ := h.progress hl ⟨i, f, hget i f hi hw, hw⟩
    exact ⟨j, g, Table.get_insert_eq_some.mpr (.inr hj), hg⟩
  | contended waker hi ht hl =>
    obtain ⟨hnew, hold⟩ := mem_enqueue m.state _ waker
    refine ⟨fun j g w hj hw hg => ?_, fun hl' => ?_⟩
    · rcases (Table.get_set_eq_some hi).mp hj with ⟨-, rfl⟩ | ⟨hji, hj⟩
      · cases hw
        exact hnew
      · obtain ⟨e, he, rfl⟩ := h.entered j g w hj hw hg
        rcases hold e he with he | hfind
        · exact ⟨e, he, rfl⟩
        · by_cases hwaker : e.waker = waker
          · rw [hwaker]
            exact hnew
          · rw [hc hl _ e ht hfind hwaker j g hji hj hw] at hg
            cases hg
    · rw [locked_enqueue, hl] at hl'
      cases hl'
  | acquired i waker hl =>
    refine ⟨fun j f w hj hw hf => h.entered j f w (Table.get_erase_eq_some.mp hj).2 hw hf, fun hl' => ?_⟩
    cases hl'
  | dropFuture i =>
    refine ⟨fun j f w hj hw hf => h.entered j f w (Table.get_erase_eq_some.mp hj).2 hw hf,
      fun hl ⟨j, f, hj, hw⟩ => ?_⟩
    obtain ⟨hji, hj'⟩ := Table.get_erase_eq_some.mp hj
    obtain ⟨k, g, hk, hg⟩ := h.progress hl ⟨j, f, hj', hw⟩
    by_cases hki : k = i
    · subst hki
      exact absurd (hc hl ⟨g, hk, hg⟩ j ⟨f, hj', hw⟩) hji
    · exact ⟨k, g, Table.get_erase_eq_some.mpr ⟨hki, hk⟩, hg⟩
  | refused => exact ⟨h.entered, h.progress⟩
  | taken hl =>
    refine ⟨h.entered, fun hl' => ?_⟩
    cases hl'
  | freed hg hw =>
    refine ⟨h.entered, fun _ ⟨i, f, hi, hf⟩ => ⟨i, f, hi, hf, ?_⟩⟩
    -- without an entry it has been woken
    obtain ⟨w, hfw⟩ := Option.ne_none_iff_exists'.mp hf
    by_contra hno
    obtain ⟨e, he, -⟩ := h.entered i f w hi hfw (by simpa using hno)
    rw [hw] at he
    cases he
  | released hg hw =>
    rename_i g taskId waiter
    constructor
    · refine Entered.of_wake fun i f w hi hfw hf hne => ?_
      obtain ⟨e, he, rfl⟩ := h.entered i f w hi hfw hf
      refine ⟨e, ?_, rfl⟩
      obtain ⟨k, hk, rfl⟩ := List.getElem_of_mem he
      refine List.mem_eraseIdx_iff_getElem.mpr ⟨k, hk, ?_, rfl⟩
      rintro rfl
      rw [List.getElem?_eq_getElem hk] at hw
      exact hne (by rw [Option.some.inj hw])
    · -- the entry that the policy chooses is that of a future that is alive
      rintro - ⟨i, hi⟩
      obtain ⟨j, f, hj, hf⟩ := hc hg ⟨i, waits_of_wake hi⟩ waiter (List.mem_of_getElem? hw)
      exact ⟨j, _, get_wake.mpr ⟨f, hj, rfl⟩, by simp [hf], by simp [hf]⟩
  | wake waker =>
    refine ⟨Entered.of_wake fun i f w hi hw hf _ => h.entered i f w hi hw hf, fun hl ⟨i, hi⟩ => ?_⟩
    obtain ⟨j, hj⟩ := h.progress hl ⟨i, waits_of_wake hi⟩
    exact ⟨j, woken_wake hj⟩

end

/-! ## Runs -/

/-- At most one guard is alive; and in a run whose steps are all considerate, whenever the mutex is free
and a future waits for it, one that waits has been woken. -/
theorem run_progress [MutexWaiterPolicy π] {m : Mutex ω π} {mutexId : Nat} {policy : π} {ops : List (Context × Op ω)}
    {answers : List Answer} (h : Machine.run step (.new mutexId policy) ops = some (m, answers)) :
    (∀ i j, m.guards.get i = some () → m.guards.get j = some () → j = i) ∧
    (Machine.Along Considerate step (.new mutexId policy) ops → m.Progress) := by
  constructor
  · have h₀ : (Mutex.new mutexId policy : Mutex ω π).Exclusive := rfl
    have hex := Machine.run_invariant (P := Exclusive)
      (fun m op m' ans hm hs => hm.step (stepped_of_step hs)) h₀ h
    exact fun i j hi hj => hex.eq_of_live hi hj
  · intro hC
    have h₀ : (Mutex.new mutexId policy : Mutex ω π).Kept := by
      refine ⟨fun i f w hi => ?_, fun _ ⟨i, f, hi, _⟩ => ?_⟩ <;> cases hi
    exact (hC.invariant (P := Kept) (fun m op m' ans hm hc hs => hm.step hc
      (stepped_of_step hs)) h₀ h).progress

/-- The operations of the task `t` on a mutex, made when it is polled at time 0. -/
def byTask (t : AsyncRuntime.TaskId) (op : Op Nat) : Context × Op Nat := (⟨some t, some .zero⟩, op)

/-- Task 1 locks the mutex, tasks 2 and 3 wait for it, and task 1 releases it. -/
def contention : List (Context × Op Nat) :=
  [byTask 1 .lock, byTask 1 (.poll 0 1), byTask 2 .lock, byTask 2 (.poll 1 2), byTask 3 .lock, byTask 3 (.poll 2 3),
    byTask 1 (.dropGuard 0)]

theorem run_progress_contention : ∃ m answers,
    Machine.run step (.new 1 FifoMutexWaiterPolicy.mk : Mutex Nat FifoMutexWaiterPolicy) contention = some (m, answers) ∧
      m.state.locked = false ∧ m.Waits 2 ∧ m.Progress := by
  have h : Machine.run step (.new 1 FifoMutexWaiterPolicy.mk : Mutex Nat FifoMutexWaiterPolicy) contention =
    some (_, _) := rfl
  refine ⟨_, _, h, rfl, ⟨_, rfl, by simp⟩, (run_progress h).2 ?_⟩
  refine ⟨trivial, fun m _ e => ?_⟩
  cases e
  refine ⟨fun hl => (by cases hl), fun m _ e => ?_⟩
  cases e
  refine ⟨trivial, fun m _ e => ?_⟩
  cases e
  refine ⟨fun _ t w ht hf => (by cases ht; cases hf), fun m _ e => ?_⟩
  cases e
  refine ⟨trivial, fun m _ e => ?_⟩
  cases e
  refine ⟨fun _ t w ht hf => (by cases ht; cases hf), fun m _ e => ?_⟩
  cases e
  -- the entries are those of the futures of tasks 2 and 3
  refine ⟨fun _ _ e he => ?_, fun _ _ _ => trivial⟩
  rcases List.mem_cons.mp he with rfl | he
  · exact ⟨1, _, rfl, rfl⟩
  · cases List.mem_singleton.mp he
    exact ⟨2, _, rfl, rfl⟩

/-- When the future that was woken is dropped before it is polled, the mutex stays free and nobody is
woken, though the future of task 3 waits. -/
theorem wokenDropped_stuck : ∃ m answers,
    Machine.run step (.new 1 FifoMutexWaiterPolicy.mk : Mutex Nat FifoMutexWaiterPolicy)
      (contention ++ [byTask 2 (.dropFuture 1)]) = some (m, answers) ∧ ¬ m.Progress := by
  have h : Machine.run step (.new 1 FifoMutexWaiterPolicy.mk : Mutex Nat FifoMutexWaiterPolicy)
    (contention ++ [byTask 2 (.dropFuture 1)]) = some (_, _) := rfl
  refine ⟨_, _, h, fun hp => ?_⟩
  obtain ⟨i, f, hi, hw, hf⟩ := hp rfl ⟨2, _, rfl, by simp⟩
  have hlt : i < 3 := Table.lt_next hi
  obtain rfl | rfl | rfl : i = 0 ∨ i = 1 ∨ i = 2 := by omega
  · cases hi
  · cases hi
  · cases hi
    cases hf

end DesCartes.Mutex
