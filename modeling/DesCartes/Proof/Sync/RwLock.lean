import DesCartes.Impl.Sync.RwLock
import DesCartes.Proof.Sync.BatchSemaphore

/-!
# Exclusion of readers and writers

`run_exclusive`: in every run of the operations on a lock a write guard is alone, and there are no more
than `MAX_READS` read guards. It follows from where the permits of the lock's semaphore are
(`BatchSemaphore.Semaphore.Inv`) and from how many each guard holds.
-/

namespace DesCartes.RwLock

open BatchSemaphore (Semaphore Acquire)

variable {ω : Type}

/-- The permits are those of the lock, and each future and each guard is worth what its kind takes. -/
structure Inv (l : RwLock ω) : Prop where
  sem : Semaphore.Inv maxReads l.sem
  maxReaders : l.maxReaders = maxReads
  isOpen : l.sem.state.closed = false
  added : l.sem.added = 0
  futures : ∀ i a, l.sem.acquires.get i = some a → a.permits = l.permits (l.futures i)
  guards : ∀ j k, l.sem.permits.get j = some k → k = l.permits (l.guards j)

theorem Inv.new : Inv (RwLock.new : RwLock ω) := by
  refine ⟨.new _, rfl, rfl, rfl, ?_, ?_⟩ <;> simp [RwLock.new, Semaphore.new]

variable {l l' : RwLock ω} {op : Op ω} {ans : BatchSemaphore.Answer ω}

theorem permits_pos (h : Inv l) (mode : Mode) : 0 < l.permits mode := by
  cases mode with
  | read => exact Nat.one_pos
  | write =>
    rw [permits, h.maxReaders]
    decide

theorem Inv.lock (h : Inv l) {mode : Mode} (hs : l.lock mode = some (l', ans)) : Inv l' := by
  obtain ⟨⟨sem, ans'⟩, hsem, e⟩ := Option.map_eq_some_iff.mp hs
  obtain ⟨hinv, -⟩ := h.sem.step hsem
  cases hsem
  cases e
  refine ⟨hinv, h.maxReaders, h.isOpen, h.added, fun i a hi => ?_, h.guards⟩
  rcases Table.get_insert_eq_some.mp hi with ⟨rfl, rfl⟩ | hi
  · simp [Acquire.new, permits]
  · simp only
    rw [Function.update_of_ne (Table.lt_next hi).ne]
    exact h.futures i a hi

theorem Inv.poll (h : Inv l) {i : Nat} {task : Option AsyncRuntime.TaskId} {waker : ω}
    (hs : l.poll i task waker = some (l', ans)) : Inv l' := by
  obtain ⟨⟨sem, ans⟩, hsem, hs⟩ := Option.bind_eq_some_iff.mp hs
  obtain ⟨hinv, hc⟩ := h.sem.poll hsem
  cases hi : l.sem.acquires.get i with
  | none =>
    simp only [Semaphore.step, Semaphore.poll, hi] at hsem
    cases hsem
    cases hs
    exact h
  | some a =>
    have ha := h.futures i a hi
    cases Semaphore.polled_of_poll h.sem.good hi hsem with
    | empty h0 =>
      have := permits_pos h (l.futures i)
      omega
    | pending ha' =>
      cases hs
      refine ⟨hinv, h.maxReaders, hc.trans h.isOpen, h.added, fun j b hj => ?_, h.guards⟩
      rcases (Table.get_set_eq_some hi).mp hj with ⟨rfl, rfl⟩ | ⟨-, hj⟩
      · exact ha'.trans ha
      · exact h.futures j b hj
    | acquired =>
      cases hs
      refine ⟨hinv, h.maxReaders, hc.trans h.isOpen, h.added,
        fun j b hj => h.futures j b (Table.get_erase_eq_some.mp hj).2,
        fun j k hj => ?_⟩
      rcases Table.get_insert_eq_some.mp hj with ⟨rfl, rfl⟩ | hj
      · simp only [Function.update_self]
        exact ha
      · simp only
        rw [Function.update_of_ne (Table.lt_next hj).ne]
        exact h.guards j k hj
    | closed hclosed =>
      cases hs

theorem Inv.tryLock (h : Inv l) {mode : Mode} (hs : l.tryLock mode = some (l', ans)) : Inv l' := by
  obtain ⟨⟨sem, ans'⟩, hsem, e⟩ := Option.map_eq_some_iff.mp hs
  obtain ⟨hinv, hc⟩ := h.sem.step hsem
  have hc := (hc (by simp)).trans h.isOpen
  simp only [Semaphore.step, Semaphore.tryAcquireMany, Option.some.injEq] at hsem
  split at hsem
  · cases hsem
    cases e
    exact ⟨hinv, h.maxReaders, hc, h.added, h.futures, h.guards⟩
  · cases hsem
    cases e
    refine ⟨hinv, h.maxReaders, hc, h.added, h.futures, fun j k hj => ?_⟩
    rcases Table.get_insert_eq_some.mp hj with ⟨rfl, rfl⟩ | hj
    · simp [permits]
    · simp only
      rw [Function.update_of_ne (Table.lt_next hj).ne]
      exact h.guards j k hj

theorem Inv.step (h : Inv l) (hs : l.step op = some (l', ans)) : Inv l' := by
  cases op with
  | read => exact h.lock hs
  | write => exact h.lock hs
  | poll i task waker => exact h.poll hs
  | dropFuture i =>
    obtain ⟨⟨sem, ans'⟩, hsem, e⟩ := Option.map_eq_some_iff.mp hs
    cases e
    obtain ⟨hinv, hc⟩ := h.sem.step hsem
    have hc := (hc (by simp)).trans h.isOpen
    simp only [Semaphore.step, Semaphore.dropAcquire] at hsem
    split at hsem
    · cases hsem
      exact h
    · obtain ⟨r, -, hsem⟩ := Option.map_eq_some_iff.mp hsem
      cases hsem
      exact ⟨hinv, h.maxReaders, hc, h.added, fun j b hj => h.futures j b
        (Table.get_erase_eq_some.mp hj).2, h.guards⟩
  | tryRead => exact h.tryLock hs
  | tryWrite => exact h.tryLock hs
  | dropGuard j =>
    obtain ⟨⟨sem, ans'⟩, hsem, e⟩ := Option.map_eq_some_iff.mp hs
    cases e
    obtain ⟨hinv, hc⟩ := h.sem.step hsem
    have hc := (hc (by simp)).trans h.isOpen
    simp only [Semaphore.step, Semaphore.dropPermit] at hsem
    split at hsem
    · cases hsem
      exact h
    · obtain ⟨r, -, hsem⟩ := Option.map_eq_some_iff.mp hsem
      cases hsem
      exact ⟨hinv, h.maxReaders, hc, h.added, h.futures,
        fun j b hj => h.guards j b (Table.get_erase_eq_some.mp hj).2⟩

theorem Inv.held_le (h : Inv l) : l.sem.permits.total id ≤ maxReads := by
  have := h.sem.conserved
  rw [h.added] at this
  omega

/-- A write guard is the only guard, and there are at most `MAX_READS` read guards. -/
theorem run_exclusive {ops : List (Op ω)} {answers : List (BatchSemaphore.Answer ω)}
    (h : Machine.run step (.new : RwLock ω) ops = some (l, answers)) :
    (∀ j k mode, l.guard? j = some .write → l.guard? k = some mode → k = j) ∧ l.readGuards.card ≤ maxReads := by
  have hinv : Inv l := Machine.run_invariant (fun _ _ _ _ hl hs => hl.step hs) .new h
  have hheld := hinv.held_le
  refine ⟨fun j k mode hj hk => ?_, ?_⟩
  · obtain ⟨p, hp, hmode⟩ := Option.map_eq_some_iff.mp hj
    obtain ⟨q, hq, -⟩ := Option.map_eq_some_iff.mp hk
    by_contra hne
    have hsum : p + q ≤ l.sem.permits.total id := Table.add_le_total (f := id) hp hq hne
    have hp' := hinv.guards j p hp
    have hq' := hinv.guards k q hq
    have hpos := permits_pos hinv (l.guards k)
    rw [hmode, permits, hinv.maxReaders] at hp'
    omega
  · refine (Table.card_le_total fun j hj => ?_).trans hheld
    obtain ⟨p, hp, hmode⟩ := Option.map_eq_some_iff.mp (Finset.mem_filter.mp hj).2
    have := hinv.guards j p hp
    rw [hmode, permits] at this
    exact ⟨p, hp, this.ge⟩

theorem run_exclusive_write :
    ∃ l answers, Machine.run step (.new : RwLock Nat) [.tryRead, .write, .poll 0 (some 1) 0, .dropGuard 0,
        .poll 0 (some 1) 0, .tryRead] = some (l, answers) ∧ l.guard? 1 = some .write ∧
      ∀ k mode, l.guard? k = some mode → k = 1 := by
  have h : (Machine.run step (.new : RwLock Nat) [.tryRead, .write, .poll 0 (some 1) 0, .dropGuard 0,
      .poll 0 (some 1) 0, .tryRead]).bind (fun r => r.1.guard? 1) = some .write := by decide +kernel
  obtain ⟨⟨l, answers⟩, hr, hg⟩ := Option.bind_eq_some_iff.mp h
  exact ⟨l, answers, hr, hg, fun k mode hk => (run_exclusive hr).1 1 k mode hg hk⟩

end DesCartes.RwLock
