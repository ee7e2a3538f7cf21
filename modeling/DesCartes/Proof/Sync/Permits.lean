import DesCartes.Proof.Sync.BatchSemaphore

/-!
# The permits of a semaphore

What every run of the operations on a semaphore keeps, whichever futures are dropped and when:

* `run_conserved`: no permit is lost or made, and only the first waiter is given some of its permits;
* `run_backed`: what is granted was there, also when the semaphore is closed;
* `run_first_come`: waiters are satisfied in the order in which they were queued, and nobody passes them;
* `run_close_available_iff`: what is available once a semaphore is closed and all that was taken has
  come back.
-/

namespace DesCartes.BatchSemaphore

variable {ω : Type}

/-- The permits that an operation adds. -/
def Op.added : Op ω → Nat
  | .addPermits permits => permits
  | _ => 0

namespace Semaphore

variable {m m' : Semaphore ω} {n : Nat} {op : Op ω} {ops : List (Op ω)} {ans : Answer ω} {answers : List (Answer ω)}

theorem inv_of_run (h : Machine.run step (.new n) ops = some (m, answers)) : Inv n m :=
  Machine.run_invariant (fun _ _ _ _ hinv hs => (hinv.step hs).1) (Inv.new n) h

/-! ## Runs that do not panic -/

theorem addPermitsLocked_isSome {s : State ω} {k : Nat} (h : s.permits + k ≤ usizeMax) :
    ∃ s' woken, s.addPermitsLocked k = some (s', woken) :=
  ⟨_, _, if_pos h⟩

theorem addPermits_isSome {s : State ω} {k : Nat} (h : s.permits + k ≤ usizeMax) :
    ∃ s' woken, s.addPermits k = some (s', woken) := by
  simp only [State.addPermits]
  split
  · exact ⟨s, [], rfl⟩
  · exact addPermitsLocked_isSome h

theorem permits_le_ledger (s : State ω) (acquires : Table Acquire) : s.permits ≤ ledger s acquires := by
  simp only [ledger]
  omega

theorem drop_isSome {s : State ω} {acquires : Table Acquire} {i : Nat} {a : Acquire}
    (h : Good s acquires) (hi : acquires.get i = some a) (hfit : ledger s acquires ≤ usizeMax) :
    ∃ s' woken, a.drop s = some (s', woken) := by
  simp only [Acquire.drop, h.tracked.running i a hi, Bool.false_eq_true, if_false, Acquire.cancelLocked]
  split
  · exact ⟨s, [], rfl⟩
  · rename_i id ha
    split
    · rename_i hid
      obtain ⟨-, hl⟩ := h.erase_satisfied hi ha hid
      refine addPermitsLocked_isSome ?_
      have := permits_le_ledger { s with ready := s.ready.erase id } (acquires.erase i)
      show s.permits + a.permits ≤ usizeMax
      simp only at this
      omega
    · rename_i hid
      simp only [State.removeWaiterLocked]
      cases hf : s.queue.find? (·.waiterId = id) with
      | none => exact ⟨_, _, rfl⟩
      | some w =>
        obtain ⟨-, hl⟩ := h.erase_queued hi ha hid hf
        have := permits_le_ledger ({ s with queue := s.queue.eraseP (·.waiterId = id) }.log (.cancelled id))
          (acquires.erase i)
        simp only
        split
        · exact ⟨_, _, rfl⟩
        · refine addPermitsLocked_isSome ?_
          omega

theorem poll_isSome (s : State ω) (a : Acquire) {task : Option AsyncRuntime.TaskId} (waker : ω)
    (ht : task ≠ none) :
    ∃ result a' s', a.poll task waker s = some (result, a', s') := by
  simp only [Acquire.poll, if_neg ht]
  repeat' split
  all_goals exact ⟨_, _, _, rfl⟩

theorem step_isSome (h : Inv n m) (hfit : n + m.added + op.added ≤ usizeMax)
    (ht : ∀ i waker, op ≠ .poll i none waker) :
    ∃ m' ans, m.step op = some (m', ans) := by
  have hcons := h.conserved
  have hle := permits_le_ledger m.state m.acquires
  cases op with
  | acquireMany permits => exact ⟨_, _, rfl⟩
  | poll i task waker =>
    simp only [step, poll]
    split
    · exact ⟨_, _, rfl⟩
    · rename_i a hi
      split
      · exact ⟨_, _, rfl⟩
      · rename_i hpos
        have ht : task ≠ none := fun e => ht i waker (by rw [e])
        obtain ⟨result, a', s', hp⟩ := poll_isSome m.state a waker ht
        rw [hp, Option.bind_some]
        obtain ⟨-, -, ⟨rfl, -⟩ | ⟨rfl, hdone, -⟩ | ⟨rfl, -, rfl, rfl⟩⟩ := h.good.poll hi hpos hp
        · exact ⟨_, _, rfl⟩
        · simp only [Acquire.drop, hdone, if_true, Option.map_some]
          exact ⟨_, _, rfl⟩
        · obtain ⟨s₂, woken, hd⟩ := drop_isSome h.good hi (by omega)
          simp only [hd, Option.map_some]
          exact ⟨_, _, rfl⟩
  | dropAcquire i =>
    simp only [step, dropAcquire]
    split
    · exact ⟨_, _, rfl⟩
    · rename_i a hi
      obtain ⟨s', woken, hd⟩ := drop_isSome h.good hi (by omega)
      simp only [hd, Option.map_some]
      exact ⟨_, _, rfl⟩
  | tryAcquireMany permits => exact ⟨_, _, rfl⟩
  | addPermits permits =>
    simp only [Op.added] at hfit
    obtain ⟨s', woken, ha⟩ := addPermits_isSome (s := m.state) (k := permits) (by omega)
    simp only [step, addPermits, ha, Option.map_some]
    exact ⟨_, _, rfl⟩
  | dropPermit j =>
    simp only [step, dropPermit]
    split
    · exact ⟨_, _, rfl⟩
    · rename_i permits hj
      have : permits ≤ m.permits.total id := Table.le_total (f := id) hj
      obtain ⟨s', woken, ha⟩ := addPermits_isSome (s := m.state) (k := permits) (by omega)
      simp only [ha, Option.map_some]
      exact ⟨_, _, rfl⟩
  | forget j =>
    simp only [step, forget]
    split
    · exact ⟨_, _, rfl⟩
    · rename_i permits hj
      have hset : (m.permits.set j 0).get j = some 0 := (Table.get_set_eq_some hj).mpr (.inl ⟨rfl, rfl⟩)
      simp only [dropPermit, hset, State.addPermits, if_true, Option.map_some]
      exact ⟨_, _, rfl⟩
  | close => exact ⟨_, _, rfl⟩

theorem dropPermit_added {j : Nat} (hs : m.dropPermit j = some (m', ans)) : m'.added = m.added := by
  simp only [dropPermit] at hs
  split at hs
  · cases hs
    rfl
  · obtain ⟨r, -, hs⟩ := Option.map_eq_some_iff.mp hs
    cases hs
    rfl

theorem step_added (h : Inv n m) (hs : m.step op = some (m', ans)) : m'.added = m.added + op.added := by
  cases op with
  | acquireMany permits => cases hs; rfl
  | poll i task waker =>
    cases hi : m.acquires.get i with
    | none =>
      simp only [step, poll, hi] at hs
      cases hs
      rfl
    | some a => cases polled_of_poll h.good hi hs <;> rfl
  | dropAcquire i =>
    simp only [step, dropAcquire] at hs
    split at hs
    · cases hs
      rfl
    · obtain ⟨r, -, hs⟩ := Option.map_eq_some_iff.mp hs
      cases hs
      rfl
  | tryAcquireMany permits =>
    simp only [step, tryAcquireMany, Option.some.injEq] at hs
    split at hs <;> cases hs <;> rfl
  | addPermits permits =>
    obtain ⟨r, -, hs⟩ := Option.map_eq_some_iff.mp hs
    cases hs
    rfl
  | dropPermit j => exact dropPermit_added hs
  | forget j =>
    simp only [step, forget] at hs
    split at hs
    · cases hs
      rfl
    · have := dropPermit_added hs
      exact this
  | close => cases hs; rfl

theorem run_added (h : Inv n m) (hr : Machine.run step m ops = some (m', answers)) :
    m'.added = m.added + (ops.map Op.added).sum := by
  induction ops generalizing m answers with
  | nil => rw [(Machine.run_nil.mp hr).1]; rfl
  | cons op ops ih =>
    obtain ⟨m₁, ans, answers', hs, hr, -⟩ := Machine.run_cons.mp hr
    rw [ih (h.step hs).1 hr, step_added h hs, List.map_cons, List.sum_cons, Nat.add_assoc]

/-- A run in which the permits always fit a `usize` does not panic, if futures are polled by tasks only. -/
theorem run_isSome (hfit : n + (ops.map Op.added).sum ≤ usizeMax) (ht : ∀ i waker, .poll i none waker ∉ ops) :
    ∃ m answers, Machine.run step (.new n : Semaphore ω) ops = some (m, answers) := by
  refine Machine.run_isSome (P := fun m ops => Inv n m ∧ n + m.added + (ops.map Op.added).sum ≤ usizeMax ∧
    ∀ i waker, .poll i none waker ∉ ops) (fun m op ops ⟨hinv, hfit, ht⟩ => ?_) ⟨Inv.new n, hfit, ht⟩
  simp only [List.map_cons, List.sum_cons] at hfit
  obtain ⟨m', ans, hs⟩ : ∃ m' ans, m.step op = some (m', ans) :=
    step_isSome hinv (by omega) fun i waker e => ht i waker (e ▸ List.mem_cons_self)
  refine ⟨m', ans, hs, (hinv.step hs).1, ?_, fun i waker hmem => ht i waker (List.mem_cons_of_mem _ hmem)⟩
  rw [step_added hinv hs]
  omega

/-! ## Conservation -/

theorem closed_of_run (hc : .close ∉ ops) (h : Machine.run step (.new n) ops = some (m, answers)) :
    m.state.closed = false := by
  have hop : Machine.Along (fun _ op => op ≠ Op.close) step (.new n) ops :=
    Machine.along_of_forall fun op hop e => hc (e ▸ hop)
  have key := hop.invariant (P := fun m => Inv n m ∧ m.state.closed = false)
    (fun m op m' ans hP hop hs => ⟨(hP.1.step hs).1, ((hP.1.step hs).2 hop).trans hP.2⟩) ⟨Inv.new n, rfl⟩ h
  exact key.2

/-- As long as the semaphore is not closed every permit is available, assigned to the first waiter, set
aside for a waiter that is ready, held, or forgotten. If the permits fit a `usize` then only polls outside
tasks panic. -/
theorem run_conserved (ops : List (Op ω)) (hclose : .close ∉ ops) :
    (n + (ops.map Op.added).sum ≤ usizeMax → (∀ i waker, .poll i none waker ∉ ops) →
      ∃ m answers, Machine.run step (.new n : Semaphore ω) ops = some (m, answers)) ∧
    ∀ m answers, Machine.run step (.new n : Semaphore ω) ops = some (m, answers) →
      m.state.permits + m.state.assigned + satisfied m.state.ready m.acquires + m.permits.total id + m.forgotten =
        n + (ops.map Op.added).sum ∧
      (m.state.queue ≠ [] → m.state.permits = 0) ∧ ∀ w ∈ m.state.queue.tail, w.remaining = w.required := by
  refine ⟨run_isSome, fun m answers h => ?_⟩
  have hinv := inv_of_run h
  have hcons := hinv.conserved
  have hadded := run_added (Inv.new n) h
  rw [hinv.open_lost (closed_of_run hclose h), hadded] at hcons
  refine ⟨?_, hinv.good.headOfLine.permits, hinv.good.headOfLine.tail⟩
  simp only [ledger, Semaphore.new] at hcons
  omega

theorem run_conserved_partial :
    ∃ m answers, Machine.run step (.new 3 : Semaphore Nat) [.tryAcquireMany 2, .acquireMany 2, .poll 0 (some 1) 0] =
        some (m, answers) ∧ m.state.permits = 0 ∧ m.state.assigned = 1 ∧
      m.state.permits + m.state.assigned + satisfied m.state.ready m.acquires + m.permits.total id + m.forgotten = 3 := by
  refine ⟨_, _, rfl, rfl, rfl, ?_⟩
  exact ((run_conserved [.tryAcquireMany 2, .acquireMany 2, .poll 0 (some 1) 0] (by decide)).2 _ _ rfl).1

/-! ## What is granted -/

/-- A poll that is ready gives a permit for what was there. -/
theorem Inv.polled (h : Inv n m) {i j : Nat} {task : Option AsyncRuntime.TaskId} {waker : ω} {woken : List ω}
    {a : Acquire} (hi : m.acquires.get i = some a)
    (hs : m.poll i task waker = some (m', .polled (.ready (.ok j)) woken)) :
    m'.permits.get j = some a.permits ∧ (a.permits = 0 ∨ Backed m.state a) ∧
      ledger m'.state m'.acquires + a.permits = ledger m.state m.acquires := by
  have hnew : ∀ k : Nat, (m.permits.insert k).get m.permits.next = some k := fun k =>
    Table.get_insert_eq_some.mpr (.inl ⟨rfl, rfl⟩)
  cases polled_of_poll h.good hi hs with
  | empty h0 hg hl => exact ⟨h0 ▸ hnew 0, .inl h0, by rw [h0]; exact hl⟩
  | acquired hb hc hg hl => exact ⟨hnew _, .inr hb, hl⟩

/-- A future that waits is found when it is polled again, every success is covered by permits that were
there for it, and no more is granted than there is. -/
theorem run_backed (h : Machine.run step (.new n) ops = some (m, answers)) :
    (∀ id, .untracked id ∉ m.state.trace) ∧
    (∀ i task waker a m' j woken, m.acquires.get i = some a →
      m.step (.poll i task waker) = some (m', .polled (.ready (.ok j)) woken) →
      m'.permits.get j = some a.permits ∧ (a.permits = 0 ∨ Backed m.state a) ∧
        ledger m'.state m'.acquires + a.permits = ledger m.state m.acquires) ∧
    satisfied m.state.ready m.acquires + m.permits.total id + m.forgotten ≤ n + (ops.map Op.added).sum := by
  have hinv := inv_of_run h
  refine ⟨hinv.good.traced.tracked, fun i task waker a m' j woken hi hs => hinv.polled hi hs, ?_⟩
  have hcons := hinv.conserved
  have hadded := run_added (Inv.new n) h
  simp only [ledger, Semaphore.new] at hcons hadded
  omega

theorem run_backed_close :
    ∃ m answers, Machine.run step (.new 1 : Semaphore Nat) [.tryAcquireMany 1, .acquireMany 1, .poll 0 (some 1) 0,
        .acquireMany 1, .poll 1 (some 2) 0, .dropPermit 0, .close] = some (m, answers) ∧ m.state.ready = {0} ∧
      satisfied m.state.ready m.acquires + m.permits.total id + m.forgotten ≤ 1 := by
  have h : Machine.run step (.new 1 : Semaphore Nat) [.tryAcquireMany 1, .acquireMany 1, .poll 0 (some 1) 0,
    .acquireMany 1, .poll 1 (some 2) 0, .dropPermit 0, .close] = some (_, _) := rfl
  exact ⟨_, _, h, rfl, (run_backed h).2.2⟩

/-! ## The order of the waiters -/

/-- A waiter is satisfied after all those that were queued before it, but for the ones that were
cancelled or removed when the semaphore was closed; and as long as a waiter is in the queue nothing is
granted but what was set aside for waiters that were queued before it. -/
theorem run_first_come (h : Machine.run step (.new n) ops = some (m, answers)) :
    (∀ x y tr₁ tr₂ tr₃ tr₄,
      m.state.trace = tr₁ ++ .queued x :: (tr₂ ++ .queued y :: (tr₃ ++ .satisfied y :: tr₄)) →
      ∃ e ∈ tr₂ ++ .queued y :: tr₃, e = .satisfied x ∨ e = .cancelled x ∨ e = .closed) ∧
    ∀ w ∈ m.state.queue,
      (∀ k m' result, 0 < k → m.step (.tryAcquireMany k) = some (m', .tried result) → ∃ e, result = .error e) ∧
      ∀ i task waker a m' j woken, m.acquires.get i = some a → 0 < a.permits →
        m.step (.poll i task waker) = some (m', .polled (.ready (.ok j)) woken) →
        ∃ id ∈ m.state.ready, a.waiterId = some id ∧ id < w.waiterId := by
  have hinv := inv_of_run h
  refine ⟨fun x y tr₁ tr₂ tr₃ tr₄ htr => ?_, fun w hw => ⟨fun k m' result hk hs => ?_, ?_⟩⟩
  · have hxy : x < y := hinv.good.traced.increasing (tr₁ ++ .queued x :: tr₂) (.queued y)
      (tr₃ ++ .satisfied y :: tr₄)
      (by rw [htr]; simp) y rfl x (by simp)
    have hopen := hinv.good.traced.inOrder (tr₁ ++ .queued x :: (tr₂ ++ .queued y :: tr₃)) (.satisfied y) tr₄
      (by rw [htr]; simp) y rfl x hxy
    by_contra hno
    refine hopen ⟨tr₁, tr₂ ++ .queued y :: tr₃, rfl, fun e he hl => hno ⟨e, he, hl⟩⟩
  · have hq : m.state.queue ≠ [] := List.ne_nil_of_mem hw
    simp only [step, tryAcquireMany, State.tryAcquire, if_neg hk.ne', if_pos hq] at hs
    split at hs
    · rename_i hr
      cases hs
      exact ⟨_, rfl⟩
    · rename_i hr
      split at hr <;> cases hr
  · intro i task waker a m' j woken hi hpos hs
    obtain ⟨-, hb, -⟩ := hinv.polled hi hs
    rcases hb with h0 | ⟨id, hid, ha⟩ | ⟨-, hq, -⟩
    · exact absurd h0 hpos.ne'
    · exact ⟨id, hid, ha, hinv.good.tracked.ready_lt id hid w hw⟩
    · exact absurd hq (List.ne_nil_of_mem hw)

theorem run_first_come_two :
    ∃ m answers, Machine.run step (.new 2 : Semaphore Nat) [.tryAcquireMany 2, .acquireMany 2, .poll 0 (some 1) 0,
        .acquireMany 1, .poll 1 (some 2) 0, .dropPermit 0, .poll 0 (some 1) 0, .dropPermit 1] = some (m, answers) ∧
      m.state.trace = [] ++ .queued 0 :: ([] ++ .queued 1 :: ([.satisfied 0] ++ .satisfied 1 :: [])) ∧
      ∃ e ∈ [] ++ .queued 1 :: [.satisfied 0], e = Event.satisfied 0 ∨ e = .cancelled 0 ∨ e = .closed := by
  have h : Machine.run step (.new 2 : Semaphore Nat) [.tryAcquireMany 2, .acquireMany 2, .poll 0 (some 1) 0,
    .acquireMany 1, .poll 1 (some 2) 0, .dropPermit 0, .poll 0 (some 1) 0, .dropPermit 1] = some (_, _) := rfl
  exact ⟨_, _, h, rfl, (run_first_come h).1 0 1 [] [] [.satisfied 0] [] rfl⟩

/-! ## What is left of a closed semaphore -/

/-- Once the semaphore is closed no future waits any more but those that did, and permits of the
semaphore are held only where they were: of the first `i` futures and the first `j` permits. -/
structure Ending (i j lost : Nat) (m : Semaphore ω) : Prop where
  closed : m.state.closed = true
  lost : m.lost = lost
  acquires : ∀ k a, m.acquires.get k = some a → i ≤ k → a.waiterId = none
  permits : ∀ k permits, m.permits.get k = some permits → j ≤ k → permits = 0
  next : i ≤ m.acquires.next ∧ j ≤ m.permits.next

namespace Ending

variable {i j lost : Nat}

theorem close (h : Inv n m) (hc : m.state.closed = false) :
    Ending m.acquires.next m.permits.next m.state.assigned (Semaphore.close m).1 := by
  refine ⟨?_, ?_, fun k a hk hle => ?_, fun k permits hk hle => ?_, le_rfl, le_rfl⟩
  · simp only [Semaphore.close, State.close, hc, Bool.false_eq_true, if_false]
    rfl
  · simp [Semaphore.close, hc, h.open_lost hc]
  · exact absurd (Table.lt_next hk) (by show ¬ k < m.acquires.next; omega)
  · exact absurd (Table.lt_next hk) (by show ¬ k < m.permits.next; omega)

/-- A future is gone. -/
theorem erase (h : Ending i j lost m) (k : Nat) {s : State ω} (hs : s.closed = m.state.closed) :
    Ending i j lost { m with state := s, acquires := m.acquires.erase k } :=
  ⟨hs.trans h.closed, h.lost, fun l a hl => h.acquires l a (Table.get_erase_eq_some.mp hl).2,
    h.permits, h.next⟩

/-- A permit of nothing is made. -/
theorem insertZero (h : Ending i j lost m) : Ending i j lost { m with permits := m.permits.insert 0 } := by
  refine ⟨h.closed, h.lost, h.acquires, fun k permits hk hle => ?_, h.next.1, Nat.le_succ_of_le h.next.2⟩
  rcases Table.get_insert_eq_some.mp hk with ⟨-, rfl⟩ | hk
  · rfl
  · exact h.permits k permits hk hle

theorem dropPermit (h : Ending i j lost m) (hinv : Inv n m) {k : Nat} (hs : m.dropPermit k = some (m', ans)) :
    Ending i j lost m' := by
  have hclosed := (hinv.dropPermit hs).2
  simp only [Semaphore.dropPermit] at hs
  split at hs
  · cases hs
    exact h
  · obtain ⟨⟨s', woken⟩, -, hs⟩ := Option.map_eq_some_iff.mp hs
    cases hs
    exact ⟨hclosed.trans h.closed, h.lost, h.acquires,
      fun l p hl => h.permits l p (Table.get_erase_eq_some.mp hl).2, h.next⟩

theorem poll (h : Ending i j lost m) (hinv : Inv n m) {k : Nat} {task : Option AsyncRuntime.TaskId}
    {waker : ω} (hs : m.poll k task waker = some (m', ans)) : Ending i j lost m' := by
  have hqueue := hinv.good.headOfLine.closed h.closed
  cases hk : m.acquires.get k with
  | none =>
    simp only [Semaphore.poll, hk] at hs
    cases hs
    exact h
  | some a =>
    simp only [Semaphore.poll, hk] at hs
    split at hs
    · cases hs
      exact (h.erase k rfl).insertZero
    · have hrun := hinv.good.tracked.running k a hk
      obtain ⟨⟨result, a', s'⟩, hpoll, hs⟩ := Option.bind_eq_some_iff.mp hs
      -- a closed semaphore refuses every poll
      simp only [Acquire.poll, hrun, h.closed, Bool.false_eq_true, if_false, if_true] at hpoll
      split at hpoll
      · cases hpoll
      · cases hpoll
        obtain ⟨⟨s₂, woken⟩, hdrop, hs⟩ := Option.map_eq_some_iff.mp hs
        cases hs
        exact h.erase k (hinv.good.drop hk hdrop).2.2

theorem step (h : Ending i j lost m) (hinv : Inv n m) (hs : m.step op = some (m', ans)) :
    Ending i j lost m' := by
  cases op with
  | acquireMany permits =>
    cases hs
    refine ⟨h.closed, h.lost, fun k a hk hle => ?_, h.permits, Nat.le_succ_of_le h.next.1, h.next.2⟩
    rcases Table.get_insert_eq_some.mp hk with ⟨-, rfl⟩ | hk
    · rfl
    · exact h.acquires k a hk hle
  | poll k task waker => exact h.poll hinv hs
  | dropAcquire k =>
    simp only [Semaphore.step, dropAcquire] at hs
    split at hs
    · cases hs
      exact h
    · rename_i a hk
      obtain ⟨⟨s', woken⟩, hdrop, hs⟩ := Option.map_eq_some_iff.mp hs
      cases hs
      exact h.erase k (hinv.good.drop hk hdrop).2.2
  | tryAcquireMany permits =>
    simp only [Semaphore.step, tryAcquireMany, State.tryAcquire, h.closed, if_true, Option.some.injEq] at hs
    by_cases hp : permits = 0
    · rw [if_pos hp, hp] at hs
      cases hs
      exact h.insertZero
    · rw [if_neg hp] at hs
      cases hs
      exact h
  | addPermits permits =>
    have hclosed := (hinv.step hs).2 (by rintro ⟨⟩)
    obtain ⟨⟨s', woken⟩, -, hs⟩ := Option.map_eq_some_iff.mp hs
    cases hs
    exact ⟨hclosed.trans h.closed, h.lost, h.acquires, h.permits, h.next⟩
  | dropPermit k => exact h.dropPermit hinv hs
  | forget k =>
    have hclosed := (hinv.step hs).2 (by rintro ⟨⟩)
    simp only [Semaphore.step, forget] at hs
    split at hs
    · cases hs
      exact h
    · rename_i permits hk
      have hset : (m.permits.set k 0).get k = some 0 := Table.get_set_self hk
      simp only [Semaphore.dropPermit, hset, State.addPermits, if_true, Option.map_some] at hs
      cases hs
      refine ⟨h.closed, h.lost, h.acquires, fun l p hl hle => ?_, h.next⟩
      obtain ⟨hne, hl⟩ := Table.get_erase_eq_some.mp hl
      rcases (Table.get_set_eq_some hk).mp hl with ⟨rfl, -⟩ | ⟨-, hl⟩
      · exact absurd rfl hne
      · exact h.permits l p hl hle
  | close =>
    simp only [Semaphore.step, Semaphore.close, State.close, h.closed, if_true, Option.some.injEq] at hs
    cases hs
    exact h

/-- All futures and permits that there were are gone. -/
theorem available (h : Ending i j lost m) (hinv : Inv n m) (hacquires : ∀ k < i, m.acquires.get k = none)
    (hpermits : ∀ k < j, m.permits.get k = none) : m.state.permits + m.forgotten + lost = n + m.added := by
  have hcons := hinv.conserved
  have hassigned : m.state.assigned = 0 := by
    rw [State.assigned, hinv.good.headOfLine.closed h.closed]
    rfl
  have hready : satisfied m.state.ready m.acquires = 0 := Table.total_eq_zero fun k a hk => by
    have hle : i ≤ k := Nat.le_of_not_lt fun hlt => by
      rw [hacquires k hlt] at hk
      cases hk
    simp [h.acquires k a hk hle]
  have hheld : m.permits.total id = 0 := Table.total_eq_zero fun k permits hk => by
    have hle : j ≤ k := Nat.le_of_not_lt fun hlt => by
      rw [hpermits k hlt] at hk
      cases hk
    exact h.permits k permits hk hle
  rw [h.lost, ledger, hassigned, hready, hheld] at hcons
  omega

end Ending

/-- A semaphore is closed for the first time. Once the futures and the permits that there were then
are gone, what was put into it is available but for what was forgotten, exactly if no waiter in the
queue had been assigned permits. -/
theorem run_close_available_iff {m₁ : Semaphore ω} {ops₁ : List (Op ω)} (ops₂ : List (Op ω)) {answers₁ : List (Answer ω)}
    (hopen : .close ∉ ops₁) (h₁ : Machine.run step (.new n) ops₁ = some (m₁, answers₁))
    (h₂ : Machine.run step m₁ (.close :: ops₂) = some (m, answers)) (hacquires : ∀ i < m₁.acquires.next, m.acquires.get i = none)
    (hpermits : ∀ j < m₁.permits.next, m.permits.get j = none) :
    m.state.permits + m.forgotten = n + m.added ↔ m₁.state.assigned = 0 := by
  have hinv := inv_of_run h₁
  obtain ⟨m₂, ans, answers₂, hs, hrun, -⟩ := Machine.run_cons.mp h₂
  have hclose : Ending m₁.acquires.next m₁.permits.next m₁.state.assigned m₂ := by
    cases hs
    exact .close hinv (closed_of_run hopen h₁)
  obtain ⟨hend, hinv'⟩ := Machine.run_invariant (P := fun m => Ending _ _ _ m ∧ Inv n m)
    (fun _ _ _ _ ⟨hend, hinv⟩ hs => ⟨hend.step hinv hs, (hinv.step hs).1⟩) ⟨hclose, (hinv.step hs).1⟩ hrun
  have := hend.available hinv' hacquires hpermits
  omega

/-- A permit that is held when the semaphore is closed comes back, and so do those that a waiter has
been granted. -/
theorem run_close_available_granted :
    ∃ m₁ m answers₁ answers, Machine.run step (.new 2 : Semaphore Nat) [.tryAcquireMany 2, .acquireMany 1, .poll 0 (some 1) 0,
        .dropPermit 0, .tryAcquireMany 1] = some (m₁, answers₁) ∧
      Machine.run step m₁ [.close, .poll 0 (some 1) 0, .dropPermit 1] = some (m, answers) ∧
      (m.state.permits + m.forgotten = 2 + m.added ↔ m₁.state.assigned = 0) ∧ m₁.state.ready = {0} := by
  have h₁ : Machine.run step (.new 2 : Semaphore Nat) [.tryAcquireMany 2, .acquireMany 1,
    .poll 0 (some 1) 0, .dropPermit 0,
    .tryAcquireMany 1] = some (_, _) := rfl
  refine ⟨_, _, _, _, h₁, rfl, ?_, rfl⟩
  exact run_close_available_iff [.poll 0 (some 1) 0, .dropPermit 1] (by decide) h₁ rfl (by decide) (by decide)

/-- A waiter that wants two permits has been assigned the only one when the semaphore is closed: its
future has nothing to return any more. -/
theorem not_available_assigned :
    ∃ m₁ m answers₁ answers, Machine.run step (.new 1 : Semaphore Nat) [.acquireMany 2, .poll 0 (some 1) 0] = some (m₁, answers₁) ∧
      Machine.run step m₁ [.close, .dropAcquire 0] = some (m, answers) ∧ m₁.state.assigned = 1 ∧
      (∀ i < m₁.acquires.next, m.acquires.get i = none) ∧ (∀ j < m₁.permits.next, m.permits.get j = none) ∧
      m.state.permits = 0 ∧ ¬ m.state.permits + m.forgotten = 1 + m.added :=
  ⟨_, _, _, _, rfl, rfl, rfl, by decide, by decide, rfl, by decide⟩

end Semaphore

end DesCartes.BatchSemaphore
