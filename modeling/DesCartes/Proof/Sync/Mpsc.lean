import DesCartes.Impl.Sync.Mpsc

/-!
# What a channel delivers

`run_delivered`: in every run of the operations on a channel, the lock sections of its polls
interleaved in any way, the queue stays within the capacity, the values received are a prefix of the
values whose `send` or `try_send` returned `Ok`, an `Err` of `send` gives the value back, and `recv`
yields `None` only when every sender is dropped and every accepted value was received.

It follows from where the value of each future of `send` is (`Send.Holds`) and from what each
operation does to the queue (`Queued`).
-/

namespace DesCartes.Mpsc

variable {τ ω : Type}

/-- The value of a `send` that returned `Ok`. -/
def Answer.accepted : Answer τ → Option τ
  | .polled _ value (.ready (.ok ())) => some value
  | .tried value (.ok ()) => some value
  | _ => none

/-- The value that the receiver gets. -/
def Answer.delivered : Answer τ → Option τ
  | .received (.ready (some value)) => some value
  | .triedRecv (.ok value) => some value
  | _ => none

/-- The values whose `send` or `try_send` returned `Ok`, in that order. -/
def accepted (answers : List (Answer τ)) : List τ := answers.filterMap Answer.accepted

/-- The values received, in order. -/
def received (answers : List (Answer τ)) : List τ := answers.filterMap Answer.delivered

/-- An `Err` of `send` holds the value of that `send`. -/
def Answer.GivesBack (a : Answer τ) : Prop := ∀ i value e, a = .polled i value (.ready (.error e)) → e = value

/-- The future of `send` that is done, or dropped. -/
def Answer.ended : Answer τ → Option Nat
  | .polled i _ (.ready _) => some i
  | .dropped i => some i
  | _ => none

/-! ## The queue -/

/-- What an operation does to the queue, by what it returns. -/
inductive Queued (capacity : Nat) : List τ → List τ → Answer τ → Prop where
  | kept {q : List τ} {a : Answer τ} (ha : a.accepted = none) (hd : a.delivered = none) : Queued capacity q q a
  | pushed {q : List τ} {a : Answer τ} {value : τ} (ha : a.accepted = some value) (hd : a.delivered = none)
      (hq : q.length < capacity) : Queued capacity q (q ++ [value]) a
  | popped {q : List τ} {a : Answer τ} {value : τ} (ha : a.accepted = none) (hd : a.delivered = some value) :
      Queued capacity (value :: q) q a

section
variable {capacity : Nat} {q q' : List τ} {a : Answer τ} {answers : List (Answer τ)}

theorem Queued.length_le (h : Queued capacity q q' a) (hq : q.length ≤ capacity) : q'.length ≤ capacity := by
  cases h with
  | kept => exact hq
  | pushed ha hd hlt =>
    rw [List.length_append, List.length_singleton]
    exact hlt
  | popped =>
    rw [List.length_cons] at hq
    omega

theorem Queued.fifo (h : Queued capacity q q' a) (hq : received answers ++ q = accepted answers) :
    received (answers ++ [a]) ++ q' = accepted (answers ++ [a]) := by
  simp only [received, accepted, List.filterMap_append] at hq ⊢
  cases h with
  | kept ha hd => simp [ha, hd, hq]
  | pushed ha hd hlt => simp [ha, hd, ← hq]
  | popped ha hd => simp [ha, hd, ← hq]

end

/-! ## The futures of `send` -/

/-- What an operation does to the futures of `send`: the ones that are gone stay so, and the one that it
ends was alive. -/
structure Ends (t t' : Table (Send τ ω)) (a : Answer τ) : Prop where
  next : t.next ≤ t'.next
  gone : ∀ i < t.next, t.get i = none → t'.get i = none
  ended : ∀ i, a.ended = some i → (∃ p, t.get i = some p) ∧ t'.get i = none

/-- Each future of `send` ended once at most, and is not alive after. -/
structure Ended (t : Table (Send τ ω)) (answers : List (Answer τ)) : Prop where
  nodup : (answers.filterMap Answer.ended).Nodup
  gone : ∀ i ∈ answers.filterMap Answer.ended, i < t.next ∧ t.get i = none

section
variable {t t' : Table (Send τ ω)} {a : Answer τ} {answers : List (Answer τ)} {i : Nat} {p : Send τ ω}

theorem Ended.concat (h : Ended t answers) (ha : Ends t t' a) : Ended t' (answers ++ [a]) := by
  have hold : ∀ i ∈ answers.filterMap Answer.ended, i < t'.next ∧ t'.get i = none := fun i hi =>
    ⟨(h.gone i hi).1.trans_le ha.next, ha.gone i (h.gone i hi).1 (h.gone i hi).2⟩
  cases he : a.ended with
  | none =>
    have : (answers ++ [a]).filterMap Answer.ended = answers.filterMap Answer.ended := by simp [he]
    exact ⟨this ▸ h.nodup, this ▸ hold⟩
  | some j =>
    obtain ⟨⟨p, hp⟩, hj⟩ := ha.ended j he
    have : (answers ++ [a]).filterMap Answer.ended = answers.filterMap Answer.ended ++ [j] := by simp [he]
    refine ⟨?_, ?_⟩
    · rw [this, List.nodup_append]
      refine ⟨h.nodup, List.nodup_singleton j, fun i hi k hk hik => ?_⟩
      rw [List.mem_singleton.mp hk] at hik
      rw [hik] at hi
      rw [(h.gone j hi).2] at hp
      cases hp
    · rw [this]
      intro i hi
      rcases List.mem_append.mp hi with hi | hi
      · exact hold i hi
      · rw [List.mem_singleton.mp hi]
        exact ⟨(Table.lt_next hp).trans_le ha.next, hj⟩

theorem Ends.same (ha : a.ended = none) : Ends t t a :=
  ⟨le_rfl, fun _ _ h => h, fun i h => by rw [ha] at h; cases h⟩

theorem Ends.insert (ha : a.ended = none) : Ends t (t.insert p) a := by
  refine ⟨by simp, fun i hi h => ?_, fun i h => by rw [ha] at h; cases h⟩
  simp only [Table.insert, if_neg hi.ne, h]

theorem Ends.set (ha : a.ended = none) : Ends t (t.set i p) a := by
  refine ⟨le_rfl, fun j _ h => ?_, fun i h => by rw [ha] at h; cases h⟩
  simp only [Table.set]
  split
  · rename_i e
    rw [← e, h, Option.map_none]
  · exact h

theorem Ends.erase (hi : t.get i = some p) (ha : a.ended = some i) : Ends t (t.erase i) a := by
  refine ⟨le_rfl, fun j _ h => ?_, fun j h => ?_⟩
  · simp only [Table.erase, h, ite_self]
  · obtain rfl : i = j := Option.some.inj (ha.symm.trans h)
    exact ⟨⟨p, hi⟩, by simp [Table.erase]⟩

theorem Ended.map (h : Ended t answers) (f : Send τ ω → Send τ ω) : Ended (t.map f) answers := by
  refine ⟨h.nodup, fun i hi => ⟨(h.gone i hi).1, ?_⟩⟩
  show (t.get i).map f = none
  rw [(h.gone i hi).2, Option.map_none]

end

/-! ## One lock section -/

/-- The poll that stands at the stage has the value, in the future or out of it. -/
def Stage.Carries (f : SendFuture τ) (value : τ) : Stage τ → Prop
  | .check => f.value = some value
  | .register => f.value = some value
  | .insert _ => f.value = some value
  | .enqueue v => v = value
  | .drop result => result = .error value

/-- Where the value is after a lock section, and what was done to the queue. -/
def Outcome.Carries (s s' : State τ ω) (f : SendFuture τ) (value : τ) : Outcome τ → Prop
  | .continues stage => stage.Carries f value ∧ s'.queue = s.queue
  | .returns .pending => f.value = some value ∧ s'.queue = s.queue
  | .returns (.ready (.error e)) => e = value ∧ s'.queue = s.queue
  | .returns (.ready (.ok ())) => s.queue.length < s.capacity ∧ s'.queue = s.queue ++ [value]

/-- What only the senders and the receiver change. -/
structure State.Same (s s' : State τ ω) : Prop where
  capacity : s'.capacity = s.capacity
  senderCount : s'.senderCount = s.senderCount

theorem same_drop (f : SendFuture τ) (s : State τ ω) : s.Same (f.drop s) ∧ (f.drop s).queue = s.queue := by
  simp only [SendFuture.drop]
  split <;> exact ⟨⟨rfl, rfl⟩, rfl⟩

/-- A lock section does not panic, and keeps track of the value. -/
theorem lockSection_spec {f : SendFuture τ} {value : τ} {stage : Stage τ}
    (h : stage.Carries f value) (s : State τ ω) (waker : ω) :
    ∃ s' f' woken outcome, f.lockSection s waker stage = some (s', f', woken, outcome) ∧ s.Same s' ∧
      outcome.Carries s s' f' value := by
  have hsame : s.Same s := ⟨rfl, rfl⟩
  cases stage with
  | check =>
    have h : f.value = some value := h
    simp only [SendFuture.lockSection, SendFuture.giveBack, h, Option.map_some]
    split
    · exact ⟨_, _, _, _, rfl, hsame, rfl, rfl⟩
    · split
      · exact ⟨_, _, _, _, rfl, hsame, h, rfl⟩
      · exact ⟨_, _, _, _, rfl, hsame, rfl, rfl⟩
  | register =>
    have h : f.value = some value := h
    simp only [SendFuture.lockSection]
    split
    · exact ⟨_, _, _, _, rfl, ⟨rfl, rfl⟩, h, rfl⟩
    · exact ⟨_, _, _, _, rfl, ⟨rfl, rfl⟩, h, rfl⟩
  | insert id =>
    have h : f.value = some value := h
    simp only [SendFuture.lockSection, SendFuture.giveBack, h, Option.map_some]
    split
    · exact ⟨_, _, _, _, rfl, hsame, rfl, rfl⟩
    · exact ⟨_, _, _, _, rfl, ⟨rfl, rfl⟩, h, rfl⟩
  | enqueue v =>
    have h : v = value := h
    subst h
    simp only [SendFuture.lockSection, State.wakeReceiver]
    split
    · exact ⟨_, _, _, _, rfl, hsame, rfl, rfl⟩
    · split
      · exact ⟨_, _, _, _, rfl, hsame, rfl, rfl⟩
      · rename_i hq
        obtain ⟨⟨hc, hs⟩, hdrop⟩ := same_drop f
          ({ s with queue := s.queue ++ [v], receiverWaker := none } : State τ ω)
        exact ⟨_, _, _, _, rfl, ⟨hc, hs⟩, by omega, hdrop⟩
  | drop result =>
    have h : result = .error value := h
    subst h
    obtain ⟨hs, hdrop⟩ := same_drop f s
    exact ⟨_, _, _, _, rfl, hs, rfl, hdrop⟩

/-! ## The invariant -/

/-- The future has its value, or the poll that is under way has it. -/
def Send.Holds (p : Send τ ω) : Prop :=
  match p.polling with
  | none => p.future.value = some p.sent
  | some (stage, _) => stage.Carries p.future p.sent

/-- After the operations that returned `answers`. -/
structure Inv (n : Nat) (c : Mpsc τ ω) (answers : List (Answer τ)) : Prop where
  capacity : c.state.capacity = n
  bounded : c.state.queue.length ≤ n
  senderCount : c.state.senderCount = c.senders.total fun _ => 1
  held : ∀ i p, c.sends.get i = some p → p.Holds
  fifo : received answers ++ c.state.queue = accepted answers
  ended : Ended c.sends answers

/-- The invariant after one more operation, and its answer. -/
def Kept (n : Nat) (answers : List (Answer τ)) (r : Mpsc τ ω × Answer τ) : Prop :=
  Inv n r.1 (answers ++ [r.2]) ∧ r.2.GivesBack

section
variable [DecidableEq ω] {n : Nat} {c c' : Mpsc τ ω} {answers : List (Answer τ)} {a : Answer τ}

/-- What a wake leaves of a future of `send`. -/
theorem get_wake {wakers : List ω} {i : Nat} {p : Send τ ω} (h : (c.wake wakers).sends.get i = some p) :
    ∃ woken, c.sends.get i = some { p with woken } := by
  obtain ⟨p₀, hp, rfl⟩ := Table.get_map_eq_some.mp h
  refine ⟨p₀.woken, ?_⟩
  split <;> exact hp

theorem Inv.wake {wakers : List ω} (h : Inv n c answers) : Inv n (c.wake wakers) answers := by
  refine ⟨h.capacity, h.bounded, h.senderCount, fun i p hp => ?_, h.fifo, h.ended.map _⟩
  obtain ⟨woken, hp⟩ := get_wake hp
  have := h.held i _ hp
  exact this

omit [DecidableEq ω] in
/-- An operation that leaves the senders alone. -/
theorem Inv.of_queued (h : Inv n c answers) (hs : c.state.Same c'.state) (hsenders : c'.senders = c.senders)
    (hheld : ∀ i p, c'.sends.get i = some p → p.Holds) (hends : Ends c.sends c'.sends a)
    (hq : Queued c.state.capacity c.state.queue c'.state.queue a) : Inv n c' (answers ++ [a]) where
  capacity := hs.capacity.trans h.capacity
  bounded := (h.capacity ▸ hq).length_le h.bounded
  senderCount := by rw [hsenders, hs.senderCount, h.senderCount]
  held := hheld
  fifo := hq.fifo h.fifo
  ended := h.ended.concat hends

omit [DecidableEq ω] in
theorem Inv.done (h : Inv n c answers) : Inv n c (answers ++ [Answer.done]) :=
  h.of_queued ⟨rfl, rfl⟩ rfl h.held (.same rfl) (.kept rfl rfl)

omit [DecidableEq ω] in
theorem Inv.kept_done (h : Inv n c answers) : Kept n answers (c, .done) :=
  ⟨h.done, fun _ _ _ he => nomatch he⟩

omit [DecidableEq ω] in
theorem Inv.ofSender (h : Inv n c answers) {i : Nat} {r : Mpsc τ ω × Answer τ}
    (hr : c.senders.get i = some () → Kept n answers r) : Kept n answers (c.ofSender i r) := by
  simp only [Mpsc.ofSender]
  split
  · exact h.kept_done
  · rename_i hi
    exact hr hi

omit [DecidableEq ω] in
theorem Inv.ofReceiver (h : Inv n c answers) {r : Mpsc τ ω × Answer τ} (hr : Kept n answers r) :
    Kept n answers (c.ofReceiver r) := by
  simp only [Mpsc.ofReceiver]
  split
  · exact hr
  · exact h.kept_done

theorem Inv.advance (h : Inv n c answers) {i : Nat} {p₀ p : Send τ ω} (hi : c.sends.get i = some p₀)
    {stage : Stage τ} (hp : stage.Carries p.future p.sent) (waker : ω) :
    ∃ r, c.advance i p stage waker = some r ∧ Kept n answers r := by
  obtain ⟨s', f', woken, outcome, hsec, hs, hout⟩ := lockSection_spec hp c.state waker
  have hset : ∀ p' : Send τ ω, p'.Holds → ∀ j p, (c.sends.set i p').get j = some p → p.Holds := by
    intro p' hp' j p hj
    rcases (Table.get_set_eq_some hi).mp hj with ⟨-, rfl⟩ | ⟨-, hj⟩
    · exact hp'
    · exact h.held j p hj
  have herase : ∀ j p, (c.sends.erase i).get j = some p → p.Holds :=
    fun j p hj => h.held j p (Table.get_erase_eq_some.mp hj).2
  simp only [Mpsc.advance, hsec, Option.map_some]
  match outcome, hout with
  | .continues stage, ⟨hf, hq⟩ =>
    refine ⟨_, rfl, ?_, ?_⟩
    · refine .wake (h.of_queued hs rfl (hset _ hf) (.set rfl) ?_)
      rw [hq]
      exact .kept rfl rfl
    · intro j v e he
      cases he
  | .returns .pending, ⟨hf, hq⟩ =>
    refine ⟨_, rfl, ?_, ?_⟩
    · refine .wake (h.of_queued hs rfl (hset _ hf) (.set rfl) ?_)
      rw [hq]
      exact .kept rfl rfl
    · intro j v e he
      cases he
  | .returns (.ready (.error e)), ⟨he, hq⟩ =>
    refine ⟨_, rfl, ?_, ?_⟩
    · refine .wake (h.of_queued hs rfl herase (.erase hi rfl) ?_)
      rw [hq]
      exact .kept rfl rfl
    · intro j v e' he'
      cases he'
      exact he
  | .returns (.ready (.ok ())), ⟨hlt, hq⟩ =>
    refine ⟨_, rfl, ?_, ?_⟩
    · refine .wake (h.of_queued hs rfl herase (.erase hi rfl) ?_)
      rw [hq]
      exact .pushed rfl rfl hlt
    · intro j v e he
      cases he

theorem Inv.poll (h : Inv n c answers) (i : Nat) (waker : ω) :
    ∃ r, c.poll i waker = some r ∧ Kept n answers r := by
  simp only [Mpsc.poll]
  split
  · exact ⟨_, rfl, h.kept_done⟩
  · rename_i p hi
    have hp := h.held i p hi
    simp only [Send.Holds] at hp
    split
    · exact ⟨_, rfl, h.kept_done⟩
    · rename_i hpoll
      rw [hpoll] at hp
      have hp : Stage.check.Carries p.future p.sent := hp
      exact h.advance (p := { p with waker := some waker, woken := false }) hi hp waker

theorem Inv.resume (h : Inv n c answers) (i : Nat) : ∃ r, c.resume i = some r ∧ Kept n answers r := by
  simp only [Mpsc.resume]
  split
  · exact ⟨_, rfl, h.kept_done⟩
  · rename_i p hi
    have hp := h.held i p hi
    simp only [Send.Holds] at hp
    split
    · rename_i stage waker hpoll
      rw [hpoll] at hp
      exact h.advance hi hp waker
    · exact ⟨_, rfl, h.kept_done⟩

omit [DecidableEq ω] in
theorem Inv.dropSend (h : Inv n c answers) (i : Nat) : Kept n answers (c.dropSend i) := by
  simp only [Mpsc.dropSend]
  split
  · exact h.kept_done
  · rename_i p hi
    split
    · exact h.kept_done
    · obtain ⟨hs, hq⟩ := same_drop p.future c.state
      refine ⟨h.of_queued hs rfl (fun j p hj => h.held j p (Table.get_erase_eq_some.mp hj).2)
        (.erase hi rfl) ?_,
        fun _ _ _ he => nomatch he⟩
      rw [hq]
      exact .kept rfl rfl

theorem Inv.dropSender (h : Inv n c answers) {i : Nat} (hi : c.senders.get i = some ()) :
    Inv n (Mpsc.wake { c with state := c.state.dropSender.1, senders := c.senders.erase i } c.state.dropSender.2)
      (answers ++ [Answer.done]) := by
  have hcount := Table.total_erase (f := fun _ => 1) hi
  have hs := h.senderCount
  have hstate : c.state.dropSender.1.queue = c.state.queue ∧
      c.state.dropSender.1.capacity = c.state.capacity ∧
        c.state.dropSender.1.senderCount = c.state.senderCount - 1 := by
    simp only [State.dropSender, State.wakeReceiver]
    split <;> exact ⟨rfl, rfl, rfl⟩
  obtain ⟨hq, hc, hsc⟩ := hstate
  have hinv : Inv n { c with state := c.state.dropSender.1, senders := c.senders.erase i }
    (answers ++ [Answer.done]) := by
    refine ⟨hc.trans h.capacity, hq ▸ h.bounded, ?_, h.held, ?_, h.done.ended⟩
    · show c.state.dropSender.1.senderCount = (c.senders.erase i).total fun _ => 1
      omega
    · rw [hq]
      exact h.done.fifo
  exact hinv.wake

theorem Inv.trySend (h : Inv n c answers) (value : τ) :
    Inv n (Mpsc.wake { c with state := (c.state.trySend value).1 } (c.state.trySend value).2.1)
      (answers ++ [Answer.tried value (c.state.trySend value).2.2]) := by
  simp only [State.trySend, State.wakeReceiver]
  split
  · exact .wake (h.of_queued ⟨rfl, rfl⟩ rfl h.held (.same rfl) (.kept rfl rfl))
  · split
    · exact .wake (h.of_queued ⟨rfl, rfl⟩ rfl h.held (.same rfl) (.kept rfl rfl))
    · rename_i hq
      exact .wake (h.of_queued ⟨rfl, rfl⟩ rfl h.held (.same rfl) (.pushed rfl rfl (not_le.mp hq)))

theorem Inv.recv (h : Inv n c answers) (waker : ω) :
    Inv n (Mpsc.wake { c with state := (c.state.recv waker).1 } (c.state.recv waker).2.1)
      (answers ++ [Answer.received (c.state.recv waker).2.2]) := by
  simp only [State.recv, State.wakeOneSender]
  split
  · rename_i hq
    exact .wake (h.of_queued ⟨rfl, rfl⟩ rfl h.held (.same rfl) (by rw [hq]; exact .popped rfl rfl))
  · split
    · exact .wake (h.of_queued ⟨rfl, rfl⟩ rfl h.held (.same rfl) (.kept rfl rfl))
    · exact .wake (h.of_queued ⟨rfl, rfl⟩ rfl h.held (.same rfl) (.kept rfl rfl))

theorem Inv.tryRecv (h : Inv n c answers) :
    Inv n (Mpsc.wake { c with state := c.state.tryRecv.1 } c.state.tryRecv.2.1)
      (answers ++ [Answer.triedRecv c.state.tryRecv.2.2]) := by
  simp only [State.tryRecv, State.wakeOneSender]
  split
  · rename_i hq
    exact .wake (h.of_queued ⟨rfl, rfl⟩ rfl h.held (.same rfl) (by rw [hq]; exact .popped rfl rfl))
  · split
    · exact .wake (h.of_queued ⟨rfl, rfl⟩ rfl h.held (.same rfl) (.kept rfl rfl))
    · exact .wake (h.of_queued ⟨rfl, rfl⟩ rfl h.held (.same rfl) (.kept rfl rfl))

theorem Inv.step (h : Inv n c answers) (op : Op τ ω) : ∃ r, c.step op = some r ∧ Kept n answers r := by
  cases op with
  | clone i =>
    refine ⟨_, rfl, h.ofSender fun _ => ⟨⟨h.capacity, h.bounded, ?_, h.held, h.done.fifo, h.done.ended⟩,
      fun _ _ _ he => nomatch he⟩⟩
    show c.state.senderCount + 1 = (c.senders.insert ()).total fun _ => 1
    rw [Table.total_insert, h.senderCount]
  | dropSender i => exact ⟨_, rfl, h.ofSender fun hi => ⟨h.dropSender hi, fun _ _ _ he => nomatch he⟩⟩
  | send i value =>
    refine ⟨_, rfl, h.ofSender fun _ => ⟨⟨h.capacity, h.bounded, h.senderCount, fun j p hj => ?_, h.done.fifo,
      h.ended.concat (.insert rfl)⟩,
      fun _ _ _ he => nomatch he⟩⟩
    rcases Table.get_insert_eq_some.mp hj with ⟨-, rfl⟩ | hj
    · rfl
    · exact h.held j p hj
  | trySend i value => exact ⟨_, rfl, h.ofSender fun _ => ⟨h.trySend value, fun _ _ _ he => nomatch he⟩⟩
  | poll i waker => exact h.poll i waker
  | resume i => exact h.resume i
  | dropSend i => exact ⟨_, rfl, h.dropSend i⟩
  | recv waker => exact ⟨_, rfl, h.ofReceiver ⟨h.recv waker, fun _ _ _ he => nomatch he⟩⟩
  | tryRecv => exact ⟨_, rfl, h.ofReceiver ⟨h.tryRecv, fun _ _ _ he => nomatch he⟩⟩
  | dropReceiver =>
    exact ⟨_, rfl, h.ofReceiver ⟨.wake (h.of_queued ⟨rfl, rfl⟩ rfl h.held (.same rfl) (.kept rfl rfl)),
      fun _ _ _ he => nomatch he⟩⟩
  | wake waker =>
    exact ⟨_, rfl, h.done.wake, fun _ _ _ he => nomatch he⟩

/-! ## Runs -/

omit [DecidableEq ω] in
theorem Inv.new {c : Mpsc τ ω} (h : channel n = some c) : Inv n c [] := by
  simp only [channel, Option.ite_none_left_eq_some, Option.some.injEq] at h
  obtain ⟨-, rfl⟩ := h
  refine ⟨rfl, Nat.zero_le n, rfl, fun i p hp => ?_, rfl, .nil, fun i hi => ?_⟩
  · cases hp
  · cases hi

/-- `recv` yields `None` only of an empty queue that no sender is left of. -/
theorem Inv.recv_none (h : Inv n c answers) {waker : ω}
    (hs : c.step (.recv waker) = some (c', .received (.ready none))) :
    (∀ i, c.senders.get i = none) ∧ received answers = accepted answers := by
  have hrecv : (c.state.recv waker).2.2 = .ready none := by
    simp only [Mpsc.step, Mpsc.ofReceiver, Option.some.injEq] at hs
    split at hs
    · exact Answer.received.inj (Prod.mk.inj hs).2
    · cases (Prod.mk.inj hs).2
  simp only [State.recv] at hrecv
  split at hrecv
  · cases hrecv
  · rename_i hq
    split at hrecv
    · rename_i hcount
      refine ⟨fun i => ?_, ?_⟩
      · rw [Option.eq_none_iff_forall_ne_some]
        intro u hi
        have := Table.le_total (f := fun _ => 1) hi
        have := h.senderCount
        omega
      · have := h.fifo
        rwa [hq, List.append_nil] at this
    · cases hrecv

/-- No operation panics, and each keeps the invariant. -/
theorem Inv.run (h : Inv n c answers) (ops : List (Op τ ω)) :
    ∃ c' answers', Machine.run Mpsc.step c ops = some (c', answers') ∧
    Inv n c' (answers ++ answers') ∧ ∀ a ∈ answers', a.GivesBack := by
  induction ops generalizing c answers with
  | nil => exact ⟨c, [], rfl, by rwa [List.append_nil], fun a ha => by cases ha⟩
  | cons op ops ih =>
    obtain ⟨⟨c₁, a₁⟩, hs, hinv, hback⟩ := h.step op
    obtain ⟨c', answers', hrun, hinv', hback'⟩ := ih hinv
    refine ⟨c', a₁ :: answers', Machine.run_cons.mpr ⟨c₁, a₁, answers', hs, hrun, rfl⟩, ?_, ?_⟩
    · rwa [List.append_assoc] at hinv'
    · exact List.forall_mem_cons.mpr ⟨hback, hback'⟩

/-- In every run: no operation panics, the queue stays within the capacity, what was received and
then what is in the queue is what was accepted, an `Err` of `send` gives the value back, a future of
`send` completes or is dropped once, and `recv` yields `None` only when no sender is alive and all
that was accepted was received. -/
theorem run_delivered {c₀ : Mpsc τ ω} (h : channel n = some c₀) (ops : List (Op τ ω)) :
    ∃ c answers, Machine.run step c₀ ops = some (c, answers) ∧ c.state.queue.length ≤ n ∧
      received answers ++ c.state.queue = accepted answers ∧
      (∀ i value e, .polled i value (.ready (.error e)) ∈ answers → e = value) ∧
      (answers.filterMap Answer.ended).Nodup ∧
      ∀ waker c', c.step (.recv waker) = some (c', .received (.ready none)) →
        (∀ i, c.senders.get i = none) ∧ received answers = accepted answers := by
  obtain ⟨c, answers, hrun, hinv, hback⟩ := (Inv.new h).run ops
  exact ⟨c, answers, hrun, hinv.bounded, hinv.fifo, fun i value e he => hback _ he i value e rfl,
    hinv.ended.nodup,
    fun waker c' hs => hinv.recv_none hs⟩

/-- A value is sent and received, another is given back as the receiver is gone. -/
theorem run_delivered_one : ∃ c answers, Machine.run step (⟨.new 1, Table.empty.insert (), .empty⟩ : Mpsc Nat Nat)
      [.send 0 7, .poll 0 1, .resume 0, .recv 2, .dropReceiver, .send 0 8, .poll 1 1, .resume 1] = some (c, answers) ∧
    received answers = [7] ∧ received answers ++ c.state.queue = accepted answers := by
  have hc : channel 1 = some (⟨.new 1, Table.empty.insert (), .empty⟩ : Mpsc Nat Nat) := rfl
  obtain ⟨c, answers, hrun, -, hfifo, -⟩ := run_delivered hc
    [.send 0 7, .poll 0 1, .resume 0, .recv 2, .dropReceiver, .send 0 8, .poll 1 1, .resume 1]
  refine ⟨c, answers, hrun, ?_, hfifo⟩
  cases hrun
  rfl

end

end DesCartes.Mpsc
