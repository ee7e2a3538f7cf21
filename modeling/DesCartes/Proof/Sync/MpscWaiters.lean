import DesCartes.Proof.Sync.Mpsc

/-!
# The senders that wait

`run_offered`: as long as no future of `send` is dropped between its wake and its poll that others
wait behind (`Considerate`), a channel with a free slot for which a future of `send` is registered
has woken one.

The invariant counts the futures that have been woken for a slot and not polled since (`notified`):
where somebody is registered, there are as many of them as free slots at least. Nobody takes their
place when one of them is dropped, so the condition cannot be left out (`wokenSendDropped_strands`).
-/

namespace DesCartes.Mpsc

variable {τ ω : Type}

/-- The future of `send` has an id, and no waker is filed under it. -/
def Send.notified (s : State τ ω) (p : Send τ ω) : Bool :=
  match p.future.waiterId with
  | some id => s.sendWaiters.get? id = none
  | none => false

/-- How many futures of `send` have been woken for a slot and not polled since. -/
def notified (c : Mpsc τ ω) : Nat := c.sends.total fun p => (p.notified c.state).toNat

/-- The future `i` of `send` is registered as waiting. -/
def Registered (c : Mpsc τ ω) (i : Nat) : Prop :=
  ∃ p id w, c.sends.get i = some p ∧ p.future.waiterId = some id ∧ c.state.sendWaiters.get? id = some w

/-- The future `i` of `send` is alive and has been woken since its last poll. -/
def Woken (c : Mpsc τ ω) (i : Nat) : Prop := ∃ p, c.sends.get i = some p ∧ p.woken = true

/-- When the receiver is alive, the queue has a free slot and a future of `send` is registered, one
has been woken. -/
def Offered (c : Mpsc τ ω) : Prop :=
  c.state.receiverAlive = true → c.state.queue.length < c.state.capacity → (∃ i, c.Registered i) → ∃ i, c.Woken i

/-- What a call must not do to the futures that wait: while the receiver is alive and another is
registered, a future that has been woken for a slot is dropped only if more were woken than there
are free slots. -/
def Considerate (c : Mpsc τ ω) : Op τ ω → Prop
  | .dropSend i => ∀ p, c.sends.get i = some p → p.notified c.state = true → c.state.receiverAlive = true →
      (∃ j, c.Registered j) → c.state.capacity < c.state.queue.length + c.notified
  | _ => True

/-! ## The calls -/

/-- What an uninterrupted poll of the future `i`, which is `p`, does. -/
inductive Polled (c : Mpsc τ ω) (i : Nat) (p : Send τ ω) (waker : ω) [DecidableEq ω] : Mpsc τ ω → Prop where
  | closed (hr : c.state.receiverAlive = false) :
      Polled c i p waker { c with state := p.future.drop c.state, sends := c.sends.erase i }
  | first (hr : c.state.receiverAlive = true) (hq : c.state.capacity ≤ c.state.queue.length)
      (hid : p.future.waiterId = none) : Polled c i p waker { c with
        state := { c.state with
          nextWaiterId := c.state.nextWaiterId + 1
          sendWaitOrder := c.state.sendWaitOrder ++ [c.state.nextWaiterId]
          sendWaiters := c.state.sendWaiters.insert c.state.nextWaiterId waker }
        sends := c.sends.set i { p with
          future := { p.future with waiterId := some c.state.nextWaiterId }
          polling := none
          waker := some waker
          woken := false } }
  | again {id : Nat} (hr : c.state.receiverAlive = true) (hq : c.state.capacity ≤ c.state.queue.length)
      (hid : p.future.waiterId = some id) : Polled c i p waker { c with
        state := { c.state with
          sendWaitOrder := c.state.sendWaitOrder ++ [id]
          sendWaiters := c.state.sendWaiters.insert id waker }
        sends := c.sends.set i { p with polling := none, waker := some waker, woken := false } }
  | sent {value : τ} (hr : c.state.receiverAlive = true) (hq : c.state.queue.length < c.state.capacity) :
      Polled c i p waker (wake { c with
        state := p.future.drop { c.state with queue := c.state.queue ++ [value], receiverWaker := none }
        sends := c.sends.erase i } c.state.receiverWaker.toList)

section
variable [DecidableEq ω] {c c' : Mpsc τ ω} {i : Nat} {p : Send τ ω} {waker : ω} {answers : List (Answer τ)}

theorem wake_nil (c : Mpsc τ ω) : c.wake [] = c := by
  simp only [wake, List.not_mem_nil, false_and, exists_false, if_false]
  exact congrArg (Mpsc.mk c.state c.senders) (Table.ext (funext fun i => Option.map_id') rfl)

theorem get_wake_erase {sends : Table (Send τ ω)} {state : State τ ω} {senders : Table Unit}
    {wakers : List ω} :
    (wake ⟨state, senders, sends.erase i⟩ wakers).sends.get i = none := by
  simp [wake, Table.map, Table.get_erase_self]

theorem polled_of_call (hi : c.sends.get i = some p) (hp : p.polling = none)
    (h : c.call (.poll i waker) = some (c', answers)) : Polled c i p waker c' := by
  simp only [call, Op.sections, Machine.run, step, poll, hi, hp, advance, SendFuture.lockSection] at h
  split at h
  · rename_i hr
    cases hv : p.future.value with
    | none => simp [SendFuture.giveBack, hv] at h
    | some value =>
      simp only [SendFuture.giveBack, hv, resume, advance, SendFuture.lockSection, wake_nil,
        Option.map_some, Option.bind_some,
        Table.get_set_self hi, Table.erase_set, Table.get_erase_self] at h
      cases h
      exact .closed hr
  · rename_i hr
    split at h
    · rename_i hq
      cases hid : p.future.waiterId with
      | none =>
        simp only [resume, advance, SendFuture.lockSection, wake_nil, Option.map_some, Option.bind_some,
          Table.get_set_self hi, Table.set_set, hid, if_neg hr] at h
        cases h
        exact .first (by simpa using hr) hq hid
      | some id =>
        simp only [resume, advance, SendFuture.lockSection, wake_nil, Option.map_some, Option.bind_some,
          Table.get_set_self hi, Table.set_set, hid, if_neg hr] at h
        cases h
        exact .again (by simpa using hr) hq hid
    · rename_i hq
      cases hv : p.future.value with
      | none => simp [hv] at h
      | some value =>
        simp only [hv, resume, advance, SendFuture.lockSection, wake_nil, Option.map_some, Option.bind_some,
          Table.get_set_self hi, Table.erase_set, get_wake_erase, if_neg hr, if_neg hq] at h
        cases h
        exact .sent (by simpa using hr) (not_le.mp hq)

end

/-! ## The invariant -/

/-- Between two calls, or before the last of them has woken the wakers. -/
structure Waiting (wakers : List ω) (c : Mpsc τ ω) : Prop where
  idle : ∀ i p, c.sends.get i = some p → p.polling = none
  /-- A future of `send` has an id of its own. -/
  own : ∀ i j p q id, c.sends.get i = some p → c.sends.get j = some q → p.future.waiterId = some id →
    q.future.waiterId = some id → j = i
  used : ∀ i p id, c.sends.get i = some p → p.future.waiterId = some id → id < c.state.nextWaiterId
  /-- What is filed is in the order, and is the waker of a live future's last poll. -/
  filed : ∀ id w, c.state.sendWaiters.get? id = some w → id ∈ c.state.sendWaitOrder ∧
    ∃ i p, c.sends.get i = some p ∧ p.future.waiterId = some id ∧ p.waker = some w
  woken : c.state.receiverAlive = true → ∀ i p, c.sends.get i = some p → p.notified c.state = true →
    p.woken = true ∨ ∃ w ∈ wakers, p.waker = some w
  /-- For each free slot one was woken, if somebody is registered. -/
  slots : c.state.receiverAlive = true → (∃ id w, c.state.sendWaiters.get? id = some w) →
    c.state.capacity ≤ c.state.queue.length + c.notified

/-- What the futures of `send` that wait depend on is the same, and no slot became free. -/
structure State.Full (s s' : State τ ω) : Prop where
  capacity : s'.capacity = s.capacity
  receiverAlive : s'.receiverAlive = s.receiverAlive
  nextWaiterId : s'.nextWaiterId = s.nextWaiterId
  sendWaitOrder : s'.sendWaitOrder = s.sendWaitOrder
  sendWaiters : s'.sendWaiters = s.sendWaiters
  queue : s.queue.length ≤ s'.queue.length

section
variable {c : Mpsc τ ω} {i : Nat} {p : Send τ ω} {s' : State τ ω} {wakers : List ω}

theorem notified_congr {s s' : State τ ω} (h : ∀ id, p.future.waiterId = some id →
    s'.sendWaiters.get? id = s.sendWaiters.get? id) : p.notified s' = p.notified s := by
  simp only [Send.notified]
  split
  · rename_i id hid
    rw [h id hid]
  · rfl

theorem Waiting.of_full {senders : Table Unit} (h : c.Waiting wakers) (hs : c.state.Full s') :
    Waiting wakers { c with state := s', senders } := by
  have hn : ∀ p : Send τ ω, p.notified s' = p.notified c.state :=
    fun p => notified_congr fun id _ => by rw [hs.sendWaiters]
  have hcount : notified { c with state := s', senders } = c.notified :=
    Table.total_congr fun j q _ => by simp only [hn]
  refine ⟨h.idle, h.own, ?_, ?_, ?_, ?_⟩
  · rw [hs.nextWaiterId]
    exact h.used
  · rw [hs.sendWaiters, hs.sendWaitOrder]
    exact h.filed
  · intro hr j q hj hq
    rw [hn] at hq
    exact h.woken (hs.receiverAlive ▸ hr) j q hj hq
  · intro hr hw
    have := h.slots (hs.receiverAlive ▸ hr) (hs.sendWaiters ▸ hw)
    have := hs.queue
    rw [hcount]
    show s'.capacity ≤ s'.queue.length + c.notified
    rw [hs.capacity]
    omega

/-- The wakers are woken. -/
theorem Waiting.wake [DecidableEq ω] (h : c.Waiting wakers) : (c.wake wakers).Waiting [] := by
  have hcount : (c.wake wakers).notified = c.notified := by
    refine Table.total_map.trans (Table.total_congr fun j q _ => ?_)
    split <;> rfl
  refine ⟨fun i p hp => ?_, fun i j p q id hp hq hpid hqid => ?_, fun i p id hp hid => ?_, fun id w hw => ?_,
    fun hr i p hp hn => ?_, fun hr hw => ?_⟩
  · obtain ⟨woken, hp⟩ := get_wake hp
    have := h.idle i _ hp
    exact this
  · obtain ⟨woken, hp⟩ := get_wake hp
    obtain ⟨woken', hq⟩ := get_wake hq
    exact h.own i j _ _ id hp hq hpid hqid
  · obtain ⟨woken, hp⟩ := get_wake hp
    exact h.used i _ id hp hid
  · obtain ⟨ho, i, p, hp, hid, hpw⟩ := h.filed id w hw
    refine ⟨ho, i, _, Table.get_map_eq_some.mpr ⟨p, hp, rfl⟩, ?_, ?_⟩
    · split <;> exact hid
    · split <;> exact hpw
  · obtain ⟨p₀, hp₀, rfl⟩ := Table.get_map_eq_some.mp hp
    refine .inl ?_
    split
    · rfl
    · rename_i hno
      rw [if_neg hno] at hn
      exact (h.woken hr i p₀ hp₀ hn).resolve_right hno
  · rw [hcount]
    exact h.slots hr hw

/-! ## A future of `send` is dropped -/

/-- The ids of the others are not touched. -/
theorem Waiting.get?_drop (h : c.Waiting wakers) (hi : c.sends.get i = some p)
    (hs : s'.sendWaiters = c.state.sendWaiters) {j : Nat} {q : Send τ ω}
    (hj : (c.sends.erase i).get j = some q) {id : Nat} (hid : q.future.waiterId = some id) :
    (p.future.drop s').sendWaiters.get? id = c.state.sendWaiters.get? id := by
  obtain ⟨hji, hj⟩ := Table.get_erase_eq_some.mp hj
  simp only [SendFuture.drop]
  split
  · rename_i id' hid'
    have hne : id ≠ id' := by
      rintro rfl
      exact hji (h.own i j p q id hi hj hid' hid)
    rw [BTreeMap.get?_erase_of_ne hne, hs]
  · rw [hs]

theorem Waiting.notified_erase (h : c.Waiting wakers) (hi : c.sends.get i = some p)
    (hs : s'.sendWaiters = c.state.sendWaiters) (senders : Table Unit) :
    notified ⟨p.future.drop s', senders, c.sends.erase i⟩ + (p.notified c.state).toNat = c.notified := by
  have hrest : notified ⟨p.future.drop s', senders, c.sends.erase i⟩ =
      (c.sends.erase i).total fun q => (q.notified c.state).toNat :=
    Table.total_congr fun j q hj => by rw [notified_congr fun id hid => h.get?_drop hi hs hj hid]
  rw [hrest]
  exact Table.total_erase hi

/-- What is filed after a drop was filed before, for another future. -/
theorem filed_drop {id : Nat} {w : ω} (hs : s'.sendWaiters = c.state.sendWaiters)
    (hw : (p.future.drop s').sendWaiters.get? id = some w) :
    c.state.sendWaiters.get? id = some w ∧ p.future.waiterId ≠ some id := by
  simp only [SendFuture.drop] at hw
  split at hw
  · rename_i id' hid'
    obtain ⟨hmem, hne⟩ := BTreeMap.mem_erase.mp (BTreeMap.get?_eq_some.mp hw)
    rw [hs] at hmem
    refine ⟨BTreeMap.get?_eq_some.mpr hmem, fun e => hne ?_⟩
    rw [hid'] at e
    exact (Option.some.inj e).symm
  · rename_i hid'
    rw [hs] at hw
    exact ⟨hw, by rw [hid']; simp⟩

/-- The future `i` goes, and what it was woken for is not needed or taken. -/
theorem Waiting.erase (h : c.Waiting wakers) (hi : c.sends.get i = some p) (hs : c.state.Full s')
    (hslots : c.state.receiverAlive = true → (∃ j, c.Registered j) →
      c.state.capacity + (p.notified c.state).toNat ≤ s'.queue.length + c.notified) :
    Waiting wakers { c with state := p.future.drop s', sends := c.sends.erase i } := by
  have hcount := h.notified_erase hi hs.sendWaiters c.senders
  have hsame : (p.future.drop s').nextWaiterId = s'.nextWaiterId ∧
      (p.future.drop s').sendWaitOrder = s'.sendWaitOrder ∧
        (p.future.drop s').receiverAlive = s'.receiverAlive ∧ (p.future.drop s').capacity = s'.capacity ∧
        (p.future.drop s').queue = s'.queue := by
    simp only [SendFuture.drop]
    split <;> exact ⟨rfl, rfl, rfl, rfl, rfl⟩
  obtain ⟨hnext, horder, halive, hcap, hqueue⟩ := hsame
  have hold : ∀ {j q}, (c.sends.erase i).get j = some q → c.sends.get j = some q :=
    fun hj => (Table.get_erase_eq_some.mp hj).2
  refine ⟨fun j q hj => h.idle j q (hold hj), fun j k q r id hj hk => h.own j k q r id (hold hj) (hold hk),
    fun j q id hj hid => ?_, fun id w hw => ?_, fun hr j q hj hq => ?_, fun hr hw => ?_⟩
  · show id < (p.future.drop s').nextWaiterId
    rw [hnext, hs.nextWaiterId]
    exact h.used j q id (hold hj) hid
  · obtain ⟨hw, hne⟩ := filed_drop hs.sendWaiters hw
    obtain ⟨ho, j, q, hj, hid, hqw⟩ := h.filed id w hw
    refine ⟨?_, j, q, Table.get_erase_eq_some.mpr ⟨?_, hj⟩, hid, hqw⟩
    · show id ∈ (p.future.drop s').sendWaitOrder
      rw [horder, hs.sendWaitOrder]
      exact ho
    · rintro rfl
      rw [hi] at hj
      cases hj
      exact hne hid
  · rw [notified_congr fun id hid => h.get?_drop hi hs.sendWaiters hj hid] at hq
    exact h.woken ((hs.receiverAlive.symm.trans halive.symm).trans hr) j q (hold hj) hq
  · obtain ⟨id, w, hw⟩ := hw
    obtain ⟨hw, -⟩ := filed_drop hs.sendWaiters hw
    obtain ⟨-, j, q, hj, hid, -⟩ := h.filed id w hw
    have := hslots ((hs.receiverAlive.symm.trans halive.symm).trans hr) ⟨j, q, id, w, hj, hid, hw⟩
    show (p.future.drop s').capacity ≤ (p.future.drop s').queue.length + _
    rw [hcap, hqueue, hs.capacity]
    omega

/-! ## A sender is woken -/

/-- What the loop of `wake_one_sender` finds. -/
theorem popWaiter_spec (waiters : BTreeMap Nat ω) (order : List Nat) :
    (State.popWaiter waiters order = ([], waiters, []) ∧ ∀ id ∈ order, waiters.get? id = none) ∨
    ∃ pre id post w, order = pre ++ id :: post ∧ (∀ x ∈ pre, waiters.get? x = none) ∧
    waiters.get? id = some w ∧
      State.popWaiter waiters order = (post, waiters.erase id, [w]) := by
  induction order with
  | nil => exact .inl ⟨rfl, by simp⟩
  | cons id order ih =>
    cases hid : waiters.get? id with
    | some w => exact .inr ⟨[], id, order, w, rfl, by simp, hid, by simp [State.popWaiter, hid]⟩
    | none =>
      simp only [State.popWaiter, hid]
      rcases ih with ⟨hpop, hno⟩ | ⟨pre, id', post, w, rfl, hpre, hid', hpop⟩
      · exact .inl ⟨hpop, by simpa [hid] using hno⟩
      · exact .inr ⟨id :: pre, id', post, w, rfl, by simpa [hid] using hpre, hid', hpop⟩

/-- A value is taken from the queue, and a sender is to be woken. -/
theorem Waiting.pop (h : c.Waiting []) {value : τ} {queue : List τ} (hq : c.state.queue = value :: queue) :
    Waiting ({ c.state with queue } : State τ ω).wakeOneSender.2
      { c with state := ({ c.state with queue } : State τ ω).wakeOneSender.1 } := by
  have hlen : c.state.queue.length = queue.length + 1 := by rw [hq, List.length_cons]
  simp only [State.wakeOneSender]
  rcases popWaiter_spec c.state.sendWaiters c.state.sendWaitOrder with ⟨hpop, hno⟩
    | ⟨pre, id, post, w, horder, hpre, hid, hpop⟩
  · -- nobody is registered
    have hnone : ∀ id w, c.state.sendWaiters.get? id ≠ some w := fun id w hw => by
      rw [hno id (h.filed id w hw).1] at hw
      cases hw
    rw [hpop]
    exact ⟨h.idle, h.own, h.used, fun id w hw => absurd hw (hnone id w), h.woken,
      fun _ hw => by obtain ⟨id, w, hw⟩ := hw; exact absurd hw (hnone id w)⟩
  · obtain ⟨-, i, p, hi, hpid, hpw⟩ := h.filed id w hid
    rw [hpop]
    have hother : ∀ j q, j ≠ i → c.sends.get j = some q → ∀ x, q.future.waiterId = some x →
        (c.state.sendWaiters.erase id).get? x = c.state.sendWaiters.get? x := by
      intro j q hji hj x hx
      refine BTreeMap.get?_erase_of_ne ?_
      rintro rfl
      exact hji (h.own i j p q x hi hj hpid hx)
    refine ⟨h.idle, h.own, h.used, fun x v hx => ?_, fun hr j q hj hn => ?_, fun hr hw => ?_⟩
    · obtain ⟨hmem, hne⟩ := BTreeMap.mem_erase.mp (BTreeMap.get?_eq_some.mp hx)
      have hx := BTreeMap.get?_eq_some.mpr hmem
      obtain ⟨ho, hlive⟩ := h.filed x v hx
      refine ⟨?_, hlive⟩
      rw [horder] at ho
      rcases List.mem_append.mp ho with ho | ho
      · rw [hpre x ho] at hx
        cases hx
      · exact (List.mem_cons.mp ho).resolve_left hne
    · by_cases hji : j = i
      · subst hji
        rw [hi] at hj
        cases hj
        exact .inr ⟨w, List.mem_singleton_self w, hpw⟩
      · rw [notified_congr (hother j q hji hj)] at hn
        exact .inl ((h.woken hr j q hj hn).resolve_right (by simp))
    · -- the one that is woken counts from now on
      have hbefore : p.notified c.state = false := by simp [Send.notified, hpid, hid]
      have hafter : p.notified { c.state with
        queue, sendWaitOrder := post, sendWaiters := c.state.sendWaiters.erase id } =
          true := by simp [Send.notified, hpid]
      have hsame : ∀ j q, j ≠ i → c.sends.get j = some q → (q.notified { c.state with
          queue, sendWaitOrder := post, sendWaiters := c.state.sendWaiters.erase id }).toNat =
            (q.notified c.state).toNat :=
        fun j q hji hj => congrArg Bool.toNat (notified_congr (hother j q hji hj))
      have hcount := Table.total_eq_at hi hsame
      have hslots := h.slots hr ⟨id, w, hid⟩
      rw [hbefore, hafter] at hcount
      simp only [notified] at hslots ⊢
      simp only [Bool.toNat_false, Bool.toNat_true] at hcount
      omega

/-! ## A future of `send` is registered -/

/-- The queue is full, and the future `i` is filed under an id that only it has. -/
theorem Waiting.register (h : c.Waiting []) (hi : c.sends.get i = some p) {p' : Send τ ω}
    {id next : Nat} {w : ω} (hq : c.state.capacity ≤ c.state.queue.length)
    (hnext : c.state.nextWaiterId ≤ next) (hid : id < next)
    (hown : ∀ j q, j ≠ i → c.sends.get j = some q → q.future.waiterId ≠ some id)
    (hold : ∀ x, p.future.waiterId = some x → x = id) (hidle : p'.polling = none)
    (hpid : p'.future.waiterId = some id) (hpw : p'.waker = some w) :
    Waiting [] { c with
      state := { c.state with
        nextWaiterId := next
        sendWaitOrder := c.state.sendWaitOrder ++ [id]
        sendWaiters := c.state.sendWaiters.insert id w }
      sends := c.sends.set i p' } := by
  have hset : ∀ {j q}, (c.sends.set i p').get j = some q ↔ (j = i ∧ q = p') ∨
      (j ≠ i ∧ c.sends.get j = some q) :=
    Table.get_set_eq_some hi
  refine ⟨fun j q hj => ?_, fun j k q r x hj hk hjx hkx => ?_, fun j q x hj hx => ?_, fun x v hx => ?_,
    fun hr j q hj hn => ?_,
    fun _ _ => le_add_right hq⟩
  · rcases hset.mp hj with ⟨-, rfl⟩ | ⟨-, hj⟩
    · exact hidle
    · exact h.idle j q hj
  · rcases hset.mp hj with ⟨rfl, rfl⟩ | ⟨hji, hj'⟩ <;> rcases hset.mp hk with ⟨rfl, rfl⟩ | ⟨hki, hk'⟩
    · rfl
    · rw [hpid] at hjx
      exact absurd (hkx.trans hjx.symm) (hown k r hki hk')
    · rw [hpid] at hkx
      exact absurd (hjx.trans hkx.symm) (hown j q hji hj')
    · exact h.own j k q r x hj' hk' hjx hkx
  · rcases hset.mp hj with ⟨rfl, rfl⟩ | ⟨-, hj⟩
    · rw [hpid] at hx
      cases hx
      exact hid
    · exact (h.used j q x hj hx).trans_le hnext
  · rcases BTreeMap.mem_insert.mp (BTreeMap.get?_eq_some.mp hx) with he | ⟨hmem, hne⟩
    · cases he
      exact ⟨List.mem_append_right _ (List.mem_singleton_self id), i, p',
        hset.mpr (.inl ⟨rfl, rfl⟩), hpid, hpw⟩
    · obtain ⟨ho, j, q, hj, hqx, hqw⟩ := h.filed x v (BTreeMap.get?_eq_some.mpr hmem)
      refine ⟨List.mem_append_left _ ho, j, q, hset.mpr (.inr ⟨?_, hj⟩), hqx, hqw⟩
      rintro rfl
      rw [hi] at hj
      cases hj
      exact hne (hold x hqx)
  · rcases hset.mp hj with ⟨rfl, rfl⟩ | ⟨hji, hj'⟩
    · simp [Send.notified, hpid] at hn
    · refine h.woken hr j q hj' ?_
      rw [← hn]
      refine (notified_congr fun x hx => BTreeMap.get?_insert_of_ne ?_).symm
      rintro rfl
      exact hown j q hji hj' hx

/-! ## Calls -/

theorem Waiting.mono (h : c.Waiting []) : c.Waiting wakers :=
  ⟨h.idle, h.own, h.used, h.filed, fun hr i p hp hn => .inl
    ((h.woken hr i p hp hn).resolve_right (by simp)), h.slots⟩

variable [DecidableEq ω]

theorem Waiting.polled (h : c.Waiting []) (hi : c.sends.get i = some p) {waker : ω} {c' : Mpsc τ ω}
    (hp : Polled c i p waker c') : c'.Waiting [] := by
  cases hp with
  | closed hr =>
    refine h.erase hi ⟨rfl, rfl, rfl, rfl, rfl, le_rfl⟩ fun hr' => ?_
    rw [hr] at hr'
    cases hr'
  | first hr hq hid =>
    refine h.register hi hq (Nat.le_succ _) (Nat.lt_succ_self _) (fun j q _ hj hqid => ?_)
      (fun x hx => ?_) rfl rfl rfl
    · exact absurd (h.used j q _ hj hqid) (Nat.lt_irrefl _)
    · rw [hid] at hx
      cases hx
  | again hr hq hid =>
    refine h.register hi hq le_rfl (h.used i p _ hi hid) (fun j q hji hj hqid => ?_)
      (fun x hx => ?_) rfl hid rfl
    · exact hji (h.own i j p q _ hi hj hid hqid)
    · rw [hid] at hx
      exact (Option.some.inj hx).symm
  | sent hr hq =>
    -- the slot that it takes is the one that it was woken for
    refine .wake (.mono (h.erase hi ⟨rfl, rfl, rfl, rfl, rfl, ?_⟩ fun hr hj => ?_))
    · simp
    · obtain ⟨j, q, id, w, -, -, hw⟩ := hj
      have := h.slots hr ⟨id, w, hw⟩
      have := Bool.toNat_le (p.notified c.state)
      simp only [List.length_append, List.length_singleton]
      omega

theorem Waiting.dropReceiver (h : c.Waiting []) :
    Waiting [] (Mpsc.wake { c with state := c.state.dropReceiver.1 } c.state.dropReceiver.2) := by
  have : Waiting [] { c with state := c.state.dropReceiver.1 } := by
    refine ⟨h.idle, h.own, h.used, fun id w hw => ?_, fun hr => ?_, fun hr => ?_⟩
    · cases hw
    · cases hr
    · cases hr
  exact this.mono.wake

omit [DecidableEq ω] in
theorem Waiting.send (h : c.Waiting []) (value : τ) :
    Waiting [] { c with sends := c.sends.insert ⟨⟨some value, none⟩, none, value, none, false⟩ } := by
  have hget : ∀ {j q}, (c.sends.insert ⟨⟨some value, none⟩, none, value, none, false⟩).get j = some q →
      c.sends.get j = some q ∨ (q.polling = none ∧ q.future.waiterId = none) := by
    intro j q hj
    rcases Table.get_insert_eq_some.mp hj with ⟨-, rfl⟩ | hj
    · exact .inr ⟨rfl, rfl⟩
    · exact .inl hj
  have hlive : ∀ {j q id}, (c.sends.insert ⟨⟨some value, none⟩, none, value, none, false⟩).get j = some q →
      q.future.waiterId = some id → c.sends.get j = some q := by
    intro j q id hj hid
    refine (hget hj).resolve_right fun hnew => ?_
    rw [hnew.2] at hid
    cases hid
  refine ⟨fun j q hj => ?_, fun j k q r id hj hk hjid hkid => h.own j k q r id (hlive hj hjid)
    (hlive hk hkid) hjid hkid,
    fun j q id hj hid => h.used j q id (hlive hj hid) hid, fun id w hw => ?_, fun hr j q hj hn => ?_,
    fun hr hw => ?_⟩
  · rcases hget hj with hj | hnew
    · exact h.idle j q hj
    · exact hnew.1
  · obtain ⟨ho, j, q, hj, hq⟩ := h.filed id w hw
    exact ⟨ho, j, q, Table.get_insert_eq_some.mpr (.inr hj), hq⟩
  · rcases hget hj with hj | hnew
    · exact h.woken hr j q hj hn
    · simp [Send.notified, hnew.2] at hn
  · have hcount :
        notified { c with sends := c.sends.insert ⟨⟨some value, none⟩, none, value, none, false⟩ } =
          c.notified := by
      simp [notified, Send.notified]
    rw [hcount]
    exact h.slots hr hw

omit [DecidableEq ω] in
theorem Waiting.ofSender (h : c.Waiting []) {r : Mpsc τ ω × Answer τ} (hr : r.1.Waiting []) :
    (c.ofSender i r).1.Waiting [] := by
  simp only [Mpsc.ofSender]
  split
  · exact h
  · exact hr

omit [DecidableEq ω] in
theorem Waiting.ofReceiver (h : c.Waiting []) {r : Mpsc τ ω × Answer τ} (hr : r.1.Waiting []) :
    (c.ofReceiver r).1.Waiting [] := by
  simp only [Mpsc.ofReceiver]
  split
  · exact hr
  · exact h

omit [DecidableEq ω] in
theorem Waiting.dropSend (h : c.Waiting []) (hc : c.Considerate (.dropSend i)) :
    (c.dropSend i).1.Waiting [] := by
  simp only [Mpsc.dropSend]
  split
  · exact h
  · rename_i p hi
    split
    · exact h
    · refine h.erase hi ⟨rfl, rfl, rfl, rfl, rfl, le_rfl⟩ fun hr hj => ?_
      obtain ⟨j, q, id, w, -, -, hw⟩ := id hj
      have hslots := h.slots hr ⟨id, w, hw⟩
      cases hn : p.notified c.state with
      | false => simpa using hslots
      | true =>
        have := hc p hi hn hr hj
        rw [Bool.toNat_true]
        omega

/-- An operation that is no poll. -/
theorem Waiting.step (h : c.Waiting []) {op : Op τ ω} (hc : c.Considerate op)
    (hop : ∀ i waker, op ≠ .poll i waker) {r : Mpsc τ ω × Answer τ} (hs : c.step op = some r) :
    r.1.Waiting [] := by
  cases op with
  | clone i =>
    cases hs
    exact h.ofSender (h.of_full ⟨rfl, rfl, rfl, rfl, rfl, le_rfl⟩)
  | dropSender i =>
    cases hs
    refine h.ofSender (.wake (.mono (h.of_full ?_)))
    simp only [State.dropSender, State.wakeReceiver]
    split <;> exact ⟨rfl, rfl, rfl, rfl, rfl, le_rfl⟩
  | send i value =>
    cases hs
    exact h.ofSender (h.send value)
  | trySend i value =>
    cases hs
    refine h.ofSender (.wake (.mono (h.of_full ?_)))
    simp only [State.trySend, State.wakeReceiver]
    split
    · exact ⟨rfl, rfl, rfl, rfl, rfl, le_rfl⟩
    · split
      · exact ⟨rfl, rfl, rfl, rfl, rfl, le_rfl⟩
      · exact ⟨rfl, rfl, rfl, rfl, rfl, by simp⟩
  | poll i waker => exact absurd rfl (hop i waker)
  | resume i =>
    simp only [Mpsc.step, Mpsc.resume] at hs
    split at hs
    · cases hs
      exact h
    · rename_i p hi
      rw [h.idle i p hi] at hs
      cases hs
      exact h
  | dropSend i =>
    cases hs
    exact h.dropSend hc
  | recv waker =>
    cases hs
    refine h.ofReceiver ?_
    simp only [State.recv]
    split
    · rename_i hq
      exact (h.pop hq).wake
    · split
      · exact h.mono.wake
      · exact .wake (.mono (h.of_full ⟨rfl, rfl, rfl, rfl, rfl, le_rfl⟩))
  | tryRecv =>
    cases hs
    refine h.ofReceiver ?_
    simp only [State.tryRecv]
    split
    · rename_i hq
      exact (h.pop hq).wake
    · split <;> exact h.mono.wake
  | dropReceiver =>
    cases hs
    exact h.ofReceiver h.dropReceiver
  | wake waker =>
    cases hs
    exact h.mono.wake

theorem Waiting.call (h : c.Waiting []) {op : Op τ ω} (hc : c.Considerate op) {c' : Mpsc τ ω}
    {answers : List (Answer τ)} (hs : c.call op = some (c', answers)) : c'.Waiting [] := by
  by_cases hop : ∃ i waker, op = .poll i waker
  · obtain ⟨i, waker, rfl⟩ := hop
    cases hi : c.sends.get i with
    | none =>
      simp only [Mpsc.call, Op.sections, Machine.run, Mpsc.step, Mpsc.poll, Mpsc.resume, hi, Option.bind_some,
        Option.map_some] at hs
      cases hs
      exact h
    | some p => exact h.polled hi (polled_of_call hi (h.idle i p hi) hs)
  · have hop : ∀ i waker, op ≠ .poll i waker := fun i waker e => hop ⟨i, waker, e⟩
    have hsec : op.sections = [op] := by
      cases op with
      | poll i waker => exact absurd rfl (hop i waker)
      | _ => rfl
    rw [Mpsc.call, hsec] at hs
    obtain ⟨u, o, os, hu, hnil, -⟩ := Machine.run_cons.mp hs
    rw [(Machine.run_nil.mp hnil).1]
    exact h.step hc hop hu

/-! ## Runs -/

omit [DecidableEq ω] in
theorem Waiting.offered (h : c.Waiting []) : c.Offered := by
  rintro hr hq ⟨j, q, id, w, -, -, hw⟩
  have hslots := h.slots hr ⟨id, w, hw⟩
  obtain ⟨i, p, hi, hn⟩ := Table.exists_of_total_ne_zero
    (show c.sends.total (fun p => (p.notified c.state).toNat) ≠ 0 from fun h0 => by
      rw [notified, h0] at hslots
      omega)
  refine ⟨i, p, hi, (h.woken hr i p hi ?_).resolve_right (by simp)⟩
  by_contra hno
  exact hn (by simp [hno])

omit [DecidableEq ω] in
theorem Waiting.new {n : Nat} (h : channel n = some c) : c.Waiting [] := by
  simp only [channel, Option.ite_none_left_eq_some, Option.some.injEq] at h
  obtain ⟨-, rfl⟩ := h
  refine ⟨fun i p hp => ?_, fun i j p q id hp => ?_, fun i p id hp => ?_, fun id w hw => ?_,
    fun _ i p hp => ?_, fun _ hw => ?_⟩
  · cases hp
  · cases hp
  · cases hp
  · cases hw
  · cases hp
  · obtain ⟨id, w, hw⟩ := hw
    cases hw

/-- In every run whose calls are all considerate, whenever the receiver is alive, a slot is free and
a future of `send` is registered, one that is alive has been woken since its last poll. -/
theorem run_offered {n : Nat} {c₀ : Mpsc τ ω} (h : channel n = some c₀) (ops : List (Op τ ω))
    (hC : Machine.Along Considerate call c₀ ops) : ∃ c answers, Machine.run call c₀ ops = some (c, answers) ∧ c.Offered := by
  obtain ⟨c, answers, hrun⟩ : ∃ c answers, Machine.run call c₀ ops = some (c, answers) := by
    refine Machine.run_isSome (P := fun c _ => ∃ answers, Inv n c answers) (fun c op l hc => ?_) ⟨[], .new h⟩
    obtain ⟨answers, hc⟩ := hc
    obtain ⟨c', answers', hs, hinv, -⟩ := hc.run op.sections
    exact ⟨c', answers', hs, _, hinv⟩
  have hwait := hC.invariant (P := Waiting []) (fun c op c' a hc hop hs => hc.call hop hs) (.new h) hrun
  exact ⟨c, answers, hrun, hwait.offered⟩

end

/-- The channel with room for one value. -/
def single : Mpsc Nat Nat := ⟨.new 1, Table.empty.insert (), .empty⟩

/-- Three futures of `send` wait for a full channel, the last of them is dropped, and the first is woken. -/
def contention : List (Op Nat Nat) :=
  [.trySend 0 6, .send 0 7, .poll 0 1, .send 0 8, .poll 1 2, .send 0 9, .poll 2 3, .dropSend 2, .recv 4]

theorem run_offered_contention : ∃ c answers, Machine.run call single contention = some (c, answers) ∧
    c.state.receiverAlive = true ∧ c.state.queue.length < c.state.capacity ∧ c.Registered 1 ∧ c.Offered := by
  have hrun : Machine.run call single contention = some (_, _) := rfl
  obtain ⟨c, answers, hrun', hoff⟩ := run_offered (rfl : channel 1 = some single) contention (by
    iterate 7
      refine ⟨trivial, fun c _ e => ?_⟩
      cases e
    -- the future that is dropped has not been woken
    refine ⟨fun p hp hn => ?_, fun c _ e => ?_⟩
    · cases hp
      cases hn
    · cases e
      exact ⟨trivial, fun c _ _ => trivial⟩)
  refine ⟨c, answers, hrun', ?_⟩
  cases hrun.symm.trans hrun'
  exact ⟨rfl, by decide, ⟨_, 1, 2, rfl, rfl, rfl⟩, hoff⟩

/-- When the future that was woken is dropped before it is polled, the slot stays free and nobody is
woken, though the other future is registered. -/
theorem wokenSendDropped_strands : ∃ c answers,
    Machine.run call single (contention ++ [.dropSend 0]) = some (c, answers) ∧ ¬ c.Offered := by
  have hrun : Machine.run call single (contention ++ [.dropSend 0]) = some (_, _) := rfl
  refine ⟨_, _, hrun, fun hoff => ?_⟩
  obtain ⟨i, p, hi, hw⟩ := hoff rfl (by decide) ⟨1, _, 1, 2, rfl, rfl, rfl⟩
  have hlt : i < 3 := Table.lt_next hi
  obtain rfl | rfl | rfl : i = 0 ∨ i = 1 ∨ i = 2 := by omega
  · cases hi
  · cases hi
    cases hw
  · cases hi

end DesCartes.Mpsc
