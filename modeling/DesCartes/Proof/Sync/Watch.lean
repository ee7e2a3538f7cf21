import DesCartes.Framework.Machine
import DesCartes.Impl.Sync.Watch

/-!
# Updates and closure of the watch channel

`run_updates`: in every run a receiver whose `changed` is pending is registered with its last waker,
or has been woken, and every update and the closure wake it; the value is always that of the last
update; and the versions that the `changed` of a receiver finds go up.

`run_closure`: the channel is closed exactly when every `Sender` is gone, as long as no `Sender` is
dropped while another one is alive; and only then, as the first that is dropped closes it
(`firstDropped_closes`).
-/

namespace DesCartes.Watch

variable {τ ω : Type} [DecidableEq ω]

/-! ## What an operation does -/

/-- The value is updated and the receivers are woken. -/
def updateWith (c : Watch τ ω) (value : τ) : Watch τ ω :=
  wake { c with state := (c.state.update value).1 } (c.state.update value).2

/-- The channel is closed by the sender `a`, which is dropped. -/
def closeBy (c : Watch τ ω) (a : Nat) : Watch τ ω :=
  wake { c with state := { c.state with senderAlive := false }.wakeAll.1, senders := c.senders.erase a }
    { c.state with senderAlive := false }.wakeAll.2

/-- What an operation does, and which of the answers it gives that are about updates and polls. -/
inductive Performed (c : Watch τ ω) : Op τ ω → Watch τ ω → Answer τ → Prop where
  /-- Nothing changes. -/
  | unchanged {op : Op τ ω} {ans : Answer τ} (hu : ans.updated = none) (hc : ∀ i v p, ans ≠ .changed i v p) :
      Performed c op c ans
  | cloned {a : Nat} (ha : c.senders.get a = some ()) :
      Performed c (.cloneSender a) { c with senders := c.senders.insert () } .done
  | closed {a : Nat} (ha : c.senders.get a = some ()) (hs : c.state.senderAlive = true) :
      Performed c (.dropSender a) (c.closeBy a) .done
  | dropped {a : Nat} (ha : c.senders.get a = some ()) (hs : c.state.senderAlive = false) :
      Performed c (.dropSender a) { c with senders := c.senders.erase a } .done
  | updated {op : Op τ ω} {ans : Answer τ} {value : τ} (hu : ans.updated = some value)
      (hc : ∀ i v p, ans ≠ .changed i v p) (hop : ∀ a, op ≠ .dropSender a) : Performed c op (c.updateWith value) ans
  | subscribed {op : Op τ ω} (hop : ∀ a, op ≠ .dropSender a) : Performed c op c.subscribe .done
  | receiverDropped {i : Nat} {r : Receiver ω} (hi : c.receivers.get i = some r) :
      Performed c (.dropReceiver i)
        { c with state := c.state.removeReceiver r.id, receivers := c.receivers.erase i } .done
  | seen {i : Nat} {r : Receiver ω} (hi : c.receivers.get i = some r) :
      Performed c (.borrowAndUpdate i)
        { c with receivers := c.receivers.set i { r with seenVersion := c.state.version } } (.borrowed c.state.value)
  | changed {i : Nat} {r : Receiver ω} {waker : ω} (hi : c.receivers.get i = some r)
      (hv : r.seenVersion ≠ c.state.version) :
      Performed c (.pollChanged i waker)
        { c with receivers := c.receivers.set i { r with seenVersion := c.state.version, pending := none, woken := false } }
        (.changed i c.state.version (.ready (.ok ())))
  | gone {i : Nat} {r : Receiver ω} {waker : ω} (hi : c.receivers.get i = some r)
      (hv : r.seenVersion = c.state.version) (hs : c.state.senderAlive = false) :
      Performed c (.pollChanged i waker)
        { c with receivers := c.receivers.set i { r with pending := none, woken := false } }
        (.changed i c.state.version (.ready (.error ⟨⟩)))
  | waits {i : Nat} {r : Receiver ω} {waker : ω} (hi : c.receivers.get i = some r)
      (hv : r.seenVersion = c.state.version) (hs : c.state.senderAlive = true) :
      Performed c (.pollChanged i waker)
        { c with
          state := { c.state with receiverWakers := c.state.receiverWakers.insert r.id waker }
          receivers := c.receivers.set i { r with pending := some waker, woken := false } }
        (.changed i c.state.version .pending)
  | changedDropped {i : Nat} {r : Receiver ω} (hi : c.receivers.get i = some r) :
      Performed c (.dropChanged i)
        { c with receivers := c.receivers.set i { r with pending := none, woken := false } } .done

section
variable {c c' : Watch τ ω} {op : Op τ ω} {ans : Answer τ} {v : τ} {answers : List (Answer τ)}

omit [DecidableEq ω] in
theorem ofSender_cases {a : Nat} {f : Watch τ ω × Answer τ} {P : Watch τ ω × Answer τ → Prop}
    (hn : P (c, .done)) (hf : c.senders.get a = some () → P f) : P (c.ofSender a f) := by
  simp only [ofSender]
  split
  · exact hn
  · rename_i ha
    exact hf ha

omit [DecidableEq ω] in
theorem ofReceiver_cases {i : Nat} {f : Receiver ω → Watch τ ω × Answer τ} {P : Watch τ ω × Answer τ → Prop}
    (hn : P (c, .done)) (hf : ∀ r, c.receivers.get i = some r → P (f r)) : P (c.ofReceiver i f) := by
  simp only [ofReceiver]
  split
  · exact hn
  · rename_i r hr
    exact hf r hr

theorem wake_nil : c.wake [] = c := by
  have :
      (c.receivers.map fun r => if ∃ w ∈ ([] : List ω), r.pending = some w then { r with woken := true } else r) =
      c.receivers := by
    refine Table.ext (funext fun i => ?_) rfl
    simp [Table.map]
  simp only [wake, this]

theorem performed (c : Watch τ ω) (op : Op τ ω) : Performed c op (c.perform op).1 (c.perform op).2 := by
  have hsame : Performed c op c .done := .unchanged rfl (fun _ _ _ h => by cases h)
  cases op with
  | cloneSender a => exact ofSender_cases (P := fun q => Performed c _ q.1 q.2) hsame fun ha => .cloned ha
  | dropSender a =>
    refine ofSender_cases (P := fun q => Performed c _ q.1 q.2) hsame fun ha => ?_
    simp only [State.dropSender]
    split
    · rename_i hs
      rw [wake_nil]
      exact .dropped ha hs
    · rename_i hs
      exact .closed ha (by simpa using hs)
  | send a value =>
    refine ofSender_cases (P := fun q => Performed c _ q.1 q.2) hsame fun ha => ?_
    simp only [State.send]
    split
    · rw [wake_nil]
      exact .unchanged rfl fun _ _ _ h => by cases h
    · exact .updated rfl (fun _ _ _ h => by cases h) fun _ h => by cases h
  | sendReplace a value =>
    exact ofSender_cases (P := fun q => Performed c _ q.1 q.2) hsame fun ha =>
      .updated rfl (fun _ _ _ h => by cases h) fun _ h => by cases h
  | sendIfModified a modify =>
    refine ofSender_cases (P := fun q => Performed c _ q.1 q.2) hsame fun ha => ?_
    simp only [State.sendIfModified]
    split
    · exact .updated rfl (fun _ _ _ h => by cases h) fun _ h => by cases h
    · rw [wake_nil]
      exact .unchanged rfl fun _ _ _ h => by cases h
  | senderBorrow a =>
    exact ofSender_cases (P := fun q => Performed c _ q.1 q.2) hsame fun ha =>
      .unchanged rfl fun _ _ _ h => by cases h
  | subscribe a =>
    exact ofSender_cases (P := fun q => Performed c _ q.1 q.2) hsame fun ha =>
      .subscribed fun _ h => by cases h
  | cloneReceiver i =>
    exact ofReceiver_cases (P := fun q => Performed c _ q.1 q.2) hsame fun r hr =>
      .subscribed fun _ h => by cases h
  | dropReceiver i =>
    exact ofReceiver_cases (P := fun q => Performed c _ q.1 q.2) hsame fun r hr => .receiverDropped hr
  | borrow i =>
    exact ofReceiver_cases (P := fun q => Performed c _ q.1 q.2) hsame fun r hr =>
      .unchanged rfl fun _ _ _ h => by cases h
  | borrowAndUpdate i =>
    exact ofReceiver_cases (P := fun q => Performed c _ q.1 q.2) hsame fun r hr => .seen hr
  | hasChanged i =>
    exact ofReceiver_cases (P := fun q => Performed c _ q.1 q.2) hsame fun r hr =>
      .unchanged rfl fun _ _ _ h => by cases h
  | pollChanged i waker =>
    refine ofReceiver_cases (P := fun q => Performed c _ q.1 q.2) hsame fun r hr => ?_
    simp only [pollChanged, State.pollChanged]
    split
    · rename_i hv
      exact .changed (r := r) hr (Ne.symm hv)
    · rename_i hv
      have hv' : r.seenVersion = c.state.version := by simpa [eq_comm] using hv
      split
      · rename_i hs
        exact .gone hr hv' hs
      · rename_i hs
        exact .waits hr hv' (by simpa using hs)
  | dropChanged i =>
    exact ofReceiver_cases (P := fun q => Performed c _ q.1 q.2) hsame fun r hr => .changedDropped hr

theorem performed_of_step (h : c.step op = some (c', ans)) : Performed c op c' ans := by
  have hp := performed c op
  rw [Option.some.inj h] at hp
  exact hp

end

/-! ## Wakes -/

section
variable {c c' : Watch τ ω} {op : Op τ ω} {ans : Answer τ} {v : τ} {answers : List (Answer τ)}

omit [DecidableEq ω] in
/-- `wake_all` removes wakers only, and wakes what is registered for a receiver that is alive. -/
theorem wakeReceivers_spec (alive : BTreeMap Nat Bool) (wakers : BTreeMap Nat ω) (ids : List Nat)
    {id : Nat} {w : ω} (ha : alive.get? id = some true) (hid : id ∈ ids)
    (hw : wakers.get? id = some w) :
    w ∈ (State.wakeReceivers alive wakers ids).2 := by
  induction ids generalizing wakers with
  | nil => cases hid
  | cons j ids ih =>
    have htail : j ≠ id → id ∈ ids := fun hne => (List.mem_cons.mp hid).resolve_left fun e => hne e.symm
    by_cases hj : j = id
    · subst hj
      simp [State.wakeReceivers, ha, hw]
    · simp only [State.wakeReceivers]
      split
      · split
        · refine List.mem_cons_of_mem _ (ih _ (htail hj) ?_)
          rw [BTreeMap.get?_erase_of_ne (Ne.symm hj)]
          exact hw
        · exact ih _ (htail hj) hw
      · exact ih _ (htail hj) hw

/-- A receiver after a wake. -/
theorem get_wake {wakers : List ω} {i : Nat} {r : Receiver ω} : (c.wake wakers).receivers.get i = some r ↔
    ∃ r₀, c.receivers.get i = some r₀ ∧
    (if ∃ w ∈ wakers, r₀.pending = some w then { r₀ with woken := true } else r₀) = r :=
  Table.get_map_eq_some

/-- A wake changes nothing of a receiver but whether it has been woken. -/
theorem wake_keeps {wakers : List ω} {i : Nat} {r : Receiver ω}
    (h : (c.wake wakers).receivers.get i = some r) :
    ∃ r₀, c.receivers.get i = some r₀ ∧ r.id = r₀.id ∧ r.seenVersion = r₀.seenVersion ∧
    r.pending = r₀.pending ∧
      ((∃ w ∈ wakers, r₀.pending = some w) → r.woken = true) := by
  obtain ⟨r₀, h₀, rfl⟩ := get_wake.mp h
  refine ⟨r₀, h₀, ?_⟩
  split
  · exact ⟨rfl, rfl, rfl, fun _ => rfl⟩
  · rename_i hn
    exact ⟨rfl, rfl, rfl, fun h => absurd h hn⟩

/-- The three collections of the receivers agree, and a receiver whose `changed` is pending is
registered with its last waker or has been woken. -/
structure Tracked (c : Watch τ ω) : Prop where
  next : c.state.nextReceiverId = c.receivers.next
  id : ∀ i r, c.receivers.get i = some r → r.id = i
  alive : ∀ i r, c.receivers.get i = some r → c.state.receiverAlive.get? i = some true
  order : ∀ i r, c.receivers.get i = some r → i ∈ c.state.receiverOrder
  registered : ∀ i r w, c.receivers.get i = some r → r.pending = some w →
    r.woken = true ∨ c.state.receiverWakers.get? i = some w

/-- After `wake_all` every receiver whose `changed` is pending has been woken. -/
theorem Tracked.wakeAll (h : c.Tracked) {s : State τ ω} (hn : s.nextReceiverId = c.state.nextReceiverId)
    (ha : s.receiverAlive = c.state.receiverAlive) (hw : s.receiverWakers = c.state.receiverWakers)
    (ho : s.receiverOrder = c.state.receiverOrder) (senders : Table Unit) :
    (wake { c with state := s.wakeAll.1, senders } s.wakeAll.2).Tracked ∧
    ∀ i r w, (wake { c with state := s.wakeAll.1, senders } s.wakeAll.2).receivers.get i = some r →
      r.pending = some w → r.woken = true := by
  have hwoken :
      ∀ i r w, (wake { c with state := s.wakeAll.1, senders } s.wakeAll.2).receivers.get i = some r →
      r.pending = some w → r.woken = true := by
    intro i r w hr hp
    obtain ⟨r₀, hr₀, -, -, hpending, hwoke⟩ := wake_keeps hr
    rcases h.registered i r₀ w hr₀ (hpending ▸ hp) with hold | hreg
    · obtain ⟨r₁, hr₁, rfl⟩ := get_wake.mp hr
      cases hr₀.symm.trans hr₁
      split
      · rfl
      · exact hold
    · refine hwoke ⟨w, ?_, hpending ▸ hp⟩
      simp only [State.wakeAll, ha, hw, ho]
      exact wakeReceivers_spec _ _ _ (h.alive i r₀ hr₀) (h.order i r₀ hr₀) hreg
  refine ⟨⟨?_, fun i r hr => ?_, fun i r hr => ?_, fun i r hr => ?_,
    fun i r w hr hp => .inl (hwoken i r w hr hp)⟩, hwoken⟩
  · exact hn.trans h.next
  · obtain ⟨r₀, hr₀, hid, -⟩ := wake_keeps hr
    exact hid.trans (h.id i r₀ hr₀)
  · obtain ⟨r₀, hr₀, -⟩ := wake_keeps hr
    exact (congrArg (·.get? i) ha).trans (h.alive i r₀ hr₀)
  · obtain ⟨r₀, hr₀, -⟩ := wake_keeps hr
    exact ho ▸ h.order i r₀ hr₀

theorem Tracked.updateWith (h : c.Tracked) (value : τ) : (c.updateWith value).Tracked ∧
    ∀ i r w, (c.updateWith value).receivers.get i = some r → r.pending = some w → r.woken = true :=
  h.wakeAll (s := { c.state with value, version := min (c.state.version + 1) u64Max }) rfl rfl rfl rfl c.senders

theorem Tracked.closeBy (h : c.Tracked) (a : Nat) : (c.closeBy a).Tracked ∧
    ∀ i r w, (c.closeBy a).receivers.get i = some r → r.pending = some w → r.woken = true :=
  h.wakeAll (s := { c.state with senderAlive := false }) rfl rfl rfl rfl (c.senders.erase a)

omit [DecidableEq ω] in
/-- A receiver is changed, of which `changed` is not pending any more or as it was. -/
theorem Tracked.set (h : c.Tracked) {i : Nat} {r r' : Receiver ω} (hi : c.receivers.get i = some r)
    (hid : r'.id = r.id) (hp : r'.pending = none ∨ r'.pending = r.pending ∧ r'.woken = r.woken) :
    ({ c with receivers := c.receivers.set i r' } : Watch τ ω).Tracked := by
  have hold : ∀ j q, (c.receivers.set i r').get j = some q → ∃ q₀,
      c.receivers.get j = some q₀ ∧ q.id = q₀.id ∧
        (q.pending = none ∨ q.pending = q₀.pending ∧ q.woken = q₀.woken) := by
    intro j q hq
    rcases (Table.get_set_eq_some hi).mp hq with ⟨rfl, rfl⟩ | ⟨-, hq⟩
    · exact ⟨r, hi, hid, hp⟩
    · exact ⟨q, hq, rfl, .inr ⟨rfl, rfl⟩⟩
  refine ⟨h.next, fun j q hq => ?_, fun j q hq => ?_, fun j q hq => ?_, fun j q w hq hw => ?_⟩ <;>
    obtain ⟨q₀, hq₀, hqid, hqp⟩ := hold j q hq
  · exact hqid.trans (h.id j q₀ hq₀)
  · exact h.alive j q₀ hq₀
  · exact h.order j q₀ hq₀
  · rcases hqp with hqp | ⟨hqp, hqw⟩
    · rw [hqp] at hw
      cases hw
    · rw [hqw]
      exact h.registered j q₀ w hq₀ (hqp ▸ hw)

omit [DecidableEq ω] in
/-- A pending `changed` is registered. -/
theorem Tracked.waits (h : c.Tracked) {i : Nat} {r : Receiver ω} (hi : c.receivers.get i = some r)
    (waker : ω) :
    ({ c with
      state := { c.state with receiverWakers := c.state.receiverWakers.insert r.id waker }
      receivers := c.receivers.set i
        { r with pending := some waker, woken := false } } : Watch τ ω).Tracked := by
  have hid := h.id i r hi
  have hold : ∀ j q, (c.receivers.set i { r with pending := some waker, woken := false }).get j = some q →
      (j = i ∧ q = { r with pending := some waker, woken := false }) ∨ (j ≠ i ∧ c.receivers.get j = some q) :=
    fun j q hq => (Table.get_set_eq_some hi).mp hq
  refine ⟨h.next, fun j q hq => ?_, fun j q hq => ?_, fun j q hq => ?_, fun j q w hq hw => ?_⟩ <;>
    rcases hold j q hq with ⟨rfl, rfl⟩ | ⟨hj, hq⟩
  · exact hid
  · exact h.id j q hq
  · exact h.alive j r hi
  · exact h.alive j q hq
  · exact h.order j r hi
  · exact h.order j q hq
  · cases hw
    right
    rw [hid]
    exact BTreeMap.get?_insert_self
  · refine (h.registered j q w hq hw).imp_right fun hreg => ?_
    rw [hid]
    exact (BTreeMap.get?_insert_of_ne hj).trans hreg

omit [DecidableEq ω] in
theorem Tracked.subscribe (h : c.Tracked) : c.subscribe.Tracked := by
  have hold : ∀ j q, c.subscribe.receivers.get j = some q →
      (j = c.state.nextReceiverId ∧ q = ⟨j, c.state.version, none, false⟩) ∨
        (j ≠ c.state.nextReceiverId ∧ c.receivers.get j = some q) := by
    intro j q hq
    rcases Table.get_insert_eq_some.mp hq with ⟨hj, rfl⟩ | hq
    · rw [← h.next] at hj
      exact .inl ⟨hj, by rw [hj]⟩
    · refine .inr ⟨?_, hq⟩
      rw [h.next]
      exact (Table.lt_next hq).ne
  refine ⟨?_, fun j q hq => ?_, fun j q hq => ?_, fun j q hq => ?_, fun j q w hq hw => ?_⟩
  · exact congrArg (· + 1) h.next
  all_goals rcases hold j q hq with ⟨hj, rfl⟩ | ⟨hj, hq⟩
  · rfl
  · exact h.id j q hq
  · rw [hj]
    exact BTreeMap.get?_insert_self
  · exact (BTreeMap.get?_insert_of_ne hj).trans (h.alive j q hq)
  · rw [hj]
    exact List.mem_append_right _ (List.mem_singleton_self _)
  · exact List.mem_append_left _ (h.order j q hq)
  · cases hw
  · exact h.registered j q w hq hw

omit [DecidableEq ω] in
theorem Tracked.removeReceiver (h : c.Tracked) {i : Nat} {r : Receiver ω} (hi : c.receivers.get i = some r) :
    ({ c with state := c.state.removeReceiver r.id, receivers := c.receivers.erase i } : Watch τ ω).Tracked := by
  have hid := h.id i r hi
  refine ⟨h.next, fun j q hq => ?_, fun j q hq => ?_, fun j q hq => ?_, fun j q w hq hw => ?_⟩ <;>
    obtain ⟨hj, hq⟩ := Table.get_erase_eq_some.mp hq
  · exact h.id j q hq
  · rw [hid]
    exact (BTreeMap.get?_erase_of_ne hj).trans (h.alive j q hq)
  · rw [hid]
    exact (List.mem_erase_of_ne hj).mpr (h.order j q hq)
  · rw [hid]
    exact (h.registered j q w hq hw).imp_right (BTreeMap.get?_erase_of_ne hj).trans

theorem Tracked.performed (h : c.Tracked) (hp : Performed c op c' ans) : c'.Tracked := by
  cases hp with
  | unchanged => exact h
  | cloned => exact ⟨h.next, h.id, h.alive, h.order, h.registered⟩
  | closed => exact (h.closeBy _).1
  | dropped => exact ⟨h.next, h.id, h.alive, h.order, h.registered⟩
  | updated => exact (h.updateWith _).1
  | subscribed => exact h.subscribe
  | receiverDropped hi => exact h.removeReceiver hi
  | seen hi => exact h.set hi rfl (.inr ⟨rfl, rfl⟩)
  | changed hi => exact h.set hi rfl (.inl rfl)
  | gone hi => exact h.set hi rfl (.inl rfl)
  | waits hi => exact h.waits hi _
  | changedDropped hi => exact h.set hi rfl (.inl rfl)

/-- An update, and the closure, wake every receiver whose `changed` is pending. -/
theorem Tracked.woken (h : c.Tracked) (hp : Performed c op c' ans)
    (hchange : ans.updated ≠ none ∨ c'.state.senderAlive ≠ c.state.senderAlive) :
    ∀ i r w, c'.receivers.get i = some r → r.pending = some w → r.woken = true := by
  cases hp with
  | closed => exact (h.closeBy _).2
  | updated => exact (h.updateWith _).2
  | unchanged hu => exact absurd hchange (by simp [hu])
  | cloned => exact absurd hchange (by simp [Answer.updated])
  | dropped => exact absurd hchange (by simp [Answer.updated])
  | subscribed => exact absurd hchange (by simp [Answer.updated, Watch.subscribe, State.addReceiver])
  | receiverDropped => exact absurd hchange (by simp [Answer.updated, State.removeReceiver])
  | seen => exact absurd hchange (by simp [Answer.updated])
  | changed => exact absurd hchange (by simp [Answer.updated])
  | gone => exact absurd hchange (by simp [Answer.updated])
  | waits => exact absurd hchange (by simp [Answer.updated])
  | changedDropped => exact absurd hchange (by simp [Answer.updated])

omit [DecidableEq ω] in
theorem tracked_channel (value : τ) : (channel value : Watch τ ω).Tracked := by
  refine Tracked.subscribe ⟨rfl, fun i r hr => ?_, fun i r hr => ?_, fun i r hr => ?_,
    fun i r w hr => ?_⟩ <;> cases hr

end

/-! ## Versions -/

/-- The values of the updates. -/
def updates (answers : List (Answer τ)) : List τ := answers.filterMap Answer.updated

/-- The version that `changed` of the receiver `i` reports. -/
def Answer.seenBy (i : Nat) : Answer τ → Option Nat
  | .changed j version (.ready (.ok ())) => if j = i then some version else none
  | _ => none

/-- The versions that `changed` of the receiver `i` has reported. -/
def seenBy (i : Nat) (answers : List (Answer τ)) : List Nat := answers.filterMap (Answer.seenBy i)

/-- The state and the receivers are as the updates and the polls left them. -/
structure History (v : τ) (c : Watch τ ω) (answers : List (Answer τ)) : Prop where
  version : c.state.version = min (updates answers).length u64Max
  value : c.state.value = (updates answers).getLast?.getD v
  seen_le : ∀ i r, c.receivers.get i = some r → r.seenVersion ≤ c.state.version
  increasing : ∀ i, (seenBy i answers).Pairwise (· < ·)
  seen : ∀ i, ∀ k ∈ seenBy i answers, i < c.receivers.next ∧ ∀ r, c.receivers.get i = some r → k ≤ r.seenVersion

section
variable {c c' : Watch τ ω} {op : Op τ ω} {ans : Answer τ} {v : τ} {answers : List (Answer τ)}

theorem updates_concat : updates (answers ++ [ans]) = updates answers ++ ans.updated.toList := by
  simp only [updates, List.filterMap_append]
  cases h : ans.updated <;> simp [h]

theorem seenBy_concat {i : Nat} :
    seenBy i (answers ++ [ans]) = seenBy i answers ++ (ans.seenBy i).toList := by
  simp only [seenBy, List.filterMap_append]
  cases h : ans.seenBy i <;> simp [h]

theorem seenBy_eq_none {i : Nat} (h : ∀ i v p, ans ≠ .changed i v p) : ans.seenBy i = none := by
  cases ans with
  | changed j version result => exact absurd rfl (h j version result)
  | _ => rfl

omit [DecidableEq ω] in
/-- An operation that is no update and reports no version. -/
theorem History.keep (h : History v c answers) (hu : ans.updated = none) (hs : ∀ i, ans.seenBy i = none)
    (hv : c'.state.version = c.state.version) (hval : c'.state.value = c.state.value)
    (hn : c.receivers.next ≤ c'.receivers.next)
    (hr : ∀ j q, c'.receivers.get j = some q → q.seenVersion ≤ c.state.version ∧
      (c.receivers.next ≤ j ∨ ∃ q₀, c.receivers.get j = some q₀ ∧ q₀.seenVersion ≤ q.seenVersion)) :
    History v c' (answers ++ [ans]) := by
  have hu' : updates (answers ++ [ans]) = updates answers := by
    rw [updates_concat, hu, Option.toList_none, List.append_nil]
  have hs' : ∀ i, seenBy i (answers ++ [ans]) = seenBy i answers := fun i => by
    rw [seenBy_concat, hs, Option.toList_none, List.append_nil]
  refine ⟨by rw [hu', hv, h.version], by rw [hu', hval, h.value], fun i r hi => hv ▸ (hr i r hi).1,
    fun i => by rw [hs']; exact h.increasing i, fun i k hk => ?_⟩
  rw [hs'] at hk
  obtain ⟨hlt, hle⟩ := h.seen i k hk
  refine ⟨hlt.trans_le hn, fun r hi => ?_⟩
  rcases (hr i r hi).2 with hnew | ⟨r₀, hi₀, hr₀⟩
  · omega
  · exact (hle r₀ hi₀).trans hr₀

theorem History.updateWith (h : History v c answers) {value : τ} (hu : ans.updated = some value)
    (hs : ∀ i, ans.seenBy i = none) : History v (c.updateWith value) (answers ++ [ans]) := by
  have hu' : updates (answers ++ [ans]) = updates answers ++ [value] := by
    rw [updates_concat, hu, Option.toList_some]
  have hs' : ∀ i, seenBy i (answers ++ [ans]) = seenBy i answers := fun i => by
    rw [seenBy_concat, hs, Option.toList_none, List.append_nil]
  have hversion : (c.updateWith value).state.version = min (c.state.version + 1) u64Max := rfl
  have hle : c.state.version ≤ u64Max := h.version ▸ Nat.min_le_right _ _
  refine ⟨?_, ?_, fun i r hi => ?_, fun i => by rw [hs']; exact h.increasing i, fun i k hk => ?_⟩
  · rw [hu', List.length_append, hversion, h.version]
    simp only [List.length_singleton]
    omega
  · rw [hu', List.getLast?_concat]
    rfl
  · obtain ⟨r₀, hi₀, -, hseen, -⟩ := wake_keeps hi
    have := h.seen_le i r₀ hi₀
    rw [hversion, hseen]
    omega
  · rw [hs'] at hk
    obtain ⟨hlt, hk⟩ := h.seen i k hk
    refine ⟨hlt, fun r hi => ?_⟩
    obtain ⟨r₀, hi₀, -, hseen, -⟩ := wake_keeps hi
    exact hseen ▸ hk r₀ hi₀

omit [DecidableEq ω] in
theorem History.changed (h : History v c answers) {i : Nat} {r r' : Receiver ω}
    (hi : c.receivers.get i = some r) (hv : r.seenVersion ≠ c.state.version)
    (hr' : r'.seenVersion = c.state.version) :
    History v { c with receivers := c.receivers.set i r' }
      (answers ++ [Answer.changed i c.state.version (.ready (.ok ()))]) := by
  have hlt : r.seenVersion < c.state.version := lt_of_le_of_ne (h.seen_le i r hi) hv
  have hu' : updates (answers ++ [Answer.changed i c.state.version (.ready (.ok ()))]) = updates answers := by
    rw [updates_concat]
    exact List.append_nil _
  have hother : ∀ j, j ≠ i →
      seenBy j (answers ++ [Answer.changed i c.state.version (.ready (.ok ()))]) = seenBy j answers := by
    intro j hj
    rw [seenBy_concat, Answer.seenBy, if_neg (Ne.symm hj), Option.toList_none, List.append_nil]
  have hself :
      seenBy i (answers ++ [Answer.changed i c.state.version (.ready (.ok ()))]) =
        seenBy i answers ++ [c.state.version] := by
    rw [seenBy_concat, Answer.seenBy, if_pos rfl, Option.toList_some]
  refine ⟨by rw [hu']; exact h.version, by rw [hu']; exact h.value, fun j q hq => ?_, fun j => ?_,
    fun j k hk => ?_⟩
  · rcases (Table.get_set_eq_some hi).mp hq with ⟨-, rfl⟩ | ⟨-, hq⟩
    · exact hr'.le
    · exact h.seen_le j q hq
  · by_cases hj : j = i
    · subst hj
      rw [hself]
      refine List.pairwise_append.mpr ⟨h.increasing j, List.pairwise_singleton _ _, fun k hk k' hk' => ?_⟩
      rw [List.mem_singleton.mp hk']
      exact ((h.seen j k hk).2 r hi).trans_lt hlt
    · rw [hother j hj]
      exact h.increasing j
  · by_cases hj : j = i
    · subst hj
      have hnext : j < c.receivers.next := Table.lt_next hi
      refine ⟨hnext, fun q hq => ?_⟩
      rcases (Table.get_set_eq_some hi).mp hq with ⟨-, rfl⟩ | ⟨hne, -⟩
      · rw [hself] at hk
        rcases List.mem_append.mp hk with hk | hk
        · exact (((h.seen j k hk).2 r hi).trans_lt hlt).le.trans hr'.ge
        · exact (List.mem_singleton.mp hk).le.trans hr'.ge
      · exact absurd rfl hne
    · rw [hother j hj] at hk
      refine ⟨(h.seen j k hk).1, fun q hq => ?_⟩
      rcases (Table.get_set_eq_some hi).mp hq with ⟨e, -⟩ | ⟨-, hq⟩
      · exact absurd e hj
      · exact (h.seen j k hk).2 q hq

omit [DecidableEq ω] in
/-- A receiver that is changed and has still seen what it had seen, or the current version. -/
theorem History.set (h : History v c answers) {i : Nat} {r r' : Receiver ω} (hi : c.receivers.get i = some r)
    (hr' : r'.seenVersion = r.seenVersion ∨ r'.seenVersion = c.state.version) (j : Nat) (q : Receiver ω)
    (hq : (c.receivers.set i r').get j = some q) : q.seenVersion ≤ c.state.version ∧
      (c.receivers.next ≤ j ∨ ∃ q₀, c.receivers.get j = some q₀ ∧ q₀.seenVersion ≤ q.seenVersion) := by
  have hle := h.seen_le i r hi
  rcases (Table.get_set_eq_some hi).mp hq with ⟨rfl, rfl⟩ | ⟨-, hq⟩
  · rcases hr' with hr' | hr'
    · exact ⟨hr' ▸ hle, .inr ⟨r, hi, hr'.ge⟩⟩
    · exact ⟨hr'.le, .inr ⟨r, hi, hr' ▸ hle⟩⟩
  · exact ⟨h.seen_le j q hq, .inr ⟨q, hq, le_rfl⟩⟩

theorem History.performed (h : History v c answers) (hp : Performed c op c' ans) :
    History v c' (answers ++ [ans]) := by
  have hsame : ∀ j q, c.receivers.get j = some q → q.seenVersion ≤ c.state.version ∧
      (c.receivers.next ≤ j ∨ ∃ q₀, c.receivers.get j = some q₀ ∧ q₀.seenVersion ≤ q.seenVersion) :=
    fun j q hq => ⟨h.seen_le j q hq, .inr ⟨q, hq, le_rfl⟩⟩
  cases hp with
  | unchanged hu hc => exact h.keep hu (fun i => seenBy_eq_none hc) rfl rfl le_rfl hsame
  | cloned => exact h.keep rfl (fun _ => rfl) rfl rfl le_rfl hsame
  | closed =>
    refine h.keep rfl (fun _ => rfl) rfl rfl le_rfl fun j q hq => ?_
    obtain ⟨q₀, hq₀, -, hseen, -⟩ := wake_keeps hq
    exact ⟨hseen ▸ h.seen_le j q₀ hq₀, .inr ⟨q₀, hq₀, hseen.ge⟩⟩
  | dropped => exact h.keep rfl (fun _ => rfl) rfl rfl le_rfl hsame
  | updated hu hc => exact h.updateWith hu fun i => seenBy_eq_none hc
  | subscribed =>
    refine h.keep rfl (fun _ => rfl) rfl rfl (Nat.le_succ _) fun j q hq => ?_
    rcases Table.get_insert_eq_some.mp hq with ⟨hj, rfl⟩ | hq
    · exact ⟨le_rfl, .inl hj.ge⟩
    · exact hsame j q hq
  | receiverDropped =>
    exact h.keep rfl (fun _ => rfl) rfl rfl le_rfl fun j q hq => hsame j q (Table.get_erase_eq_some.mp hq).2
  | seen hi => exact h.keep rfl (fun _ => rfl) rfl rfl le_rfl (h.set hi (.inr rfl))
  | changed hi hv => exact h.changed hi hv rfl
  | gone hi => exact h.keep rfl (fun _ => rfl) rfl rfl le_rfl (h.set hi (.inl rfl))
  | waits hi => exact h.keep rfl (fun _ => rfl) rfl rfl le_rfl (h.set hi (.inl rfl))
  | changedDropped hi => exact h.keep rfl (fun _ => rfl) rfl rfl le_rfl (h.set hi (.inl rfl))

omit [DecidableEq ω] in
theorem history_channel (value : τ) : History value (channel value : Watch τ ω) [] := by
  refine ⟨rfl, rfl, fun i r hi => ?_, fun i => .nil, fun i k hk => by cases hk⟩
  rcases Table.get_insert_eq_some.mp hi with ⟨-, rfl⟩ | hi
  · exact le_rfl
  · cases hi

end

/-! ## Runs -/

/-- In a run with less than `2^64` updates: the version is their number and a `borrow` yields the
last one's value; a receiver whose `changed` is pending is registered with its last waker or has
been woken, and an update or the closure wakes it; `changed` is pending only when it has seen the
version; and what it reports goes up. -/
theorem run_updates {v : τ} {c : Watch τ ω} {ops : List (Op τ ω)} {answers : List (Answer τ)}
    (h : Machine.run step (channel v) ops = some (c, answers)) (hlt : (updates answers).length < 2 ^ 64) :
    c.state.version = (updates answers).length ∧
    (∀ i r, c.receivers.get i = some r →
      (c.perform (.borrow i)).2 = .borrowed ((updates answers).getLast?.getD v)) ∧
    (∀ i r w, c.receivers.get i = some r → r.pending = some w →
      r.woken = true ∨ c.state.receiverWakers.get? r.id = some w) ∧
    (∀ op, (c.perform op).2.updated ≠ none ∨ (c.perform op).1.state.senderAlive ≠ c.state.senderAlive →
      ∀ i r w, (c.perform op).1.receivers.get i = some r → r.pending = some w → r.woken = true) ∧
    (∀ i r waker version, c.receivers.get i = some r → (c.perform (.pollChanged i waker)).2 = .changed i version .pending →
      r.seenVersion = c.state.version) ∧
    ∀ i, (seenBy i answers).Pairwise (· < ·) := by
  have hT : c.Tracked := Machine.run_invariant (P := Tracked)
    (fun c op c' ans hc hs => hc.performed (performed_of_step hs)) (tracked_channel v) h
  have hH : History v c ([] ++ answers) := Machine.run_history (P := History v)
    (fun c op c' ans os hc hs => hc.performed (performed_of_step hs)) (history_channel v) h
  rw [List.nil_append] at hH
  refine ⟨?_, fun i r hi => ?_, fun i r w hi hp => ?_, fun op => hT.woken (performed c op),
    fun i r waker version hi hpend => ?_,
    hH.increasing⟩
  · rw [hH.version]
    simp only [u64Max]
    omega
  · simp only [perform, ofReceiver, hi, hH.value]
  · rw [hT.id i r hi]
    exact hT.registered i r w hi hp
  · simp only [perform, ofReceiver, hi, pollChanged, State.pollChanged] at hpend
    split at hpend
    · cases hpend
    · rename_i hv
      simpa [eq_comm] using hv

theorem run_updates_subscribed : ∃ (c : Watch Nat Nat) (answers : List (Answer Nat)),
    Machine.run step (channel 7) [.subscribe 0, .pollChanged 1 5, .send 0 8, .pollChanged 1 5] = some (c, answers) ∧
      seenBy 1 answers = [1] ∧ (c.perform (.borrow 1)).2 = .borrowed 8 ∧ c.state.version = 1 := by
  have h : Machine.run step (channel 7 : Watch Nat Nat) [.subscribe 0, .pollChanged 1 5, .send 0 8,
    .pollChanged 1 5] =
    some (_, _) := rfl
  have hrun := run_updates h (by decide)
  exact ⟨_, _, h, rfl, hrun.2.1 1 _ rfl, hrun.1⟩

/-! ## Closure -/

/-- Every `Sender` has been dropped. -/
def NoSender (c : Watch τ ω) : Prop := ∀ b, c.senders.get b = none

/-- What an operation must do about closure: `send` fails, and a receiver that has seen the version
gets a `RecvError`, exactly when every sender has been dropped; and when a sender is dropped and
another one is alive, the channel is not closed and nobody is woken. -/
def Lawful (c : Watch τ ω) : Op τ ω → Prop
  | .send a value => c.senders.get a = some () →
      ((c.perform (.send a value)).2 = .sent value (.error value) ↔ c.NoSender)
  | .hasChanged i => ∀ r, c.receivers.get i = some r → r.seenVersion = c.state.version →
      ((c.perform (.hasChanged i)).2 = .hasChanged (.error ⟨⟩) ↔ c.NoSender)
  | .pollChanged i waker => ∀ r, c.receivers.get i = some r → r.seenVersion = c.state.version →
      ((c.perform (.pollChanged i waker)).2 = .changed i c.state.version (.ready (.error ⟨⟩)) ↔ c.NoSender)
  | .dropSender a => c.senders.get a = some () → ∀ b, b ≠ a → c.senders.get b = some () →
      (c.perform (.dropSender a)).1.state.senderAlive = c.state.senderAlive ∧
      (c.perform (.dropSender a)).1.receivers = c.receivers
  | _ => True

/-- A sender that is dropped is the last one. -/
def LastDropped (c : Watch τ ω) : Op τ ω → Prop
  | .dropSender a => c.senders.get a = some () → ∀ b, b ≠ a → c.senders.get b = none
  | _ => True

/-- The flag tells whether there is a sender. -/
def Flagged (c : Watch τ ω) : Prop := c.state.senderAlive = false ↔ c.NoSender

section
variable {c c' : Watch τ ω} {op : Op τ ω} {ans : Answer τ}

omit [DecidableEq ω] in
theorem Flagged.senderAlive (h : c.Flagged) {a : Nat} (ha : c.senders.get a = some ()) :
    c.state.senderAlive = true := by
  by_contra hs
  have := h.mp (by simpa using hs) a
  rw [ha] at this
  cases this

theorem Flagged.lawful_iff (h : c.Flagged) (op : Op τ ω) : c.Lawful op ↔ c.LastDropped op := by
  cases op with
  | send a value =>
    refine ⟨fun _ => trivial, fun _ ha => ?_⟩
    refine Iff.trans ?_ h
    simp only [perform, ofSender, ha, State.send]
    split <;> rename_i hs <;> simp [hs]
  | hasChanged i =>
    refine ⟨fun _ => trivial, fun _ r hr hv => ?_⟩
    refine Iff.trans ?_ h
    simp only [perform, ofReceiver, hr, State.hasChanged, hv]
    split
    · rename_i hne
      exact absurd rfl hne
    · split <;> rename_i hs <;> simp [hs]
  | pollChanged i waker =>
    refine ⟨fun _ => trivial, fun _ r hr hv => ?_⟩
    refine Iff.trans ?_ h
    simp only [perform, ofReceiver, hr, pollChanged, State.pollChanged, hv]
    split
    · rename_i hne
      exact absurd rfl hne
    · split <;> rename_i hs <;> simp [hs]
  | dropSender a =>
    refine ⟨fun hl ha b hb => ?_, fun hl ha b hb hlive => ?_⟩
    · by_contra hlive
      have hs := h.senderAlive ha
      have hkept := (hl ha b hb (Option.ne_none_iff_exists'.mp hlive).choose_spec).1
      simp [perform, ofSender, ha, State.dropSender, hs, wake, State.wakeAll] at hkept
    · rw [hl ha b hb] at hlive
      cases hlive
  | _ => exact Iff.rfl

theorem Flagged.performed (h : c.Flagged) (hl : c.LastDropped op) (hp : Performed c op c' ans) :
    c'.Flagged := by
  cases hp with
  | cloned ha =>
    refine ⟨fun hs => ?_, fun hno => ?_⟩
    · rw [h.senderAlive ha] at hs
      cases hs
    · have hnew : (c.senders.insert ()).get c.senders.next = some () :=
        Table.get_insert_eq_some.mpr (.inl ⟨rfl, rfl⟩)
      rw [hno] at hnew
      cases hnew
  | closed ha =>
    refine ⟨fun _ b => ?_, fun _ => rfl⟩
    cases hb : (c.closeBy _).senders.get b with
    | none => rfl
    | some u =>
      obtain ⟨hne, hlive⟩ := Table.get_erase_eq_some.mp hb
      rw [hl ha b hne] at hlive
      cases hlive
  | dropped ha hs =>
    rw [h.senderAlive ha] at hs
    cases hs
  | _ => exact h

omit [DecidableEq ω] in
theorem flagged_channel (value : τ) : (channel value : Watch τ ω).Flagged := by
  refine ⟨fun h => ?_, fun hno => ?_⟩
  · cases h
  · cases hno 0

end

/-- The channel is closed exactly when there is no sender, in a run, if and only if each sender that
is dropped is the last one. -/
theorem run_closure (v : τ) (ops : List (Op τ ω)) :
    Machine.Along Lawful step (channel v) ops ↔ Machine.Along LastDropped step (channel v) ops :=
  Machine.along_congr (I := Flagged) (fun _ op hc => hc.lawful_iff op)
    (fun _ _ _ _ hc hl hs => hc.performed hl (performed_of_step hs)) (flagged_channel v)

/-- After the first of two senders is dropped the other one is alive, but cannot send. -/
theorem firstDropped_closes : ∃ (c : Watch Nat Nat) (answers : List (Answer Nat)),
    Machine.run step (channel 7) [.cloneSender 0, .dropSender 0, .send 1 8] = some (c, answers) ∧
    c.senders.get 1 = some () ∧ answers = [.done, .done, .sent 8 (.error 8)] ∧
    ¬ Machine.Along Lawful step (channel 7 : Watch Nat Nat) [.cloneSender 0, .dropSender 0, .send 1 8] := by
  refine ⟨_, _, rfl, rfl, rfl, fun h => ?_⟩
  have hsend := ((h.2 _ _ rfl).2 _ _ rfl).1 rfl
  cases (hsend.mp rfl) 1

end DesCartes.Watch
