import DesCartes.Framework.Machine
import DesCartes.Framework.Trace
import DesCartes.Impl.Sync.BatchSemaphore

namespace DesCartes.BatchSemaphore

open Trace

variable {ω : Type}

/-! ## Queues -/

/-- What does not change of a waiter. -/
def Waiter.entry (w : Waiter ω) : Nat × Nat := (w.waiterId, w.required)

theorem Waiter.entry_inj {v w : Waiter ω} :
    v.entry = w.entry ↔ v.waiterId = w.waiterId ∧ v.required = w.required := by
  simp [Waiter.entry]

theorem map_modify {α β : Type} {f : α → α} {g : α → β} (h : ∀ a, g (f a) = g a) (l : List α) (k : Nat) :
    (l.modify k f).map g = l.map g := by
  induction l generalizing k with
  | nil => simp
  | cons a l ih =>
    cases k with
    | zero => simp [h]
    | succ k => simp [ih]

/-- A waiter in the queue is at one place there. -/
theorem split_queue {queue : List (Waiter ω)} (hs : queue.Pairwise (·.waiterId < ·.waiterId))
    {w : Waiter ω} {id : Nat} (hf : queue.find? (·.waiterId = id) = some w) :
    ∃ q₁ q₂, queue = q₁ ++ w :: q₂ ∧ w.waiterId = id ∧ queue.eraseP (·.waiterId = id) = q₁ ++ q₂ ∧
      (queue.filter fun v => v.waiterId ≠ id) = q₁ ++ q₂ := by
  obtain ⟨hw, q₁, q₂, rfl, h₁⟩ := List.find?_eq_some_iff_append.mp hf
  have hw : w.waiterId = id := by simpa using hw
  have h₁ : ∀ v ∈ q₁, v.waiterId ≠ id := fun v hv => by simpa using h₁ v hv
  rw [List.pairwise_append, List.pairwise_cons] at hs
  have h₂ : ∀ v ∈ q₂, v.waiterId ≠ id := fun v hv e => by
    have := hs.2.1.1 v hv
    omega
  refine ⟨q₁, q₂, rfl, hw, ?_, ?_⟩
  · rw [List.eraseP_append_right _ (fun v hv => by simpa using h₁ v hv),
      List.eraseP_cons_of_pos (by simpa using hw)]
  · rw [List.filter_append, List.filter_cons_of_neg (by simpa using hw),
      List.filter_eq_self.mpr fun v hv => by simpa using h₁ v hv,
      List.filter_eq_self.mpr fun v hv => by simpa using h₂ v hv]

theorem exists_of_map_eq {α β : Type} {f : α → β} {l l' : List α} (h : l'.map f = l.map f) {a : α}
    (ha : a ∈ l') :
    ∃ b ∈ l, f b = f a := by
  have : f a ∈ l.map f := h ▸ List.mem_map_of_mem ha
  exact List.mem_map.mp this

/-! ## Who waits -/

/-- Every `Acquire` that waits is in the queue or ready, under an id of its own, unless the semaphore is
closed; and nothing else is. -/
structure Tracked (s : State ω) (acquires : Table Acquire) : Prop where
  running : ∀ i a, acquires.get i = some a → a.completed = false
  unique : ∀ i j a b id, acquires.get i = some a → acquires.get j = some b → a.waiterId = some id →
    b.waiterId = some id → i = j
  lt_next : ∀ i a id, acquires.get i = some a → a.waiterId = some id → id < s.nextWaiterId
  positive : ∀ i a id, acquires.get i = some a → a.waiterId = some id → 0 < a.permits
  owner : ∀ w ∈ s.queue, ∃ i a, acquires.get i = some a ∧ a.waiterId = some w.waiterId ∧ a.permits = w.required
  owner_ready : ∀ id ∈ s.ready, ∃ i a, acquires.get i = some a ∧ a.waiterId = some id
  sorted : s.queue.Pairwise (·.waiterId < ·.waiterId)
  ready_lt : ∀ id ∈ s.ready, ∀ w ∈ s.queue, id < w.waiterId
  waiting : s.closed = false → ∀ i a id, acquires.get i = some a → a.waiterId = some id →
    id ∈ s.ready ∨ ∃ w ∈ s.queue, w.waiterId = id

namespace Tracked

variable {s s' : State ω} {acquires : Table Acquire} {i : Nat} {a : Acquire}

/-- The wakers, the permits and what remains for the waiters do not matter. -/
theorem congr (h : Tracked s acquires) (hn : s'.nextWaiterId = s.nextWaiterId) (hc : s'.closed = s.closed)
    (hq : s'.queue.map Waiter.entry = s.queue.map Waiter.entry) (hr : s'.ready = s.ready) :
    Tracked s' acquires := by
  refine ⟨h.running, h.unique, hn ▸ h.lt_next, h.positive, fun w hw => ?_, hr ▸ h.owner_ready, ?_,
    fun id hid w hw => ?_,
    fun hcl i a id hi ha => ?_⟩
  · obtain ⟨v, hv, e⟩ := exists_of_map_eq hq hw
    obtain ⟨i, a, hi, ha, hp⟩ := h.owner v hv
    obtain ⟨e₁, e₂⟩ := Waiter.entry_inj.mp e
    exact ⟨i, a, hi, e₁ ▸ ha, e₂ ▸ hp⟩
  · have hs : (s.queue.map Waiter.entry).Pairwise (·.1 < ·.1) := List.pairwise_map.mpr h.sorted
    rw [← hq] at hs
    exact (List.pairwise_map (R := fun x y : Nat × Nat => x.1 < y.1)).mp hs
  · obtain ⟨v, hv, e⟩ := exists_of_map_eq hq hw
    exact (Waiter.entry_inj.mp e).1 ▸ h.ready_lt id (hr ▸ hid) v hv
  · rcases h.waiting (hc ▸ hcl) i a id hi ha with hid | ⟨w, hw, rfl⟩
    · exact .inl (hr ▸ hid)
    · obtain ⟨v, hv, e⟩ := exists_of_map_eq hq.symm hw
      exact .inr ⟨v, hv, (Waiter.entry_inj.mp e).1⟩

/-- A new future does not wait yet. -/
theorem insert (h : Tracked s acquires) (n : Nat) : Tracked s (acquires.insert (.new n)) := by
  have hget : ∀ i a id, (acquires.insert (.new n)).get i = some a → a.waiterId = some id →
      acquires.get i = some a := by
    intro i a id hi ha
    rcases Table.get_insert_eq_some.mp hi with ⟨-, rfl⟩ | hi
    · cases ha
    · exact hi
  have hget' : ∀ i a, acquires.get i = some a → (acquires.insert (.new n)).get i = some a := fun i a hi =>
    Table.get_insert_eq_some.mpr (.inr hi)
  refine ⟨fun i a hi => ?_, fun i j a b id hi hj ha hb => ?_, fun i a id hi ha => ?_, fun i a id hi ha => ?_,
    fun w hw => ?_, fun id hid => ?_, h.sorted, h.ready_lt, fun hc i a id hi ha => ?_⟩
  · rcases Table.get_insert_eq_some.mp hi with ⟨-, rfl⟩ | hi
    · rfl
    · exact h.running i a hi
  · exact h.unique i j a b id (hget i a id hi ha) (hget j b id hj hb) ha hb
  · exact h.lt_next i a id (hget i a id hi ha) ha
  · exact h.positive i a id (hget i a id hi ha) ha
  · obtain ⟨i, a, hi, ha⟩ := h.owner w hw
    exact ⟨i, a, hget' i a hi, ha⟩
  · obtain ⟨i, a, hi, ha⟩ := h.owner_ready id hid
    exact ⟨i, a, hget' i a hi, ha⟩
  · exact h.waiting hc i a id (hget i a id hi ha) ha

/-- The future `i` is gone, and so is its id. -/
theorem erase (h : Tracked s acquires) (hi : acquires.get i = some a) (hn : s'.nextWaiterId = s.nextWaiterId)
    (hc : s'.closed = s.closed) (hq : s'.queue = s.queue.filter fun w => a.waiterId ≠ some w.waiterId)
    (hr : s'.ready = s.ready.filter fun id => a.waiterId ≠ some id) : Tracked s' (acquires.erase i) := by
  have hget : ∀ j b, (acquires.erase i).get j = some b → acquires.get j = some b := fun j b hj =>
    (Table.get_erase_eq_some.mp hj).2
  -- no other future has the id of `a`
  have hother : ∀ j b id, acquires.get j = some b → b.waiterId = some id → a.waiterId ≠ some id →
      (acquires.erase i).get j = some b := fun j b id hj hb ha => by
    refine Table.get_erase_eq_some.mpr ⟨?_, hj⟩
    rintro rfl
    cases hi.symm.trans hj
    exact ha hb
  have hne : ∀ j b id, (acquires.erase i).get j = some b → b.waiterId = some id → a.waiterId ≠ some id := by
    intro j b id hj hb ha
    have := Table.get_erase_eq_some.mp hj
    exact this.1 (h.unique j i b a id this.2 hi hb ha)
  refine ⟨fun j b hj => h.running j b (hget j b hj), fun j k b c id hj hk => h.unique j k b c id
    (hget j b hj) (hget k c hk),
    fun j b id hj => hn ▸ h.lt_next j b id (hget j b hj), fun j b id hj => h.positive j b id (hget j b hj),
    fun w hw => ?_, fun id hid => ?_, ?_, fun id hid w hw => ?_, fun hcl j b id hj hb => ?_⟩
  · rw [hq, List.mem_filter, decide_eq_true_iff] at hw
    obtain ⟨j, b, hj, hb, hp⟩ := h.owner w hw.1
    exact ⟨j, b, hother j b _ hj hb hw.2, hb, hp⟩
  · rw [hr, Finset.mem_filter] at hid
    obtain ⟨j, b, hj, hb⟩ := h.owner_ready id hid.1
    exact ⟨j, b, hother j b _ hj hb hid.2, hb⟩
  · rw [hq]
    exact h.sorted.filter _
  · rw [hr, Finset.mem_filter] at hid
    rw [hq, List.mem_filter] at hw
    exact h.ready_lt id hid.1 w hw.1
  · have ha := hne j b id hj hb
    rcases h.waiting (hc ▸ hcl) j b id (hget j b hj) hb with hid | ⟨w, hw, rfl⟩
    · exact .inl (by rw [hr, Finset.mem_filter]; exact ⟨hid, ha⟩)
    · exact .inr ⟨w, by rw [hq, List.mem_filter, decide_eq_true_iff]; exact ⟨hw, ha⟩, rfl⟩

/-- The future `i` goes to the end of the queue. -/
theorem push (h : Tracked s acquires) (hi : acquires.get i = some a) (ha : a.waiterId = none)
    (hpos : 0 < a.permits) {w : Waiter ω} (hw : w.waiterId = s.nextWaiterId)
    (hp : w.required = a.permits) (hn : s'.nextWaiterId = s.nextWaiterId + 1)
    (hc : s'.closed = s.closed) (hq : s'.queue = s.queue ++ [w]) (hr : s'.ready = s.ready) :
    Tracked s' (acquires.set i { a with waiterId := some s.nextWaiterId }) := by
  have hnew : (acquires.set i { a with waiterId := some s.nextWaiterId }).get i =
      some { a with waiterId := some s.nextWaiterId } := (Table.get_set_eq_some hi).mpr (.inl ⟨rfl, rfl⟩)
  have hother : ∀ j b id, acquires.get j = some b → b.waiterId = some id →
      (acquires.set i { a with waiterId := some s.nextWaiterId }).get j = some b := by
    intro j b id hj hb
    refine (Table.get_set_eq_some hi).mpr (.inr ⟨?_, hj⟩)
    rintro rfl
    cases hi.symm.trans hj
    cases ha.symm.trans hb
  have hlt : ∀ v ∈ s.queue, v.waiterId < s.nextWaiterId := fun v hv => by
    obtain ⟨j, b, hj, hb, -⟩ := h.owner v hv
    exact h.lt_next j b _ hj hb
  have hlt' : ∀ id ∈ s.ready, id < s.nextWaiterId := fun id hid => by
    obtain ⟨j, b, hj, hb⟩ := h.owner_ready id hid
    exact h.lt_next j b _ hj hb
  refine ⟨fun j b hj => ?_, fun j k b c id hj hk hb hc => ?_, fun j b id hj hb => ?_,
    fun j b id hj hb => ?_, fun v hv => ?_, fun id hid => ?_, ?_, fun id hid v hv => ?_,
    fun hcl j b id hj hb => ?_⟩
  · rcases (Table.get_set_eq_some hi).mp hj with ⟨-, rfl⟩ | ⟨-, hj⟩
    · exact h.running i a hi
    · exact h.running j b hj
  · rcases (Table.get_set_eq_some hi).mp hj with ⟨rfl, rfl⟩ | ⟨-, hj'⟩ <;>
      rcases (Table.get_set_eq_some hi).mp hk with ⟨rfl, rfl⟩ | ⟨-, hk'⟩
    · rfl
    · cases hb
      exact absurd (h.lt_next k c _ hk' hc) (lt_irrefl _)
    · cases hc
      exact absurd (h.lt_next j b _ hj' hb) (lt_irrefl _)
    · exact h.unique j k b c id hj' hk' hb hc
  · rw [hn]
    rcases (Table.get_set_eq_some hi).mp hj with ⟨-, rfl⟩ | ⟨-, hj⟩
    · cases hb
      exact Nat.lt_succ_self _
    · exact (h.lt_next j b id hj hb).trans (Nat.lt_succ_self _)
  · rcases (Table.get_set_eq_some hi).mp hj with ⟨-, rfl⟩ | ⟨-, hj⟩
    · exact hpos
    · exact h.positive j b id hj hb
  · rw [hq] at hv
    rcases List.mem_append.mp hv with hv | hv
    · obtain ⟨j, b, hj, hb, hbp⟩ := h.owner v hv
      exact ⟨j, b, hother j b _ hj hb, hb, hbp⟩
    · cases List.mem_singleton.mp hv
      exact ⟨i, _, hnew, congrArg some hw.symm, hp.symm⟩
  · obtain ⟨j, b, hj, hb⟩ := h.owner_ready id (hr ▸ hid)
    exact ⟨j, b, hother j b _ hj hb, hb⟩
  · rw [hq, List.pairwise_append]
    refine ⟨h.sorted, List.pairwise_singleton _ _, fun v hv u hu => ?_⟩
    cases List.mem_singleton.mp hu
    exact hw ▸ hlt v hv
  · rw [hq] at hv
    rcases List.mem_append.mp hv with hv | hv
    · exact h.ready_lt id (hr ▸ hid) v hv
    · cases List.mem_singleton.mp hv
      exact hw ▸ hlt' id (hr ▸ hid)
  · rcases (Table.get_set_eq_some hi).mp hj with ⟨-, rfl⟩ | ⟨-, hj⟩
    · cases hb
      exact .inr ⟨w, hq ▸ List.mem_append_right _ (List.mem_singleton_self w), hw⟩
    · rcases h.waiting (hc ▸ hcl) j b id hj hb with hid | ⟨v, hv, e⟩
      · exact .inl (hr ▸ hid)
      · exact .inr ⟨v, hq ▸ List.mem_append_left _ hv, e⟩

/-- The first waiter is satisfied. -/
theorem satisfy {w : Waiter ω} {queue : List (Waiter ω)} (h : Tracked s acquires) (hq : s.queue = w :: queue)
    (hn : s'.nextWaiterId = s.nextWaiterId) (hc : s'.closed = s.closed) (hq' : s'.queue = queue)
    (hr : s'.ready = Insert.insert w.waiterId s.ready) : Tracked s' acquires := by
  have hsub : ∀ v ∈ queue, v ∈ s.queue := fun v hv => hq ▸ List.mem_cons_of_mem w hv
  have hmem : w ∈ s.queue := hq ▸ List.mem_cons_self
  have hs := h.sorted
  rw [hq, List.pairwise_cons] at hs
  refine ⟨h.running, h.unique, hn ▸ h.lt_next, h.positive, fun v hv => h.owner v (hsub v (hq' ▸ hv)),
    fun id hid => ?_,
    hq' ▸ hs.2, fun id hid v hv => ?_, fun hcl j b id hj hb => ?_⟩
  · rw [hr, Finset.mem_insert] at hid
    rcases hid with rfl | hid
    · obtain ⟨i, a, hi, ha, -⟩ := h.owner w hmem
      exact ⟨i, a, hi, ha⟩
    · exact h.owner_ready id hid
  · rw [hr, Finset.mem_insert] at hid
    rw [hq'] at hv
    rcases hid with rfl | hid
    · exact hs.1 v hv
    · exact h.ready_lt id hid v (hsub v hv)
  · rw [hr, hq', Finset.mem_insert]
    rcases h.waiting (hc ▸ hcl) j b id hj hb with hid | ⟨v, hv, rfl⟩
    · exact .inl (.inr hid)
    · rw [hq] at hv
      rcases List.mem_cons.mp hv with rfl | hv
      · exact .inl (.inl rfl)
      · exact .inr ⟨v, hv, rfl⟩

/-- The semaphore is closed. -/
theorem close (h : Tracked s acquires) (hn : s'.nextWaiterId = s.nextWaiterId) (hc : s'.closed = true)
    (hq : s'.queue = []) (hr : s'.ready = s.ready) : Tracked s' acquires := by
  refine ⟨h.running, h.unique, hn ▸ h.lt_next, h.positive, fun w hw => ?_, hr ▸ h.owner_ready,
    hq ▸ .nil, fun id _ w hw => ?_,
    fun hcl => ?_⟩
  · rw [hq] at hw
    cases hw
  · rw [hq] at hw
    cases hw
  · rw [hc] at hcl
    cases hcl

/-- An id is not both in the queue and ready. -/
theorem notMem_ready (h : Tracked s acquires) {w : Waiter ω} (hw : w ∈ s.queue) :
    w.waiterId ∉ s.ready :=
  fun hid =>
  absurd (h.ready_lt _ hid w hw) (lt_irrefl _)

end Tracked

/-! ## The trace -/

/-- What takes the waiter `id` out of the queue. -/
def Leaves (id : Nat) (e : Event) : Prop := e = .satisfied id ∨ e = .cancelled id ∨ e = .closed

/-- No waiter that was queued before `y` waits at the moment when `y` is satisfied. -/
def InOrder (pre : List Event) (e : Event) : Prop :=
  ∀ y, e = .satisfied y → ∀ x < y, ¬ Open (.queued x) (Leaves x) pre

/-- Waiters get increasing ids. -/
def Increasing (pre : List Event) (e : Event) : Prop := ∀ y, e = .queued y → ∀ x, .queued x ∈ pre → x < y

/-- What the trace says of the state. -/
structure Traced (s : State ω) : Prop where
  lt_next : ∀ x, .queued x ∈ s.trace → x < s.nextWaiterId
  increasing : Each Increasing s.trace
  waiting : ∀ x, Open (.queued x) (Leaves x) s.trace → ∃ w ∈ s.queue, w.waiterId = x
  inOrder : Each InOrder s.trace
  tracked : ∀ x, .untracked x ∉ s.trace

namespace Traced

variable {s s' : State ω}

theorem congr (h : Traced s) (hn : s'.nextWaiterId = s.nextWaiterId)
    (hq : s'.queue.map Waiter.entry = s.queue.map Waiter.entry) (ht : s'.trace = s.trace) :
    Traced s' := by
  refine ⟨?_, ht ▸ h.increasing, fun x hx => ?_, ht ▸ h.inOrder, ht ▸ h.tracked⟩
  · rw [hn, ht]
    exact h.lt_next
  · obtain ⟨w, hw, e⟩ := h.waiting x (ht ▸ hx)
    obtain ⟨v, hv, e'⟩ := exists_of_map_eq hq.symm hw
    exact ⟨v, hv, (Waiter.entry_inj.mp e').1.trans e⟩

/-- One more record. -/
theorem concat (h : Traced s) {e : Event} (ht : s'.trace = s.trace ++ [e])
    (htr : ∀ x, e ≠ .untracked x) (hn : s.nextWaiterId ≤ s'.nextWaiterId)
    (hqueued : ∀ y, e = .queued y → y = s.nextWaiterId ∧ s.nextWaiterId < s'.nextWaiterId)
    (hle : ∀ y, e = .satisfied y → ∀ w ∈ s.queue, y ≤ w.waiterId)
    (hopen : ∀ x, (Open (.queued x) (Leaves x) s.trace ∧ ¬ Leaves x e) ∨ e = .queued x → ∃ w ∈ s'.queue,
      w.waiterId = x) :
    Traced s' := by
  refine ⟨fun x hx => ?_, ht ▸ h.increasing.concat fun y hy x hx => ?_, fun x hx => hopen x ?_,
    ht ▸ h.inOrder.concat fun y hy x hxy hx => ?_, fun x hx => ?_⟩
  · rw [ht, List.mem_append, List.mem_singleton] at hx
    rcases hx with hx | hx
    · exact (h.lt_next x hx).trans_le hn
    · obtain ⟨rfl, hlt⟩ := hqueued x hx.symm
      exact hlt
  · rw [(hqueued y hy).1]
    exact h.lt_next x hx
  · rw [ht] at hx
    exact open_concat.mp hx
  · obtain ⟨w, hw, rfl⟩ := h.waiting x hx
    exact absurd (hle y hy w hw) (by omega)
  · rw [ht, List.mem_append, List.mem_singleton] at hx
    rcases hx with hx | hx
    · exact h.tracked x hx
    · exact htr x hx.symm

/-- A waiter that is satisfied or cancelled leaves the queue, and no other. -/
theorem leave (h : Traced s) {id : Nat} {e : Event} (he : e = .satisfied id ∨ e = .cancelled id)
    (hle : e = .satisfied id → ∀ w ∈ s.queue, id ≤ w.waiterId) (hn : s'.nextWaiterId = s.nextWaiterId)
    (hq : ∀ w ∈ s.queue, w.waiterId ≠ id → w ∈ s'.queue) (ht : s'.trace = s.trace ++ [e]) : Traced s' := by
  have hnot : ∀ x, e ≠ .queued x ∧ e ≠ .untracked x := by
    rcases he with rfl | rfl <;> simp
  refine h.concat ht (fun x => (hnot x).2) hn.ge (fun y hy => absurd hy (hnot y).1)
    (fun y hy => ?_) fun x hx => ?_
  · rcases he with rfl | rfl
    · cases hy
      exact hle rfl
    · cases hy
  · obtain ⟨hx, hl⟩ := hx.resolve_right (hnot x).1
    obtain ⟨w, hw, rfl⟩ := h.waiting x hx
    refine ⟨w, hq w hw ?_, rfl⟩
    rintro rfl
    rcases he with rfl | rfl
    · exact hl (.inl rfl)
    · exact hl (.inr (.inl rfl))

theorem push (h : Traced s) {w : Waiter ω} (hw : w.waiterId = s.nextWaiterId)
    (hn : s'.nextWaiterId = s.nextWaiterId + 1) (hq : s'.queue = s.queue ++ [w])
    (ht : s'.trace = s.trace ++ [Event.queued s.nextWaiterId]) : Traced s' := by
  refine h.concat ht (fun x hx => by cases hx) (by omega) (fun y hy => ?_)
    (fun y hy => by cases hy) fun x hx => ?_
  · cases hy
    exact ⟨rfl, by omega⟩
  · rw [hq]
    rcases hx with ⟨hx, -⟩ | hx
    · obtain ⟨v, hv, e⟩ := h.waiting x hx
      exact ⟨v, List.mem_append_left _ hv, e⟩
    · cases hx
      exact ⟨w, List.mem_append_right _ (List.mem_singleton_self w), hw⟩

theorem close (h : Traced s) (hn : s'.nextWaiterId = s.nextWaiterId)
    (ht : s'.trace = s.trace ++ [Event.closed]) :
    Traced s' := by
  refine h.concat ht (fun x hx => by cases hx) hn.ge (fun y hy => by cases hy)
    (fun y hy => by cases hy) fun x hx => ?_
  rcases hx with ⟨-, hx⟩ | hx
  · exact absurd (.inr (.inr rfl)) hx
  · cases hx

end Traced

/-! ## Where the permits are -/

/-- Permits are assigned to the first waiter before anything else. -/
structure HeadOfLine (s : State ω) : Prop where
  permits : s.queue ≠ [] → s.permits = 0
  closed : s.closed = true → s.queue = []
  remaining : ∀ w ∈ s.queue, 0 < w.remaining ∧ w.remaining ≤ w.required
  tail : ∀ w ∈ s.queue.tail, w.remaining = w.required

/-- The permits of the waiters that are ready. -/
def satisfied (ready : Finset Nat) (acquires : Table Acquire) : Nat :=
  acquires.total fun a => if ∃ id ∈ ready, a.waiterId = some id then a.permits else 0

/-- The permits that are not in the hands of a `SemaphorePermit`. -/
def ledger (s : State ω) (acquires : Table Acquire) : Nat := s.permits + s.assigned + satisfied s.ready acquires

section
variable {s : State ω} {acquires : Table Acquire} {i : Nat} {a : Acquire}

theorem satisfied_insert (h : Tracked s acquires) (hi : acquires.get i = some a) {id : Nat}
    (ha : a.waiterId = some id) (hid : id ∉ s.ready) :
    satisfied (insert id s.ready) acquires = satisfied s.ready acquires + a.permits := by
  have key := Table.total_eq_at
    (f := fun a => if ∃ x ∈ insert id s.ready, a.waiterId = some x then a.permits else 0)
    (g := fun a => if ∃ x ∈ s.ready, a.waiterId = some x then a.permits else 0) hi fun j b hj hb => ?_
  · simp only [ha, Option.some.injEq, exists_eq_right', hid, if_false, Finset.mem_insert_self, if_true] at key
    exact key
  · refine if_congr ⟨?_, fun ⟨x, hx, hxb⟩ => ⟨x, Finset.mem_insert_of_mem hx, hxb⟩⟩ rfl rfl
    rintro ⟨x, hx, hxb⟩
    rcases Finset.mem_insert.mp hx with rfl | hx
    · exact absurd (h.unique j i b a x hb hi hxb ha) hj
    · exact ⟨x, hx, hxb⟩

theorem satisfied_new (ready : Finset Nat) (n : Nat) :
    satisfied ready (acquires.insert (.new n)) = satisfied ready acquires := by
  simp [satisfied, Acquire.new]

theorem satisfied_push (h : Tracked s acquires) (hi : acquires.get i = some a) (ha : a.waiterId = none) :
    satisfied s.ready (acquires.set i { a with waiterId := some s.nextWaiterId }) =
      satisfied s.ready acquires := by
  have hnew : s.nextWaiterId ∉ s.ready := fun hid => by
    obtain ⟨j, b, hj, hb⟩ := h.owner_ready _ hid
    exact absurd (h.lt_next j b _ hj hb) (lt_irrefl _)
  have key := Table.total_set (f := fun a => if ∃ id ∈ s.ready, a.waiterId = some id then a.permits else 0)
    (b := { a with waiterId := some s.nextWaiterId }) hi
  simp only [ha, reduceCtorEq, and_false, exists_false, if_false, Option.some.injEq, exists_eq_right',
    hnew] at key
  exact key

theorem satisfied_erase (h : Tracked s acquires) (hi : acquires.get i = some a) :
    satisfied (s.ready.filter fun id => a.waiterId ≠ some id) (acquires.erase i) +
        (if ∃ id ∈ s.ready, a.waiterId = some id then a.permits else 0) = satisfied s.ready acquires := by
  have key := Table.total_erase
    (f := fun a => if ∃ id ∈ s.ready, a.waiterId = some id then a.permits else 0) hi
  rw [satisfied, satisfied, ← key]
  refine congrArg (· + _) (Table.total_congr fun j b hj => if_congr ?_ rfl rfl)
  obtain ⟨hji, hj⟩ := Table.get_erase_eq_some.mp hj
  constructor
  · rintro ⟨id, hid, hb⟩
    exact ⟨id, (Finset.mem_filter.mp hid).1, hb⟩
  · rintro ⟨id, hid, hb⟩
    exact ⟨id, Finset.mem_filter.mpr ⟨hid, fun ha => hji (h.unique j i b a id hj hi hb ha)⟩, hb⟩

end

/-- The permits that the future asks for are there for it: set aside for it, or available when no one
waits. -/
def Backed (s : State ω) (a : Acquire) : Prop :=
  (∃ id ∈ s.ready, a.waiterId = some id) ∨ (a.waiterId = none ∧ s.queue = [] ∧ a.permits ≤ s.permits)

/-- What holds of the state of a semaphore whose futures are `acquires`. -/
structure Good (s : State ω) (acquires : Table Acquire) : Prop where
  tracked : Tracked s acquires
  traced : Traced s
  headOfLine : HeadOfLine s

theorem Good.addPermitsLoop {acquires : Table Acquire} {queue : List (Waiter ω)} {s : State ω}
    (h : Good { s with queue } acquires) (hp : s.permits = 0) (available : Nat) :
    Good (State.addPermitsLoop available queue s).1 acquires ∧
      ledger (State.addPermitsLoop available queue s).1 acquires =
        ledger { s with queue } acquires + available := by
  induction queue generalizing available s with
  | nil =>
    refine ⟨⟨h.tracked.congr rfl rfl rfl rfl, h.traced.congr rfl rfl rfl, fun hq => absurd rfl hq,
      fun _ => rfl,
      h.headOfLine.remaining, h.headOfLine.tail⟩, ?_⟩
    simp only [ledger, State.addPermitsLoop, State.assigned, List.map_nil, List.sum_nil, hp]
    omega
  | cons front queue ih =>
    simp only [State.addPermitsLoop]
    split
    · rename_i h0
      exact ⟨h, by rw [h0, Nat.add_zero]⟩
    · rename_i h0
      obtain ⟨hpos, hle⟩ := h.headOfLine.remaining front List.mem_cons_self
      split
      · rename_i hrem
        -- the front is satisfied, and the loop goes on with the rest
        obtain ⟨i, a, hi, ha, hreq⟩ := h.tracked.owner front List.mem_cons_self
        set s₁ : State ω := { s with ready := insert front.waiterId s.ready }.log
          (.satisfied front.waiterId) with hs₁
        have hfront : ∀ w ∈ front :: queue, front.waiterId ≤ w.waiterId := by
          intro w hw
          rcases List.mem_cons.mp hw with rfl | hw
          · exact le_rfl
          · exact (List.rel_of_pairwise_cons h.tracked.sorted hw).le
        have hgood : Good { s₁ with queue } acquires := by
          refine ⟨h.tracked.satisfy rfl rfl rfl rfl rfl, h.traced.leave (.inl rfl) (fun _ => hfront) rfl
            (fun w hw hne => ?_) rfl, fun _ => hp, fun hc => ?_, fun w hw => ?_, fun w hw => ?_⟩
          · exact (List.mem_cons.mp hw).resolve_left fun e => hne (congrArg Waiter.waiterId e)
          · cases h.headOfLine.closed hc
          · exact h.headOfLine.remaining w (List.mem_cons_of_mem _ hw)
          · exact h.headOfLine.tail w (List.mem_of_mem_tail hw)
        have hsat : satisfied s₁.ready acquires = satisfied s.ready acquires + a.permits :=
          satisfied_insert h.tracked hi ha (h.tracked.notMem_ready List.mem_cons_self)
        obtain ⟨hg, hl⟩ := ih hgood hp (available - min available front.remaining)
        refine ⟨hg, hl.trans ?_⟩
        simp only [ledger, State.assigned, List.map_cons, List.sum_cons, hsat, hreq]
        show s.permits + _ + _ + _ = _
        omega
      · rename_i hrem
        refine ⟨⟨h.tracked.congr rfl rfl rfl rfl, h.traced.congr rfl rfl rfl, fun _ => hp, fun hc => ?_,
          fun w hw => ?_,
          h.headOfLine.tail⟩, ?_⟩
        · cases h.headOfLine.closed hc
        · rcases List.mem_cons.mp hw with rfl | hw
          · exact ⟨Nat.pos_of_ne_zero hrem, (Nat.sub_le _ _).trans hle⟩
          · exact h.headOfLine.remaining w (List.mem_cons_of_mem _ hw)
        · simp only [ledger, State.assigned, List.map_cons, List.sum_cons]
          omega

theorem addPermitsLoop_closed (available : Nat) (queue : List (Waiter ω)) (s : State ω) :
    (State.addPermitsLoop available queue s).1.closed = s.closed := by
  induction queue generalizing available s with
  | nil => rfl
  | cons front queue ih =>
    simp only [State.addPermitsLoop]
    split
    · rfl
    · split
      · exact ih _ _
      · rfl

namespace Good

variable {s s' : State ω} {acquires : Table Acquire} {i n : Nat} {a a' : Acquire} {woken : List ω}

theorem addPermitsLocked (h : Good s acquires) (hs : s.addPermitsLocked n = some (s', woken)) :
    Good s' acquires ∧ ledger s' acquires = ledger s acquires + n ∧ s'.closed = s.closed := by
  simp only [State.addPermitsLocked] at hs
  split at hs
  · have h0 : Good { { s with permits := 0 } with queue := s.queue } acquires :=
      ⟨h.tracked.congr rfl rfl rfl rfl, h.traced.congr rfl rfl rfl, fun _ => rfl, h.headOfLine.closed,
        h.headOfLine.remaining, h.headOfLine.tail⟩
    obtain ⟨hg, hl⟩ := h0.addPermitsLoop rfl (s.permits + n)
    have e := Option.some.inj hs
    rw [e] at hg hl
    refine ⟨hg, hl.trans ?_, ?_⟩
    · simp only [ledger, State.assigned]
      omega
    · have hc := addPermitsLoop_closed (s.permits + n) s.queue { s with permits := 0 }
      rwa [e] at hc
  · cases hs

theorem addPermits (h : Good s acquires) (hs : s.addPermits n = some (s', woken)) :
    Good s' acquires ∧ ledger s' acquires = ledger s acquires + n ∧ s'.closed = s.closed := by
  simp only [State.addPermits] at hs
  split at hs
  · rename_i hn
    cases hs
    exact ⟨h, by rw [hn, Nat.add_zero], rfl⟩
  · exact h.addPermitsLocked hs

theorem tryAcquire (h : Good s acquires) {result : Except TryAcquireError Unit}
    (hs : s.tryAcquire n = (result, s')) :
    (∃ e, result = .error e ∧ s' = s) ∨
      (result = .ok () ∧ s'.closed = s.closed ∧ Good s' acquires ∧
        ledger s' acquires + n = ledger s acquires) := by
  simp only [State.tryAcquire] at hs
  split at hs
  · rename_i hn
    cases hs
    exact .inr ⟨rfl, rfl, h, by rw [hn, Nat.add_zero]⟩
  split at hs
  · cases hs
    exact .inl ⟨_, rfl, rfl⟩
  split at hs
  · cases hs
    exact .inl ⟨_, rfl, rfl⟩
  rename_i hq
  split at hs
  · cases hs
    exact .inl ⟨_, rfl, rfl⟩
  cases hs
  refine .inr ⟨rfl, rfl, ⟨h.tracked.congr rfl rfl rfl rfl, h.traced.congr rfl rfl rfl,
    fun hne => absurd hne hq,
    h.headOfLine.closed, h.headOfLine.remaining, h.headOfLine.tail⟩, ?_⟩
  simp only [ledger, State.assigned]
  omega

/-! ## A future that is dropped -/

/-- A future that is not in the queue is gone, and so is its id from the ones that are ready. -/
theorem erase_ready (h : Good s acquires) (hi : acquires.get i = some a)
    (hq : ∀ w ∈ s.queue, a.waiterId ≠ some w.waiterId) :
    Good { s with ready := s.ready.filter fun id => a.waiterId ≠ some id } (acquires.erase i) :=
  ⟨h.tracked.erase hi rfl rfl (List.filter_eq_self.mpr fun w hw => decide_eq_true (hq w hw)).symm rfl,
    h.traced.congr rfl rfl rfl, h.headOfLine.permits, h.headOfLine.closed, h.headOfLine.remaining,
    h.headOfLine.tail⟩

/-- A waiter that is neither in the queue nor ready has nothing to return. -/
theorem erase_idle (h : Good s acquires) (hi : acquires.get i = some a)
    (hq : ∀ w ∈ s.queue, a.waiterId ≠ some w.waiterId) (hr : ∀ id ∈ s.ready, a.waiterId ≠ some id) :
    Good s (acquires.erase i) ∧ ledger s (acquires.erase i) = ledger s acquires := by
  have hf : (s.ready.filter fun id => a.waiterId ≠ some id) = s.ready := Finset.filter_true_of_mem hr
  have hg := h.erase_ready hi hq
  have hl := satisfied_erase h.tracked hi
  rw [hf] at hg hl
  refine ⟨hg, ?_⟩
  rw [if_neg fun ⟨id, hid, e⟩ => hr id hid e] at hl
  simp only [ledger, ← hl, Nat.add_zero]

/-- A waiter that was ready leaves its permits behind. -/
theorem erase_satisfied (h : Good s acquires) (hi : acquires.get i = some a) {id : Nat}
    (ha : a.waiterId = some id) (hid : id ∈ s.ready) :
    Good { s with ready := s.ready.erase id } (acquires.erase i) ∧
      ledger { s with ready := s.ready.erase id } (acquires.erase i) + a.permits = ledger s acquires := by
  have hf : (s.ready.filter fun x => a.waiterId ≠ some x) = s.ready.erase id := by
    rw [← Finset.filter_ne]
    refine Finset.filter_congr fun x _ => ?_
    rw [ha, ne_eq, Option.some.injEq]
  have hg := h.erase_ready hi fun w hw e => by
    rw [ha, Option.some.injEq] at e
    exact h.tracked.notMem_ready hw (e ▸ hid)
  have hl := satisfied_erase h.tracked hi
  rw [hf] at hg hl
  rw [if_pos ⟨id, hid, ha⟩] at hl
  refine ⟨hg, ?_⟩
  simp only [ledger, State.assigned]
  omega

/-- A waiter in the queue leaves behind what was assigned to it. -/
theorem erase_queued (h : Good s acquires) (hi : acquires.get i = some a) {w : Waiter ω} {id : Nat}
    (ha : a.waiterId = some id) (hid : id ∉ s.ready) (hf : s.queue.find? (·.waiterId = id) = some w) :
    Good ({ s with queue := s.queue.eraseP (·.waiterId = id) }.log (.cancelled id)) (acquires.erase i) ∧
      ledger ({ s with queue := s.queue.eraseP (·.waiterId = id) }.log (.cancelled id)) (acquires.erase i) +
        (w.required - w.remaining) = ledger s acquires := by
  obtain ⟨q₁, q₂, hq, rfl, he, hfilter⟩ := split_queue h.tracked.sorted hf
  have hsub : List.Sublist (q₁ ++ q₂) s.queue := by
    rw [hq]
    exact (List.sublist_cons_self w q₂).append_left q₁
  have hready : s.ready = s.ready.filter fun x => a.waiterId ≠ some x := by
    refine (Finset.filter_true_of_mem fun x hx e => ?_).symm
    rw [ha, Option.some.injEq] at e
    exact hid (e ▸ hx)
  have hl := satisfied_erase h.tracked hi
  rw [← hready, if_neg fun ⟨x, hx, e⟩ => hid (by rw [ha, Option.some.injEq] at e; exact e ▸ hx)] at hl
  rw [he]
  refine ⟨⟨h.tracked.erase hi rfl rfl ?_ hready, h.traced.leave (.inr rfl) (fun e => by cases e) rfl
    (fun v hv hne => ?_) rfl,
    fun hne => ?_, fun hc => ?_, fun v hv => ?_, fun v hv => ?_⟩, ?_⟩
  · show q₁ ++ q₂ = _
    rw [← hfilter, ha]
    refine List.filter_congr fun v _ => decide_eq_decide.mpr ?_
    rw [ne_eq, ne_eq, Option.some.injEq, eq_comm]
  · show v ∈ q₁ ++ q₂
    rw [← hfilter, List.mem_filter]
    exact ⟨hv, decide_eq_true hne⟩
  · exact h.headOfLine.permits (by rw [hq]; simp)
  · exact List.sublist_nil.mp (h.headOfLine.closed hc ▸ hsub)
  · exact h.headOfLine.remaining v (hsub.mem hv)
  · exact h.headOfLine.tail v (hsub.tail.mem hv)
  · simp only [ledger, State.assigned, State.log, hq, List.map_append, List.map_cons, List.sum_append,
      List.sum_cons]
    omega

theorem cancelLocked (h : Good s acquires) (hi : acquires.get i = some a)
    (hs : a.cancelLocked s = some (s', woken)) :
    Good s' (acquires.erase i) ∧ ledger s' (acquires.erase i) = ledger s acquires ∧ s'.closed = s.closed := by
  simp only [Acquire.cancelLocked] at hs
  split at hs
  · rename_i ha
    cases hs
    obtain ⟨hg, hl⟩ := h.erase_idle hi (fun w _ => by simp [ha]) (fun id _ => by simp [ha])
    exact ⟨hg, hl, rfl⟩
  · rename_i id ha
    split at hs
    · rename_i hid
      obtain ⟨hg, hl⟩ := h.erase_satisfied hi ha hid
      have hg' : Good ({ s with ready := s.ready.erase id }.log (.cancelled id)) (acquires.erase i) :=
        ⟨hg.tracked.congr rfl rfl rfl rfl,
          hg.traced.leave (.inr rfl) (fun e => by cases e) rfl (fun w hw _ => hw) rfl, hg.headOfLine.permits,
          hg.headOfLine.closed, hg.headOfLine.remaining, hg.headOfLine.tail⟩
      obtain ⟨hg₂, hl₂, hc₂⟩ := hg'.addPermitsLocked hs
      exact ⟨hg₂, hl₂.trans hl, hc₂⟩
    · rename_i hid
      simp only [State.removeWaiterLocked] at hs
      cases hf : s.queue.find? (·.waiterId = id) with
      | none =>
        have hnone : ∀ w ∈ s.queue, w.waiterId ≠ id :=
          fun w hw => by simpa using List.find?_eq_none.mp hf w hw
        rw [hf, List.eraseP_of_forall_not fun w hw => by simpa using hnone w hw] at hs
        cases hs
        obtain ⟨hg, hl⟩ := h.erase_idle hi (fun w hw e => hnone w hw (by rw [ha] at e; cases e; rfl))
          (fun x hx e => hid (by rw [ha] at e; cases e; exact hx))
        exact ⟨hg, hl, rfl⟩
      | some w =>
        obtain ⟨hg, hl⟩ := h.erase_queued hi ha hid hf
        rw [hf] at hs
        simp only at hs
        split at hs
        · rename_i hacq
          cases hs
          exact ⟨hg, by omega, rfl⟩
        · obtain ⟨hg₂, hl₂, hc₂⟩ := hg.addPermitsLocked hs
          exact ⟨hg₂, hl₂.trans hl, hc₂⟩

theorem drop (h : Good s acquires) (hi : acquires.get i = some a) (hs : a.drop s = some (s', woken)) :
    Good s' (acquires.erase i) ∧ ledger s' (acquires.erase i) = ledger s acquires ∧ s'.closed = s.closed := by
  simp only [Acquire.drop, h.tracked.running i a hi] at hs
  exact h.cancelLocked hi hs

/-! ## A future that is polled -/

theorem push (h : Good s acquires) (hi : acquires.get i = some a) (ha : a.waiterId = none)
    (hc : s.closed = false) (remaining : Nat) (waker : ω)
    (hr : 0 < remaining ∧ remaining ≤ a.permits) (hp : a.permits - remaining = s.permits)
    (ht : s.queue ≠ [] → remaining = a.permits) :
    Good ({ s with permits := 0 }.pushWaiter a.permits remaining waker)
        (acquires.set i { a with waiterId := some s.nextWaiterId }) ∧
      ledger ({ s with permits := 0 }.pushWaiter a.permits remaining waker)
        (acquires.set i { a with waiterId := some s.nextWaiterId }) = ledger s acquires := by
  refine ⟨⟨h.tracked.push hi ha (by omega) rfl rfl rfl rfl rfl rfl, h.traced.push rfl rfl rfl rfl,
    fun _ => rfl,
    fun hcl => ?_, fun w hw => ?_, fun w hw => ?_⟩, ?_⟩
  · rw [show s.closed = true from hcl] at hc
    cases hc
  · rcases List.mem_append.mp hw with hw | hw
    · exact h.headOfLine.remaining w hw
    · cases List.mem_singleton.mp hw
      exact hr
  · cases hq : s.queue with
    | nil =>
      simp only [State.pushWaiter, State.log, hq] at hw
      cases hw
    | cons v queue =>
      simp only [State.pushWaiter, State.log, hq, List.cons_append, List.tail_cons] at hw
      rcases List.mem_append.mp hw with hw | hw
      · exact h.headOfLine.tail w (by rw [hq]; exact hw)
      · cases List.mem_singleton.mp hw
        exact ht (by rw [hq]; exact List.cons_ne_nil _ _)
  · have hsat := satisfied_push h.tracked hi ha
    simp only [ledger, State.pushWaiter, State.log, State.assigned, List.map_append, List.sum_append,
      List.map_cons,
      List.map_nil, List.sum_cons, List.sum_nil, hsat, hp]
    omega

theorem setWaker (h : Good s acquires) (hi : acquires.get i = some a) (k : Nat) (waker : ω) :
    Good { s with queue := s.queue.modify k fun w => { w with waker } } (acquires.set i a) ∧
      ledger { s with queue := s.queue.modify k fun w => { w with waker } } (acquires.set i a) =
        ledger s acquires := by
  have hshape : ∀ {β : Type} (g : Waiter ω → β), (∀ w : Waiter ω, g { w with waker } = g w) →
      (s.queue.modify k fun w => { w with waker }).map g = s.queue.map g := fun g hg => map_modify hg _ k
  have hshare := hshape (fun w => (w.required, w.remaining)) fun _ => rfl
  rw [Table.set_self hi]
  refine ⟨⟨h.tracked.congr rfl rfl (hshape Waiter.entry fun _ => rfl) rfl,
    h.traced.congr rfl (hshape Waiter.entry fun _ => rfl) rfl, fun hq => h.headOfLine.permits ?_,
    fun hc => ?_,
    fun w hw => ?_, fun w hw => ?_⟩, ?_⟩
  · rintro e
    exact hq (by simp [e])
  · simp [h.headOfLine.closed hc]
  · obtain ⟨v, hv, e⟩ := exists_of_map_eq hshare hw
    rw [Prod.mk.injEq] at e
    exact e.1 ▸ e.2 ▸ h.headOfLine.remaining v hv
  · have htail := congrArg List.tail hshare
    rw [← List.map_tail, ← List.map_tail] at htail
    obtain ⟨v, hv, e⟩ := exists_of_map_eq htail hw
    rw [Prod.mk.injEq] at e
    exact e.1 ▸ e.2 ▸ h.headOfLine.tail v hv
  · simp only [ledger, State.assigned]
    rw [hshape (fun w => w.required - w.remaining) fun _ => rfl]

/-- A poll of a future that asks for permits: it waits, it takes them all, or it fails and is left
as it is. -/
theorem poll (h : Good s acquires) (hi : acquires.get i = some a) (hpos : a.permits ≠ 0)
    {task : Option AsyncRuntime.TaskId} {waker : ω} {result : Poll (Except AcquireError Unit)}
    (hs : a.poll task waker s = some (result, a', s')) :
    s'.closed = s.closed ∧ a'.permits = a.permits ∧
    ((result = .pending ∧ Good s' (acquires.set i a') ∧ ledger s' (acquires.set i a') = ledger s acquires) ∨
      (result = .ready (.ok ()) ∧ a'.completed = true ∧ Backed s a ∧ Good s' (acquires.erase i) ∧
        ledger s' (acquires.erase i) + a.permits = ledger s acquires) ∨
      (result = .ready (.error ⟨⟩) ∧ s.closed = true ∧ a' = a ∧ s' = s)) := by
  rw [Acquire.poll, if_neg (by rw [h.tracked.running i a hi]; exact Bool.false_ne_true)] at hs
  split at hs
  · cases hs
  · split at hs
    · rename_i hc
      cases hs
      exact ⟨rfl, rfl, .inr (.inr ⟨rfl, hc, rfl, rfl⟩)⟩
    · rename_i hc
      have hc : s.closed = false := by simpa using hc
      split at hs
      · rename_i id ha
        split at hs
        · rename_i hid
          cases hs
          exact ⟨rfl, rfl, .inr (.inl ⟨rfl, rfl, .inl ⟨id, hid, ha⟩, h.erase_satisfied hi ha hid⟩)⟩
        · rename_i hid
          split at hs
          · cases hs
            exact ⟨rfl, rfl, .inl ⟨rfl, h.setWaker hi _ waker⟩⟩
          · rename_i hf
            -- the waiter is tracked
            obtain ⟨w, hw, e⟩ := (h.tracked.waiting hc i a id hi ha).resolve_left hid
            simpa [e] using List.findIdx?_eq_none_iff.mp hf w hw
      · rename_i ha
        split at hs
        · rename_i hq
          split at hs
          · rename_i hle
            cases hs
            obtain ⟨hg, hl⟩ := h.erase_idle hi (fun w _ => by simp [ha]) (fun id _ => by simp [ha])
            refine ⟨rfl, rfl, .inr (.inl ⟨rfl, rfl, .inr ⟨ha, hq, hle⟩, ⟨hg.tracked.congr rfl rfl rfl rfl,
              hg.traced.congr rfl rfl rfl, fun hne => absurd hq hne, hg.headOfLine.closed,
              hg.headOfLine.remaining, hg.headOfLine.tail⟩, ?_⟩)⟩
            rw [← hl]
            simp only [ledger, State.assigned]
            omega
          · cases hs
            exact ⟨rfl, rfl, .inl ⟨rfl, h.push hi ha hc _ waker (by omega) (by omega) fun hne =>
              absurd hq hne⟩⟩
        · rename_i hq
          have hp0 := h.headOfLine.permits hq
          have hpush := h.push hi ha hc a.permits waker (by omega) (by omega) fun _ => rfl
          rw [show ({ s with permits := 0 } : State ω) = s by rw [← hp0]] at hpush
          cases hs
          exact ⟨rfl, rfl, .inl ⟨rfl, hpush⟩⟩

end Good

/-! ## Runs -/

namespace Semaphore

/-- What every run of a semaphore that began with `n` permits keeps. -/
structure Inv (n : Nat) (m : Semaphore ω) : Prop where
  good : Good m.state m.acquires
  conserved : ledger m.state m.acquires + m.permits.total id + m.forgotten + m.lost = n + m.added
  open_lost : m.state.closed = false → m.lost = 0

theorem Inv.new (n : Nat) : Inv n (Semaphore.new n : Semaphore ω) := by
  refine ⟨⟨⟨?_, ?_, ?_, ?_, ?_, ?_, .nil, ?_, ?_⟩, ⟨?_, .nil, ?_, .nil, ?_⟩, ?_, ?_, ?_, ?_⟩, ?_,
    fun _ => rfl⟩ <;>
    simp [Semaphore.new, State.new, ledger, State.assigned, satisfied, Trace.Open]

variable {m m' : Semaphore ω} {n : Nat} {ans : Answer ω}

/-- What a poll of the live future `a` can do. -/
inductive Polled (m : Semaphore ω) (i : Nat) (a : Acquire) : Semaphore ω → Answer ω → Prop where
  | empty (h0 : a.permits = 0) (hg : Good m.state (m.acquires.erase i))
      (hl : ledger m.state (m.acquires.erase i) = ledger m.state m.acquires) :
      Polled m i a { m with acquires := m.acquires.erase i, permits := m.permits.insert 0 }
        (.polled (.ready (.ok m.permits.next)) [])
  | pending {a' : Acquire} {s' : State ω} (ha : a'.permits = a.permits) (hc : s'.closed = m.state.closed)
      (hg : Good s' (m.acquires.set i a')) (hl : ledger s' (m.acquires.set i a') = ledger m.state m.acquires) :
      Polled m i a { m with state := s', acquires := m.acquires.set i a' } (.polled .pending [])
  | acquired {s' : State ω} (hb : Backed m.state a) (hc : s'.closed = m.state.closed) (hg : Good s' (m.acquires.erase i))
      (hl : ledger s' (m.acquires.erase i) + a.permits = ledger m.state m.acquires) :
      Polled m i a { m with state := s', acquires := m.acquires.erase i, permits := m.permits.insert a.permits }
        (.polled (.ready (.ok m.permits.next)) [])
  | closed {s' : State ω} {woken : List ω} (hclosed : m.state.closed = true) (hc : s'.closed = m.state.closed)
      (hg : Good s' (m.acquires.erase i)) (hl : ledger s' (m.acquires.erase i) = ledger m.state m.acquires) :
      Polled m i a { m with state := s', acquires := m.acquires.erase i } (.polled (.ready (.error ⟨⟩)) woken)

theorem polled_of_poll (h : Good m.state m.acquires) {i : Nat} {a : Acquire} (hi : m.acquires.get i = some a)
    {task : Option AsyncRuntime.TaskId} {waker : ω} (hs : m.poll i task waker = some (m', ans)) :
    Polled m i a m' ans := by
  simp only [Semaphore.poll, hi] at hs
  split at hs
  · rename_i h0
    cases hs
    -- a future of no permits waits for nothing
    have ha : ∀ id, a.waiterId ≠ some id := fun id ha => by
      have := h.tracked.positive i a id hi ha
      omega
    obtain ⟨hg, hl⟩ := h.erase_idle hi (fun w _ => ha _) (fun id _ => ha id)
    exact .empty h0 hg hl
  · rename_i hpos
    obtain ⟨⟨result, a', s'⟩, hpoll, hs⟩ := Option.bind_eq_some_iff.mp hs
    obtain ⟨hc, hperm, ⟨rfl, hg, hl⟩ | ⟨rfl, hdone, hb, hg, hl⟩ | ⟨rfl, hclosed, rfl, rfl⟩⟩ :=
      h.poll hi hpos hpoll
    · cases hs
      exact .pending hperm hc hg hl
    · simp only [Acquire.drop, hdone, if_true, Option.map_some, hperm] at hs
      cases hs
      exact .acquired hb hc hg hl
    · obtain ⟨⟨s₂, woken⟩, hdrop, hs⟩ := Option.map_eq_some_iff.mp hs
      obtain ⟨hg, hl, hc⟩ := h.drop hi hdrop
      cases hs
      exact .closed hclosed hc hg hl

theorem Inv.poll (h : Inv n m) {i : Nat} {task : Option AsyncRuntime.TaskId} {waker : ω}
    (hs : m.poll i task waker = some (m', ans)) : Inv n m' ∧ m'.state.closed = m.state.closed := by
  have hcons := h.conserved
  cases hi : m.acquires.get i with
  | none =>
    simp only [Semaphore.poll, hi] at hs
    cases hs
    exact ⟨h, rfl⟩
  | some a =>
    cases polled_of_poll h.good hi hs with
    | empty h0 hg hl =>
      refine ⟨⟨hg, ?_, h.open_lost⟩, rfl⟩
      simp only [hl, Table.total_insert, id, Nat.add_zero, hcons]
    | pending ha hc hg hl =>
      refine ⟨⟨hg, ?_, fun hcl => h.open_lost (hc ▸ hcl)⟩, hc⟩
      simp only [hl, hcons]
    | acquired hb hc hg hl =>
      refine ⟨⟨hg, ?_, fun hcl => h.open_lost (hc ▸ hcl)⟩, hc⟩
      simp only [Table.total_insert, id]
      omega
    | closed hclosed hc hg hl =>
      refine ⟨⟨hg, ?_, fun hcl => h.open_lost (hc ▸ hcl)⟩, hc⟩
      simp only [hl, hcons]

theorem Inv.dropPermit (h : Inv n m) {j : Nat} (hs : m.dropPermit j = some (m', ans)) :
    Inv n m' ∧ m'.state.closed = m.state.closed := by
  have hcons := h.conserved
  simp only [Semaphore.dropPermit] at hs
  split at hs
  · cases hs
    exact ⟨h, rfl⟩
  · rename_i permits hj
    obtain ⟨⟨s', woken⟩, hadd, hs⟩ := Option.map_eq_some_iff.mp hs
    obtain ⟨hg, hl, hc⟩ := h.good.addPermits hadd
    have hheld := Table.total_erase (f := id) hj
    cases hs
    refine ⟨⟨hg, ?_, fun hcl => h.open_lost (hc ▸ hcl)⟩, hc⟩
    simp only [hl, id] at hheld ⊢
    omega

theorem Inv.step (h : Inv n m) {op : Op ω} (hs : m.step op = some (m', ans)) :
    Inv n m' ∧ (op ≠ .close → m'.state.closed = m.state.closed) := by
  have hcons := h.conserved
  cases op with
  | acquireMany permits =>
    cases hs
    refine ⟨⟨⟨h.good.tracked.insert permits, h.good.traced, h.good.headOfLine⟩, ?_, h.open_lost⟩,
      fun _ => rfl⟩
    simp only [ledger, satisfied_new] at hcons ⊢
    exact hcons
  | poll i task waker =>
    obtain ⟨hinv, hc⟩ := h.poll hs
    exact ⟨hinv, fun _ => hc⟩
  | dropAcquire i =>
    simp only [Semaphore.step, Semaphore.dropAcquire] at hs
    split at hs
    · cases hs
      exact ⟨h, fun _ => rfl⟩
    · rename_i a hi
      obtain ⟨⟨s', woken⟩, hdrop, hs⟩ := Option.map_eq_some_iff.mp hs
      obtain ⟨hg, hl, hc⟩ := h.good.drop hi hdrop
      cases hs
      refine ⟨⟨hg, ?_, fun hcl => h.open_lost (hc ▸ hcl)⟩, fun _ => hc⟩
      simp only [hl, hcons]
  | tryAcquireMany permits =>
    simp only [Semaphore.step, Semaphore.tryAcquireMany, Option.some.injEq] at hs
    rcases hr : m.state.tryAcquire permits with ⟨result, s'⟩
    rw [hr] at hs
    obtain ⟨e, rfl, rfl⟩ | ⟨rfl, hc, hg, hl⟩ := h.good.tryAcquire hr
    · cases hs
      exact ⟨h, fun _ => rfl⟩
    · cases hs
      refine ⟨⟨hg, ?_, fun hcl => h.open_lost (hc ▸ hcl)⟩, fun _ => hc⟩
      simp only [Table.total_insert, id]
      omega
  | addPermits permits =>
    obtain ⟨⟨s', woken⟩, hadd, hs⟩ := Option.map_eq_some_iff.mp hs
    obtain ⟨hg, hl, hc⟩ := h.good.addPermits hadd
    cases hs
    refine ⟨⟨hg, ?_, fun hcl => h.open_lost (hc ▸ hcl)⟩, fun _ => hc⟩
    simp only [hl]
    omega
  | dropPermit j =>
    obtain ⟨hinv, hc⟩ := h.dropPermit hs
    exact ⟨hinv, fun _ => hc⟩
  | forget j =>
    simp only [Semaphore.step, Semaphore.forget] at hs
    split at hs
    · cases hs
      exact ⟨h, fun _ => rfl⟩
    · rename_i permits hj
      have hset := Table.total_set (f := id) (b := 0) hj
      have h' : Inv n { m with permits := m.permits.set j 0, forgotten := m.forgotten + permits } :=
        ⟨h.good, by simp only [id] at hset ⊢; omega, h.open_lost⟩
      obtain ⟨hinv, hc⟩ := h'.dropPermit hs
      exact ⟨hinv, fun _ => hc⟩
  | close =>
    simp only [Semaphore.step, Semaphore.close, State.close, Option.some.injEq] at hs
    cases hcl : m.state.closed with
    | true =>
      rw [hcl] at hs
      cases hs
      exact ⟨h, fun hne => absurd rfl hne⟩
    | false =>
      rw [hcl] at hs
      cases hs
      have hlost := h.open_lost hcl
      refine ⟨⟨⟨h.good.tracked.close rfl rfl rfl rfl, h.good.traced.close rfl rfl,
        fun hne => absurd rfl hne, fun _ => rfl,
        fun w hw => ?_, fun w hw => ?_⟩, ?_, fun hf => ?_⟩, fun hne => absurd rfl hne⟩
      · cases hw
      · cases hw
      · simp only [ledger, State.assigned, State.log, List.map_nil, List.sum_nil, Bool.false_eq_true,
          if_false] at hcons ⊢
        omega
      · cases hf

end Semaphore

end DesCartes.BatchSemaphore
